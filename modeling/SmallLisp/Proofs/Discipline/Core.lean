import Mathlib.Tactic
import SmallLisp.Core.Run
import SmallLisp.Proofs.Discipline.SpecialForm

/-!
# Core functions keep a discipline

What a core function returns is made of its arguments, of what the atoms among them hold, and of
what the functions that it calls return.
-/

namespace SmallLisp

namespace Discipline

open Eval

variable {D : Discipline} {s : Store} {args : List Value} {nested : Nested}

theorem keeps_ofHost {α : Type} (x : Except HostFault α) :
    D.Keeps s (ofHost x) fun _ _ => True := by
  cases x with
  | ok a => exact keeps_pure trivial
  | error fault => exact keeps_throw trivial

theorem keeps_single (function : String) (h : D.AllHold s args) :
    D.Keeps s (single function args) D.Holds := by
  unfold single
  split
  · exact keeps_pure (h _ (by simp))
  · exact keeps_throw trivial

theorem keeps_double (function : String) (h : D.AllHold s args) :
    D.Keeps s (double function args) fun s' pair => D.Holds s' pair.1 ∧ D.Holds s' pair.2 := by
  unfold double
  split
  · exact keeps_pure ⟨h _ (by simp), h _ (by simp)⟩
  · exact keeps_throw trivial

theorem keeps_numbers (function : String) (args : List Value) :
    D.Keeps s (numbers function args) fun _ _ => True := by
  unfold numbers
  split
  · exact keeps_pure trivial
  · exact keeps_throw trivial

theorem keeps_elements (function : String) {v : Value} (h : D.Holds s v) :
    D.Keeps s (elements function v) D.AllHold := by
  unfold elements
  split
  · exact keeps_pure (List.forall_mem_nil _)
  · split
    · next items hitems => exact keeps_pure (h.sequence hitems)
    · exact (keeps_represent _).bind fun _ _ _ _ => keeps_throw trivial

theorem keeps_characters (function : String) (v : Value) :
    D.Keeps s (characters function v) fun _ _ => True := by
  unfold characters
  split
  · exact keeps_pure trivial
  · exact (keeps_represent _).bind fun _ _ _ _ => keeps_throw trivial

theorem keeps_address (function : String) {v : Value} (h : D.Holds s v) :
    D.Keeps s (Eval.address function v) fun s' a => D.address s'.contents.size a := by
  unfold Eval.address
  split
  · cases h with
    | atom ha => exact keeps_pure ha
  · exact (keeps_represent _).bind fun _ _ _ _ => keeps_throw trivial

theorem keeps_test (function : String) (property : Value → Bool) (h : D.AllHold s args) :
    D.Keeps s (Core.test function property args) D.Holds :=
  (keeps_single function h).bind fun _ _ _ _ => keeps_pure (.bool _)

theorem keeps_raiseValue (h : D.AllHold s args) : D.Keeps s (Core.raiseValue args) D.Holds := by
  apply (keeps_single "throw" h).bind
  intro value s₁ _ hvalue
  exact (keeps_represent value).bind fun _ _ hs₂ _ => keeps_throw (hvalue.later hs₂)

theorem keeps_fold (op : Number → Number → Except HostFault Number) (total : Number)
    (ns : List Number) : D.Keeps s (Arithmetic.fold op total ns) fun _ _ => True := by
  induction ns generalizing s total with
  | nil => exact keeps_pure trivial
  | cons n rest ih => exact (keeps_ofHost _).bind fun total _ _ _ => ih total

theorem keeps_foldQuotient (total : Number) (ns : List Number) :
    D.Keeps s (Arithmetic.foldQuotient total ns) fun _ _ => True := by
  induction ns generalizing s total with
  | nil => exact keeps_pure trivial
  | cons n rest ih =>
    apply (keeps_ofHost _).bind
    intro q _ _ _
    split
    · exact ih _
    · exact keeps_throw trivial

theorem keeps_sum (args : List Value) : D.Keeps s (Arithmetic.sum args) D.Holds :=
  (keeps_numbers "+" args).bind fun _ _ _ _ =>
    (keeps_fold _ _ _).bind fun total _ _ _ => keeps_ofNumber total

theorem keeps_product (args : List Value) : D.Keeps s (Arithmetic.product args) D.Holds :=
  (keeps_numbers "*" args).bind fun _ _ _ _ =>
    (keeps_fold _ _ _).bind fun total _ _ _ => keeps_ofNumber total

theorem keeps_difference (args : List Value) :
    D.Keeps s (Arithmetic.difference args) D.Holds := by
  apply (keeps_numbers "-" args).bind
  intro ns _ _ _
  split
  · exact keeps_pure (.int 0)
  · exact keeps_ofNumber _
  · exact (keeps_fold _ _ _).bind fun total _ _ _ => keeps_ofNumber total

theorem keeps_quotient (h : D.AllHold s args) :
    D.Keeps s (Arithmetic.quotient args) D.Holds := by
  apply (keeps_numbers "/" args).bind
  intro ns s₁ hs₁ _
  split
  · exact keeps_pure .nil
  · exact keeps_pure (h.later hs₁ _ (by simp))
  · exact (keeps_foldQuotient _ _).bind fun total _ _ _ => keeps_ofNumber total

theorem keeps_compare (symbol : String) (op : Number → Number → Bool) (h : D.AllHold s args) :
    D.Keeps s (Arithmetic.compare symbol op args) D.Holds := by
  apply (keeps_double symbol h).bind
  intro pair _ _ _
  apply (keeps_numbers symbol _).bind
  intro ns _ _ _
  split
  · exact keeps_pure (.bool _)
  · exact keeps_pure (.bool false)

theorem meetsLimits_progression (stop step : Number) (limit : Nat) (start : Number)
    (passed : List Number) :
    StopsWith Stop.IsLimit (Arithmetic.progression stop step limit start passed) := by
  induction limit generalizing start passed with
  | zero => exact .error trivial
  | succ limit ih =>
    unfold Arithmetic.progression
    split_ifs
    · split
      · exact ih _ _
      · exact .error trivial
    · exact .ok _

theorem keeps_range (limit : Nat) (args : List Value) :
    D.Keeps s (Arithmetic.range limit args) D.Holds := by
  have hgo (s : Store) (start stop step : Number) : D.Keeps s (do
      let reversed ← Eval.ofExcept (Arithmetic.progression stop step limit start [])
      newList (← reversed.reverse.mapM ofNumber)) D.Holds := by
    apply (keeps_ofExcept (meetsLimits_progression _ _ _ _ _)).bind
    intro reversed s₁ _ _
    have hnumbers : D.Keeps s₁ (reversed.reverse.mapM ofNumber) D.AllHold := by
      refine keeps_mapM (fun _ _ => True) ?_ ?_ ?_ ?_
      · exact fun _ _ _ _ _ => trivial
      · exact fun v s s' hlater hv => hv.later hlater
      · exact fun n s _ => keeps_ofNumber n
      · exact fun _ _ => trivial
    exact hnumbers.bind fun vs _ _ hvs => keeps_newList hvs
  unfold Arithmetic.range
  dsimp only
  split
  on_goal 4 => exact keeps_throw trivial
  all_goals
    apply (keeps_numbers "range" _).bind
    intro ns s₁ _ _
    split
    on_goal 4 => exact keeps_newList (List.forall_mem_nil _)
    all_goals exact hgo s₁ _ _ _

theorem keeps_create (h : D.AllHold s args) : D.Keeps s (Cell.create args) D.Holds := by
  apply (keeps_single "atom" h).bind
  intro v s₁ _ hv hs₁
  have hnew : D.Holds (s₁.addContent v).2 (.atom s₁.contents.size) := by
    refine .atom ?_
    rw [Store.size_addContent]
    exact D.address_new hs₁.atomCount_le
  exact ⟨hs₁.addContent hv, hv.later_addContent, hnew⟩

theorem keeps_read {a : Address} (ha : D.address s.contents.size a) :
    D.Keeps s (Cell.read a) D.Holds := by
  refine keeps_of_good fun hs => keeps_get (keeps_pure ?_)
  cases hcontent : s.content? a with
  | none => exact .nil
  | some v => exact hs.content ha hcontent

theorem keeps_write [D.Rewriting] {a : Address} {v : Value} (ha : D.address s.contents.size a)
    (hv : D.Holds s v) : D.Keeps s (Cell.write a v) D.Holds := by
  have hlater : D.later s (s.setContent a v) := Rewriting.setContent ha v
  apply (keeps_modify (fun hs => hs.setContent ha hv) hlater).bind
  intro _ s₁ hs₁ _
  exact keeps_pure (hv.later hs₁)

theorem keeps_deref (h : D.AllHold s args) : D.Keeps s (Cell.deref args) D.Holds := by
  apply (keeps_single "deref" h).bind
  intro v _ _ hv
  exact (keeps_address "deref" hv).bind fun a _ _ ha => keeps_read ha

theorem keeps_reset [D.Rewriting] (h : D.AllHold s args) : D.Keeps s (Cell.reset args) D.Holds := by
  apply (keeps_double "reset!" h).bind
  intro pair s₁ _ hpair
  apply (keeps_address "reset!" hpair.1).bind
  intro a s₂ hs₂ ha
  exact keeps_write ha (hpair.2.later hs₂)

theorem keeps_swap [D.Rewriting] (hnested : D.NestedKeeps nested) (h : D.AllHold s args) :
    D.Keeps s (Cell.swap nested args) D.Holds := by
  unfold Cell.swap
  split
  · next cell f extra =>
    have hcell : D.Holds s cell := h cell (by simp)
    have hf : D.Holds s f := h f (by simp)
    have hextra : D.AllHold s extra := fun v hv => h v (by simp [hv])
    apply (keeps_address "swap!" hcell).bind
    intro a s₁ hs₁ ha
    apply (keeps_read ha).bind
    intro content s₂ hs₂ hcontent
    have hargs : D.AllHold s₂ (content :: extra) :=
      List.forall_mem_cons.2 ⟨hcontent, (hextra.later hs₁).later hs₂⟩
    have hcall : D.JobHolds s₂ (.call f (content :: extra)) := ⟨(hf.later hs₁).later hs₂, hargs⟩
    apply (hnested s₂ _ hcall).bind
    intro v s₃ hs₃ hv
    have ha₃ := D.address_mono (D.contents_le hs₃) (D.address_mono (D.contents_le hs₂) ha)
    exact keeps_write ha₃ hv
  · exact keeps_throw trivial

theorem keeps_index (v : Value) : D.Keeps s (Sequence.index v) fun _ _ => True := by
  unfold Sequence.index
  split
  · apply (keeps_ofHost _).bind
    intro i _ _ _
    split_ifs
    · exact keeps_pure trivial
    · exact (keeps_represent _).bind fun _ _ _ _ => keeps_throw trivial
  · exact (keeps_represent _).bind fun _ _ _ _ => keeps_throw trivial

theorem keeps_nth (h : D.AllHold s args) : D.Keeps s (Sequence.nth args) D.Holds := by
  apply (keeps_double "nth" h).bind
  intro pair s₁ _ hpair
  apply (keeps_elements "nth" hpair.1).bind
  intro items s₂ _ hitems
  apply (keeps_index pair.2).bind
  intro i s₃ hs₃ _
  split
  · next item hitem =>
    split_ifs
    · exact keeps_pure (hitems.later hs₃ item (List.mem_of_getElem? hitem))
    · exact keeps_throw trivial
  · exact keeps_throw trivial

theorem holds_headD {items : List Value} (h : D.AllHold s items) :
    D.Holds s (items.headD .nil) := by
  cases items with
  | nil => exact .nil
  | cons item items => exact h item (by simp)

theorem holds_getLastD {items : List Value} (h : D.AllHold s items) :
    D.Holds s (items.getLastD .nil) := by
  rw [List.getLastD_eq_getLast?]
  cases hlast : items.getLast? with
  | none => exact .nil
  | some item => exact h item (List.mem_of_getLast? hlast)

theorem keeps_first (h : D.AllHold s args) : D.Keeps s (Sequence.first args) D.Holds := by
  apply (keeps_single "first" h).bind
  intro v _ _ hv
  exact (keeps_elements "first" hv).bind fun items _ _ hitems => keeps_pure (holds_headD hitems)

theorem keeps_last (h : D.AllHold s args) : D.Keeps s (Sequence.last args) D.Holds := by
  apply (keeps_single "last" h).bind
  intro v _ _ hv
  exact (keeps_elements "last" hv).bind fun items _ _ hitems => keeps_pure (holds_getLastD hitems)

theorem keeps_rest (h : D.AllHold s args) : D.Keeps s (Sequence.rest args) D.Holds := by
  apply (keeps_single "rest" h).bind
  intro v _ _ hv
  apply (keeps_elements "rest" hv).bind
  intro items _ _ hitems
  exact keeps_newList fun item hitem => hitems item (List.mem_of_mem_drop hitem)

theorem keeps_isEmpty (h : D.AllHold s args) : D.Keeps s (Sequence.isEmpty args) D.Holds := by
  apply (keeps_single "empty?" h).bind
  intro v _ _ hv
  exact (keeps_elements "empty?" hv).bind fun _ _ _ _ => keeps_pure (.bool _)

theorem keeps_count (h : D.AllHold s args) : D.Keeps s (Sequence.count args) D.Holds := by
  apply (keeps_single "count" h).bind
  intro v _ _ hv
  split
  · exact keeps_pure (.int _)
  · exact keeps_pure (.int _)
  · exact (keeps_elements "count" hv).bind fun _ _ _ _ => keeps_pure (.int _)

theorem keeps_cons (h : D.AllHold s args) : D.Keeps s (Sequence.cons args) D.Holds := by
  apply (keeps_double "cons" h).bind
  intro pair s₁ _ hpair
  apply (keeps_elements "cons" hpair.2).bind
  intro items s₂ hs₂ hitems
  exact keeps_newList (List.forall_mem_cons.2 ⟨hpair.1.later hs₂, hitems⟩)

theorem keeps_concat (h : D.AllHold s args) : D.Keeps s (Sequence.concat args) D.Holds := by
  have hitems : D.Keeps s (args.mapM (elements "concat"))
      fun s' lists => ∀ items ∈ lists, D.AllHold s' items := by
    refine keeps_mapM D.Holds ?_ ?_ ?_ h
    · exact fun v s s' hlater hv => hv.later hlater
    · exact fun items s s' hlater hitems => hitems.later hlater
    · exact fun v s hv => keeps_elements "concat" hv
  apply hitems.bind
  intro lists _ _ hlists
  apply keeps_newList
  intro item hitem
  obtain ⟨items, hmem, hitem⟩ := List.mem_flatten.1 hitem
  exact hlists items hmem item hitem

theorem keeps_writeLine (mode : PrintMode) (args : List Value) :
    D.Keeps s (TextFunction.writeLine mode args) D.Holds := by
  apply (keeps_printJoined mode " " args).bind
  intro text s₁ _ _
  have hlater := D.write s₁ (text ++ "\n")
  apply (keeps_modify (fun hs => hs.congr hlater rfl rfl) hlater).bind
  intro _ _ _ _
  exact keeps_pure .nil

theorem keeps_symbol (h : D.AllHold s args) : D.Keeps s (TextFunction.symbol args) D.Holds := by
  apply (keeps_single "symbol" h).bind
  intro v _ _ _
  exact (keeps_characters "symbol" v).bind fun _ _ _ _ => keeps_pure (.sym _)

theorem keeps_keyword (h : D.AllHold s args) : D.Keeps s (TextFunction.keyword args) D.Holds := by
  apply (keeps_single "keyword" h).bind
  intro v _ _ _
  split
  · exact keeps_pure (.kw _)
  · exact (keeps_characters "keyword" _).bind fun _ _ _ _ => keeps_pure (.kw _)

theorem keeps_readString (h : D.AllHold s args) : D.Keeps s (TextFunction.read args) D.Holds := by
  apply (keeps_single "read-string" h).bind
  intro v _ _ _
  exact (keeps_characters "read-string" v).bind fun text _ _ _ => keeps_readForm text

theorem Holds.info {v : Value} (h : D.Holds s v) : D.Holds s v.info := by
  cases h with
  | list _ hinfo | vec _ hinfo | map _ _ _ hinfo | closure _ _ _ hinfo | builtin hinfo =>
    exact hinfo
  | _ => exact .nil

theorem Holds.withInfo {v w info : Value} {id : Identity} (h : D.Holds s v)
    (hinfo : D.Holds s info) (hw : v.withInfo? id info = some w) : D.Holds s w := by
  cases h with
  | list hitems _ =>
    obtain rfl := Option.some.inj hw
    exact .list hitems hinfo
  | vec hitems _ =>
    obtain rfl := Option.some.inj hw
    exact .vec hitems hinfo
  | map hkeys hvalues hentries _ =>
    obtain rfl := Option.some.inj hw
    exact .map hkeys hvalues hentries hinfo
  | closure hparams hbody hscope _ =>
    obtain rfl := Option.some.inj hw
    exact .closure hparams hbody hscope hinfo
  | builtin _ =>
    obtain rfl := Option.some.inj hw
    exact .builtin hinfo
  | _ => cases hw

theorem keeps_infoOf (h : D.AllHold s args) : D.Keeps s (Metadata.infoOf args) D.Holds :=
  (keeps_single "meta" h).bind fun _ _ _ hv => keeps_pure hv.info

theorem keeps_withInfo (h : D.AllHold s args) : D.Keeps s (Metadata.withInfo args) D.Holds := by
  apply (keeps_double "with-meta" h).bind
  intro pair s₁ _ hpair
  apply keeps_fresh.bind
  intro id s₂ hs₂ _
  split
  · next w hw => exact keeps_pure ((hpair.1.later hs₂).withInfo (hpair.2.later hs₂) hw)
  · exact (keeps_represent _).bind fun _ _ _ _ => keeps_throw trivial

/-- One of several values is among them, or is the value that the choice began with. -/
theorem holds_foldl {choose : Value → Value → Value}
    (hchoose : ∀ a b, choose a b = a ∨ choose a b = b)
    {first : Value} (hfirst : D.Holds s first) (h : D.AllHold s args) :
    D.Holds s (args.foldl choose first) := by
  induction args generalizing first with
  | nil => exact hfirst
  | cons arg args ih =>
    have h := List.forall_mem_cons.1 h
    refine ih ?_ h.2
    rcases hchoose first arg with heq | heq
    · rw [heq]
      exact hfirst
    · rw [heq]
      exact h.1

theorem keeps_applySpread (hnested : D.NestedKeeps nested) (h : D.AllHold s args) :
    D.Keeps s (Core.applySpread nested args) D.Holds := by
  unfold Core.applySpread
  split
  · next f arg more =>
    have hf : D.Holds s f := h f (by simp)
    have hmore : D.AllHold s (arg :: more) := fun v hv => h v (List.mem_cons_of_mem _ hv)
    have hlast := hmore _ (List.getLast_mem (by simp : arg :: more ≠ []))
    apply (keeps_elements "apply" hlast).bind
    intro spread s₁ hs₁ hspread
    refine hnested s₁ _ ⟨hf.later hs₁, fun v hv => ?_⟩
    rcases List.mem_append.1 hv with hv | hv
    · exact hmore.later hs₁ v (List.mem_of_mem_dropLast hv)
    · exact hspread v hv
  · exact keeps_throw trivial

/-- Every core function keeps the discipline; those that write atoms ask that it lets them. -/
theorem keeps_core (hnested : D.NestedKeeps nested) (f : Core) (limit : Nat)
    (hwrites : f = .reset ∨ f = .swap → D.Rewriting) (h : D.AllHold s args) :
    D.Keeps s (f.run nested limit args) D.Holds := by
  cases f with
  | raise => exact keeps_raiseValue h
  | symbol => exact keeps_symbol h
  | keyword => exact keeps_keyword h
  | equal => exact (keeps_double "=" h).bind fun _ _ _ _ => keeps_pure (.bool _)
  | less | lessEqual | greater | greaterEqual => exact keeps_compare _ _ h
  | or =>
    refine keeps_pure (holds_foldl (fun a b => ?_) (.bool false) h)
    split_ifs <;> simp
  | and =>
    refine keeps_pure (holds_foldl (fun a b => ?_) (.bool true) h)
    split_ifs <;> simp
  | add => exact keeps_sum args
  | sub => exact keeps_difference args
  | mul => exact keeps_product args
  | div => exact keeps_quotient h
  | list => exact keeps_newList h
  | vector => exact keeps_newVec h
  | nth => exact keeps_nth h
  | first => exact keeps_first h
  | rest => exact keeps_rest h
  | last => exact keeps_last h
  | isEmpty => exact keeps_isEmpty h
  | count => exact keeps_count h
  | apply => exact keeps_applySpread hnested h
  | str => exact (keeps_printJoined .display "" args).bind fun _ _ _ _ => keeps_pure (.str _)
  | prn => exact keeps_writeLine .readable args
  | println => exact keeps_writeLine .display args
  | readString => exact keeps_readString h
  | cons => exact keeps_cons h
  | concat => exact keeps_concat h
  | metaOf => exact keeps_infoOf h
  | withMeta => exact keeps_withInfo h
  | atom => exact keeps_create h
  | deref => exact keeps_deref h
  | reset =>
    have := hwrites (.inl rfl)
    exact keeps_reset h
  | swap =>
    have := hwrites (.inr rfl)
    exact keeps_swap hnested h
  | range => exact keeps_range limit args
  | isNil | isTrue | isFalse | isNumber | isString | isSymbol | isKeyword | isFn | isMacro
  | isList | isVector | isMap | isAtom => exact keeps_test _ _ h

end Discipline

end SmallLisp
