import Mathlib.Tactic
import SmallLisp.Proofs.World.SpecialForm

/-!
# Core functions run alike

A core function runs alike on matching arguments: it can ask them for nothing that tells places
apart, it reads and writes paired atoms only, and what it makes is new on both sides.
-/

namespace SmallLisp.World

open Eval

variable {root root' : ScopeId} {W W' : World root root'} {nested nested' : Nested}
  {v w : Value} {vs ws args args' : List Value}

theorem alike_ofHost {α : Type} (x : Except HostFault α) : W.Alike (ofHost x) (ofHost x) Same := by
  cases x with
  | ok a => exact alike_pure rfl
  | error fault => exact alike_stop trivial

theorem alike_single (function : String) (h : W.AllMatch args args') :
    W.Alike (single function args) (single function args') Matches := by
  rcases h with _ | ⟨hv, _ | ⟨hw, hrest⟩⟩
  · exact alike_stop trivial
  · exact alike_pure hv
  · simp only [single, wrongCount, List.length_cons, hrest.length_eq]
    exact alike_stop trivial

def BothMatch (W : World root root') (x y : Value × Value) : Prop :=
  W.Matches x.1 y.1 ∧ W.Matches x.2 y.2

theorem alike_double (function : String) (h : W.AllMatch args args') :
    W.Alike (double function args) (double function args') BothMatch := by
  rcases h with _ | ⟨hv, _ | ⟨hw, _ | ⟨hx, hrest⟩⟩⟩
  · exact alike_stop trivial
  · exact alike_stop trivial
  · exact alike_pure ⟨hv, hw⟩
  · simp only [double, wrongCount, List.length_cons, hrest.length_eq]
    exact alike_stop trivial

theorem mapM_number?_eq (h : W.AllMatch vs ws) :
    vs.mapM Value.number? = ws.mapM Value.number? := by
  induction h with
  | nil => rfl
  | cons hv _ ih => rw [List.mapM_cons, List.mapM_cons, hv.number?_eq, ih]

theorem alike_numbers (function : String) (h : W.AllMatch args args') :
    W.Alike (numbers function args) (numbers function args') Same := by
  unfold numbers
  rw [mapM_number?_eq h]
  split
  · exact alike_pure rfl
  · exact alike_stop trivial

theorem alike_elements (function : String) (h : W.Matches v w) :
    W.Alike (elements function v) (elements function w) AllMatch := by
  have hmatches := h
  cases h with
  | nil => exact alike_pure .nil
  | list _ _ hlength hzip _ => exact alike_pure (List.forall₂_iff_zip.2 ⟨hlength, hzip⟩)
  | vec _ hlength hzip _ => exact alike_pure (List.forall₂_iff_zip.2 ⟨hlength, hzip⟩)
  | _ =>
    exact alike_refusal (fun shown => .primitive (.notSequence function shown)) (fun _ => trivial)
      hmatches

theorem alike_characters (function : String) (h : W.Matches v w) :
    W.Alike (characters function v) (characters function w) Same := by
  have hmatches := h
  cases h with
  | str text => exact alike_pure rfl
  | _ =>
    exact alike_refusal (fun shown => .primitive (.notString function shown)) (fun _ => trivial)
      hmatches

theorem alike_address (function : String) (h : W.Matches v w) :
    W.Alike (Eval.address function v) (Eval.address function w)
      fun W' a b => W'.pairs .atom a b := by
  have hmatches := h
  cases h with
  | atom hab => exact alike_pure hab
  | _ =>
    exact alike_refusal (fun shown => .primitive (.notAtom function shown)) (fun _ => trivial)
      hmatches

theorem alike_test (function : String) {property : Value → Bool}
    (hproperty : ∀ {W : World root root'} {v w}, W.Matches v w → property v = property w)
    (h : W.AllMatch args args') :
    W.Alike (Core.test function property args) (Core.test function property args') Matches := by
  apply (alike_single function h).bind
  intro v w W₁ _ hv
  rw [hproperty hv]
  exact alike_pure (.bool _)

theorem alike_raiseValue (h : W.AllMatch args args') :
    W.Alike (Core.raiseValue args) (Core.raiseValue args') Matches := by
  apply (alike_single "throw" h).bind
  intro v w W₁ _ hv
  apply (alike_represent hv).bind
  rintro shown _ W₂ hW₂ rfl
  exact alike_throw (.raised shown (hv.later hW₂))

theorem alike_fold (op : Number → Number → Except HostFault Number) (total : Number)
    (ns : List Number) :
    W.Alike (Arithmetic.fold op total ns) (Arithmetic.fold op total ns) Same := by
  induction ns generalizing W total with
  | nil => exact alike_pure rfl
  | cons n rest ih =>
    apply (alike_ofHost _).bind
    rintro total _ W₁ _ rfl
    exact ih total

theorem alike_foldQuotient (total : Number) (ns : List Number) :
    W.Alike (Arithmetic.foldQuotient total ns) (Arithmetic.foldQuotient total ns) Same := by
  induction ns generalizing W total with
  | nil => exact alike_pure rfl
  | cons n rest ih =>
    apply (alike_ofHost _).bind
    rintro q _ W₁ _ rfl
    split
    · exact ih _
    · exact alike_stop trivial

theorem alike_sum (h : W.AllMatch args args') :
    W.Alike (Arithmetic.sum args) (Arithmetic.sum args') Matches := by
  apply (alike_numbers "+" h).bind
  rintro ns _ W₁ _ rfl
  apply (alike_fold _ _ ns).bind
  rintro total _ W₂ _ rfl
  exact alike_ofNumber total

theorem alike_product (h : W.AllMatch args args') :
    W.Alike (Arithmetic.product args) (Arithmetic.product args') Matches := by
  apply (alike_numbers "*" h).bind
  rintro ns _ W₁ _ rfl
  apply (alike_fold _ _ ns).bind
  rintro total _ W₂ _ rfl
  exact alike_ofNumber total

theorem alike_difference (h : W.AllMatch args args') :
    W.Alike (Arithmetic.difference args) (Arithmetic.difference args') Matches := by
  apply (alike_numbers "-" h).bind
  rintro ns _ W₁ _ rfl
  split
  · exact alike_pure (.int 0)
  · exact alike_ofNumber _
  · apply (alike_fold _ _ _).bind
    rintro total _ W₂ _ rfl
    exact alike_ofNumber total

theorem alike_quotient (h : W.AllMatch args args') :
    W.Alike (Arithmetic.quotient args) (Arithmetic.quotient args') Matches := by
  apply (alike_numbers "/" h).bind
  rintro ns _ W₁ hW₁ rfl
  have hquotient (n : Number) (rest : List Number) : W₁.Alike
      (do ofNumber (← Arithmetic.foldQuotient n rest))
      (do ofNumber (← Arithmetic.foldQuotient n rest)) Matches := by
    apply (alike_foldQuotient n rest).bind
    rintro total _ W₂ _ rfl
    exact alike_ofNumber total
  rcases ns with _ | ⟨n, _ | ⟨m, rest⟩⟩
  · cases h <;> exact alike_pure .nil
  · cases h with
    | nil => exact hquotient n []
    | cons hv _ => exact alike_pure (hv.later hW₁)
  · cases h <;> exact hquotient n (m :: rest)

theorem alike_compare (symbol : String) (op : Number → Number → Bool)
    (h : W.AllMatch args args') :
    W.Alike (Arithmetic.compare symbol op args) (Arithmetic.compare symbol op args') Matches := by
  apply (alike_double symbol h).bind
  rintro ⟨a, b⟩ ⟨a', b'⟩ W₁ _ ⟨ha, hb⟩
  apply (alike_numbers symbol (.cons ha (.cons hb .nil))).bind
  rintro ns _ W₂ _ rfl
  split
  · exact alike_pure (.bool _)
  · exact alike_pure (.bool false)

theorem alike_progression (stop step : Number) (limit : Nat) (start : Number) :
    W.Alike
      (do
        let reversed ← Eval.ofExcept (Arithmetic.progression stop step limit start [])
        newList (← reversed.reverse.mapM ofNumber))
      (do
        let reversed ← Eval.ofExcept (Arithmetic.progression stop step limit start [])
        newList (← reversed.reverse.mapM ofNumber)) Matches := by
  have hplain := (Discipline.meetsLimits_progression stop step limit start []).mono
    fun _ => plain_of_isLimit
  apply (alike_ofExcept hplain).bind
  rintro reversed _ W₁ _ rfl
  have hnumbers : W₁.Alike (reversed.reverse.mapM ofNumber) (reversed.reverse.mapM ofNumber)
      AllMatch := by
    refine alike_mapM (fun _ m n => m = n) (fun _ h => h) (fun hlater h => h.later hlater)
      ?_ (List.forall₂_same.2 fun _ _ => rfl)
    rintro n _ W rfl
    exact alike_ofNumber n
  exact hnumbers.bind fun _ _ _ _ hvs => alike_newList hvs

theorem alike_range (limit : Nat) (h : W.AllMatch args args') :
    W.Alike (Arithmetic.range limit args) (Arithmetic.range limit args') Matches := by
  have hnumbers := alike_numbers "range" h
  rcases h with _ | ⟨_, _ | ⟨_, _ | ⟨_, _ | ⟨_, hrest⟩⟩⟩⟩
  on_goal 1 => exact alike_stop trivial
  on_goal 4 =>
    simp only [Arithmetic.range, wrongCount, List.length_cons, hrest.length_eq]
    exact alike_stop trivial
  all_goals
    apply hnumbers.bind
    rintro ns _ W₁ _ rfl
    split
    on_goal 4 => exact alike_newList .nil
    all_goals exact alike_progression _ _ limit _

theorem alike_create (h : W.AllMatch args args') :
    W.Alike (Cell.create args) (Cell.create args') Matches :=
  (alike_single "atom" h).bind fun _ _ _ _ hv => alike_addContent hv

theorem alike_read {a b : Address} (hab : W.pairs .atom a b) :
    W.Alike (Cell.read a) (Cell.read b) Matches := by
  refine alike_of_agree fun hW => alike_get ?_
  obtain ⟨v, w, hv, hw, hvw⟩ := hW.place hab
  rw [hv, hw]
  exact alike_pure hvw

theorem alike_cellWrite {a b : Address} (hab : W.pairs .atom a b) (hvw : W.Matches v w) :
    W.Alike (Cell.write a v) (Cell.write b w) Matches :=
  (alike_setContent hab hvw).bind fun _ _ _ hlater _ => alike_pure (hvw.later hlater)

theorem alike_deref (h : W.AllMatch args args') :
    W.Alike (Cell.deref args) (Cell.deref args') Matches :=
  (alike_single "deref" h).bind fun _ _ _ _ hv =>
    (alike_address "deref" hv).bind fun _ _ _ _ hab => alike_read hab

theorem alike_reset (h : W.AllMatch args args') :
    W.Alike (Cell.reset args) (Cell.reset args') Matches := by
  apply (alike_double "reset!" h).bind
  rintro ⟨cell, value⟩ ⟨cell', value'⟩ W₁ _ ⟨hcell, hvalue⟩
  apply (alike_address "reset!" hcell).bind
  intro a b W₂ hW₂ hab
  exact alike_cellWrite hab (hvalue.later hW₂)

theorem alike_swap (hnested : NestedAlike root root' nested nested')
    (h : W.AllMatch args args') :
    W.Alike (Cell.swap nested args) (Cell.swap nested' args') Matches := by
  rcases h with _ | ⟨hcell, _ | ⟨hf, hextra⟩⟩
  · exact alike_stop trivial
  · exact alike_stop trivial
  · apply (alike_address "swap!" hcell).bind
    intro a b W₁ hW₁ hab
    apply (alike_read hab).bind
    intro content content' W₂ hW₂ hcontent
    have hargs := List.Forall₂.cons hcontent (AllMatch.later hextra (hW₁.trans hW₂))
    apply (hnested (.call (hf.later (hW₁.trans hW₂)) hargs)).bind
    intro v w W₃ hW₃ hv
    exact alike_cellWrite (hW₃.mono (hW₂.mono hab)) hv

theorem alike_index (h : W.Matches v w) :
    W.Alike (Sequence.index v) (Sequence.index w) Same := by
  unfold Sequence.index
  rw [h.number?_eq]
  split
  · apply (alike_ofHost _).bind
    rintro i _ W₁ hW₁ rfl
    split_ifs
    · exact alike_pure rfl
    · exact alike_refusal (fun shown => .primitive (.notIndex shown)) (fun _ => trivial)
        (h.later hW₁)
  · exact alike_refusal (fun shown => .primitive (.notIndex shown)) (fun _ => trivial) h

theorem getElem?_rel (h : W.AllMatch vs ws) (i : Nat) : Option.Rel W.Matches vs[i]? ws[i]? := by
  induction h generalizing i with
  | nil => exact .none
  | cons hv _ ih =>
    cases i with
    | zero => exact .some hv
    | succ i => simpa using ih i

theorem alike_nth (h : W.AllMatch args args') :
    W.Alike (Sequence.nth args) (Sequence.nth args') Matches := by
  apply (alike_double "nth" h).bind
  rintro ⟨xs, position⟩ ⟨xs', position'⟩ W₁ _ ⟨hxs, hposition⟩
  apply (alike_elements "nth" hxs).bind
  intro items items' W₂ hW₂ hitems
  apply (alike_index (hposition.later hW₂)).bind
  rintro i _ W₃ hW₃ rfl
  have hitem := getElem?_rel (AllMatch.later hitems hW₃) i.toNat
  generalize items[i.toNat]? = x, items'[i.toNat]? = y at hitem
  cases hitem with
  | none => exact alike_stop trivial
  | some hxy =>
    dsimp only
    split_ifs
    · exact alike_pure hxy
    · exact alike_stop trivial

theorem alike_first (h : W.AllMatch args args') :
    W.Alike (Sequence.first args) (Sequence.first args') Matches := by
  apply (alike_single "first" h).bind
  intro v w W₁ _ hv
  apply (alike_elements "first" hv).bind
  intro items items' W₂ _ hitems
  cases hitems with
  | nil => exact alike_pure .nil
  | cons hitem _ => exact alike_pure hitem

theorem alike_last (h : W.AllMatch args args') :
    W.Alike (Sequence.last args) (Sequence.last args') Matches := by
  apply (alike_single "last" h).bind
  intro v w W₁ _ hv
  apply (alike_elements "last" hv).bind
  intro items items' W₂ _ hitems
  have hlast : W₂.Matches (items.getLastD .nil) (items'.getLastD .nil) := by
    suffices ∀ {v w}, W₂.Matches v w → W₂.Matches (items.getLastD v) (items'.getLastD w) from
      this .nil
    induction hitems with
    | nil => exact fun h => h
    | cons hitem _ ih =>
      intro v w _
      rw [List.getLastD_cons, List.getLastD_cons]
      exact ih hitem
  exact alike_pure hlast

theorem alike_rest (h : W.AllMatch args args') :
    W.Alike (Sequence.rest args) (Sequence.rest args') Matches := by
  apply (alike_single "rest" h).bind
  intro v w W₁ _ hv
  apply (alike_elements "rest" hv).bind
  intro items items' W₂ _ hitems
  cases hitems with
  | nil => exact alike_newList .nil
  | cons _ hrest => exact alike_newList hrest

theorem alike_isEmpty (h : W.AllMatch args args') :
    W.Alike (Sequence.isEmpty args) (Sequence.isEmpty args') Matches := by
  apply (alike_single "empty?" h).bind
  intro v w W₁ _ hv
  apply (alike_elements "empty?" hv).bind
  intro items items' W₂ _ hitems
  rw [isEmpty_eq hitems]
  exact alike_pure (.bool _)

theorem alike_count (h : W.AllMatch args args') :
    W.Alike (Sequence.count args) (Sequence.count args') Matches := by
  apply (alike_single "count" h).bind
  intro v w W₁ _ hv
  have helements : W₁.Alike (do return .int (← elements "count" v).length)
      (do return .int (← elements "count" w).length) Matches := by
    apply (alike_elements "count" hv).bind
    intro items items' W₂ _ hitems
    rw [hitems.length_eq]
    exact alike_pure (.int _)
  cases hv with
  | str text => exact alike_pure (.int _)
  | map _ _ hlength =>
    dsimp only
    rw [hlength]
    exact alike_pure (.int _)
  | _ => exact helements

theorem alike_cons (h : W.AllMatch args args') :
    W.Alike (Sequence.cons args) (Sequence.cons args') Matches := by
  apply (alike_double "cons" h).bind
  rintro ⟨head, tail⟩ ⟨head', tail'⟩ W₁ _ ⟨hhead, htail⟩
  apply (alike_elements "cons" htail).bind
  intro items items' W₂ hW₂ hitems
  exact alike_newList (.cons (hhead.later hW₂) hitems)

theorem AllMatch.flatten {lists lists' : List (List Value)}
    (h : List.Forall₂ W.AllMatch lists lists') : W.AllMatch lists.flatten lists'.flatten := by
  induction h with
  | nil => exact .nil
  | cons hitems _ ih => exact List.rel_append hitems ih

theorem alike_concat (h : W.AllMatch args args') :
    W.Alike (Sequence.concat args) (Sequence.concat args') Matches := by
  have hlists : W.Alike (args.mapM (elements "concat")) (args'.mapM (elements "concat"))
      fun W' => List.Forall₂ W'.AllMatch :=
    alike_mapM Matches (fun hlater h => h.later hlater) (fun hlater h => h.later hlater)
      (alike_elements "concat") h
  exact hlists.bind fun _ _ _ _ hlists => alike_newList (AllMatch.flatten hlists)

theorem alike_concatenate (h : W.AllMatch args args') :
    W.Alike (TextFunction.concatenate args) (TextFunction.concatenate args') Matches := by
  apply (alike_printJoined .display "" h).bind
  rintro text _ W₁ _ rfl
  exact alike_pure (.str text)

theorem alike_writeLine (mode : PrintMode) (h : W.AllMatch args args') :
    W.Alike (TextFunction.writeLine mode args) (TextFunction.writeLine mode args') Matches := by
  apply (alike_printJoined mode " " h).bind
  rintro text _ W₁ _ rfl
  exact (alike_write (text ++ "\n")).bind fun _ _ _ _ _ => alike_pure .nil

theorem alike_symbol (h : W.AllMatch args args') :
    W.Alike (TextFunction.symbol args) (TextFunction.symbol args') Matches := by
  apply (alike_single "symbol" h).bind
  intro v w W₁ _ hv
  apply (alike_characters "symbol" hv).bind
  rintro text _ W₂ _ rfl
  exact alike_pure (.sym text)

theorem alike_keyword (h : W.AllMatch args args') :
    W.Alike (TextFunction.keyword args) (TextFunction.keyword args') Matches := by
  apply (alike_single "keyword" h).bind
  intro v w W₁ _ hv
  have hcharacters : W₁.Alike (do return .kw (← characters "keyword" v))
      (do return .kw (← characters "keyword" w)) Matches := by
    apply (alike_characters "keyword" hv).bind
    rintro text _ W₂ _ rfl
    exact alike_pure (.kw text)
  cases hv with
  | kw name => exact alike_pure (.kw name)
  | _ => exact hcharacters

theorem alike_readString (h : W.AllMatch args args') :
    W.Alike (TextFunction.read args) (TextFunction.read args') Matches := by
  apply (alike_single "read-string" h).bind
  intro v w W₁ _ hv
  apply (alike_characters "read-string" hv).bind
  rintro text _ W₂ _ rfl
  exact alike_readForm text

theorem alike_infoOf (h : W.AllMatch args args') :
    W.Alike (Metadata.infoOf args) (Metadata.infoOf args') Matches :=
  (alike_single "meta" h).bind fun _ _ _ _ hv => alike_pure hv.info

theorem withInfo?_rel (h : W.Matches v w) {i j : Identity} (hij : W.pairs .object i j)
    {info info' : Value} (hinfo : W.Matches info info') :
    Option.Rel W.Matches (v.withInfo? i info) (w.withInfo? j info') := by
  cases h with
  | list _ _ hlength hzip _ => exact .some (.list true hij hlength hzip hinfo)
  | vec _ hlength hzip _ => exact .some (.vec hij hlength hzip hinfo)
  | map _ _ hlength hkeys hvalues _ => exact .some (.map true hij hlength hkeys hvalues hinfo)
  | closure params isMacro _ hbody hscope _ =>
    exact .some (.closure params isMacro hij hbody hscope hinfo)
  | builtin f _ _ hroot _ => exact .some (.builtin f true hij hroot hinfo)
  | _ => exact .none

theorem alike_withInfo (h : W.AllMatch args args') :
    W.Alike (Metadata.withInfo args) (Metadata.withInfo args') Matches := by
  apply (alike_double "with-meta" h).bind
  rintro ⟨v, info⟩ ⟨w, info'⟩ W₁ _ ⟨hv, hinfo⟩
  apply alike_fresh.bind
  intro i j W₂ hW₂ hij
  have hmarked := withInfo?_rel (hv.later hW₂) hij (hinfo.later hW₂)
  generalize v.withInfo? i info = x, w.withInfo? j info' = y at hmarked
  cases hmarked with
  | some hxy => exact alike_pure hxy
  | none =>
    exact alike_refusal (fun shown => .primitive (.noMetadata shown)) (fun _ => trivial)
      (hv.later hW₂)

theorem foldl_rel (choose : Bool → Bool) (h : W.AllMatch vs ws) (hvw : W.Matches v w) :
    W.Matches (vs.foldl (fun found v => if choose found.isTruthy then found else v) v)
      (ws.foldl (fun found v => if choose found.isTruthy then found else v) w) := by
  induction h generalizing v w with
  | nil => exact hvw
  | cons hitem _ ih =>
    rw [List.foldl_cons, List.foldl_cons]
    apply ih
    rw [hvw.isTruthy_eq]
    split_ifs
    · exact hvw
    · exact hitem

theorem disjunction_rel (h : W.AllMatch args args') :
    W.Matches (Core.disjunction args) (Core.disjunction args') :=
  foldl_rel id h (.bool false)

theorem conjunction_rel (h : W.AllMatch args args') :
    W.Matches (Core.conjunction args) (Core.conjunction args') := by
  have hchoice : (fun found v : Value => if found.isTruthy then v else found) =
      fun found v => if !found.isTruthy then found else v := by
    funext found v
    cases found.isTruthy <;> rfl
  unfold Core.conjunction
  rw [hchoice]
  exact foldl_rel not h (.bool true)

theorem getLast_rel (h : W.AllMatch vs ws) (hvs : vs ≠ []) (hws : ws ≠ []) :
    W.Matches (vs.getLast hvs) (ws.getLast hws) := by
  induction h with
  | nil => exact absurd rfl hvs
  | cons hv hrest ih =>
    cases hrest with
    | nil => exact hv
    | cons hnext hrest =>
      rw [List.getLast_cons (List.cons_ne_nil _ _), List.getLast_cons (List.cons_ne_nil _ _)]
      exact ih _ _

theorem dropLast_rel (h : W.AllMatch vs ws) : W.AllMatch vs.dropLast ws.dropLast := by
  rw [List.dropLast_eq_take, List.dropLast_eq_take, h.length_eq]
  exact List.forall₂_take _ h

theorem alike_applySpread (hnested : NestedAlike root root' nested nested')
    (h : W.AllMatch args args') :
    W.Alike (Core.applySpread nested args) (Core.applySpread nested' args') Matches := by
  rcases h with _ | ⟨hf, _ | ⟨harg, hmore⟩⟩
  · exact alike_stop trivial
  · exact alike_stop trivial
  · have hargs := List.Forall₂.cons harg hmore
    apply (alike_elements "apply" (getLast_rel hargs (by simp) (by simp))).bind
    intro spread spread' W₁ hW₁ hspread
    exact hnested (.call (hf.later hW₁)
      (List.rel_append (AllMatch.later (dropLast_rel hargs) hW₁) hspread))

/-- Every core function runs alike on matching arguments. -/
theorem alike_core (hnested : NestedAlike root root' nested nested') (f : Core) (limit : Nat)
    (h : W.AllMatch args args') :
    W.Alike (f.run nested limit args) (f.run nested' limit args') Matches := by
  cases f with
  | raise => exact alike_raiseValue h
  | symbol => exact alike_symbol h
  | keyword => exact alike_keyword h
  | equal =>
    apply (alike_double "=" h).bind
    rintro ⟨a, b⟩ ⟨a', b'⟩ W₁ _ ⟨ha, hb⟩
    refine alike_of_agree fun hW₁ => ?_
    have hequal : a.equal b = a'.equal b' := ha.equal_eq hW₁ hb
    dsimp only
    rw [hequal]
    exact alike_pure (.bool _)
  | less | lessEqual | greater | greaterEqual => exact alike_compare _ _ h
  | or => exact alike_pure (disjunction_rel h)
  | and => exact alike_pure (conjunction_rel h)
  | add => exact alike_sum h
  | sub => exact alike_difference h
  | mul => exact alike_product h
  | div => exact alike_quotient h
  | list => exact alike_newList h
  | vector => exact alike_newVec h
  | nth => exact alike_nth h
  | first => exact alike_first h
  | rest => exact alike_rest h
  | last => exact alike_last h
  | isEmpty => exact alike_isEmpty h
  | count => exact alike_count h
  | apply => exact alike_applySpread hnested h
  | str => exact alike_concatenate h
  | prn => exact alike_writeLine .readable h
  | println => exact alike_writeLine .display h
  | readString => exact alike_readString h
  | cons => exact alike_cons h
  | concat => exact alike_concat h
  | metaOf => exact alike_infoOf h
  | withMeta => exact alike_withInfo h
  | atom => exact alike_create h
  | deref => exact alike_deref h
  | reset => exact alike_reset h
  | swap => exact alike_swap hnested h
  | range => exact alike_range limit h
  | isNumber => exact alike_test _ (fun hv => congrArg Option.isSome hv.number?_eq) h
  | isNil | isTrue | isFalse | isString | isSymbol | isKeyword | isFn | isMacro | isList
  | isVector | isMap | isAtom => exact alike_test _ (fun hv => by cases hv <;> rfl) h

end SmallLisp.World
