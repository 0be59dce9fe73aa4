import Mathlib.Tactic
import SmallLisp.Proofs.Eval.Meaning
import SmallLisp.Proofs.Interpreter.Reachable
import SmallLisp.Proofs.Value.AtomCycle

/-!
# Values that can be printed

An atom is made after all that it then holds, so that there is no way back from its content. Only
`reset!` and `swap!` can close one. Wherever an interpreter comes to, printing a value ends unless
there is an atom on its way that leads back to itself, and where neither of the two has been applied
there is none.
-/

namespace SmallLisp

open Eval Relation

def Job.Rewrites : Job → Prop
  | .call (.builtin (.core .reset) _ _ _) _ => True
  | .call (.builtin (.core .swap) _ _ _) _ => True
  | _ => False

/-- A job that comes to no call of `reset!` or `swap!`. -/
def Job.Spares (job : Job) (s : Store) : Prop :=
  ∀ job' s', job.Involves s job' s' → ¬ job'.Rewrites

theorem Job.Spares.begins {job job' : Job} {s s' : Store} (h : job.Spares s)
    (hbegins : job.Begins s job' s') : job'.Spares s' := by
  intro job'' s'' hinvolves
  rcases hbegins with hstarts | hguards
  · exact h _ _ (.starts hstarts hinvolves)
  · exact h _ _ (.guards hguards hinvolves)

def Eval.withoutWrites : Meaning
  | .core .reset => fun _ _ _ => return .nil
  | .core .swap => fun _ _ _ => return .nil
  | f => runBuiltin f

theorem Eval.passWith_withoutWrites {job : Job} (h : ¬ job.Rewrites) (nested : Nested)
    (limit : ℕ) : passWith withoutWrites nested limit job = pass nested limit job := by
  cases job with
  | eval form scope => rfl
  | expand form scope => rfl
  | call f args =>
    cases f with
    | builtin f wrapped id info =>
      cases f with
      | core f =>
        cases f with
        | reset => exact absurd trivial h
        | swap => exact absurd trivial h
        | _ => rfl
      | numeric f => rfl
      | eval => rfl
    | _ => rfl

/-- What a host may make of given values: no atom, and a pair of numbers only. -/
def Value.Buildable (v : Value) : Prop := (∀ a, v ≠ .atom a) ∧ v.PairsNumbers

/-- The content of every atom refers to older atoms only. -/
def Store.Ordered (s : Store) : Prop :=
  ∀ root a b v, s.content? a = some v → v.Refers root .atom b → b < a

namespace Discipline

/-- Nothing is asked but that atoms are in use and that pairs are pairs of numbers. -/
def locating : Discipline where
  __ := placing
  address count a := a < count
  params := ⊤
  pairs first second := first.number?.isSome ∧ second.number?.isSome
  address_mono hle h := h.trans_le hle
  address_succ h := Nat.lt_succ_iff_lt_or_eq.1 h
  address_new _ := Nat.lt_succ_self _
  params_ok _ := trivial
  pairs_ok hfirst hsecond := ⟨hfirst, hsecond⟩
  addContent _ := ⟨le_rfl, by simp⟩

instance : locating.Rewriting := ⟨fun _ _ => ⟨le_rfl, Store.size_setContent.ge⟩⟩

/-- It is asked besides that contents refer to older atoms only. -/
def ordering : Discipline where
  __ := locating
  later s s' := locating.later s s' ∧ (s.Ordered → s'.Ordered)
  refl s := ⟨locating.refl s, id⟩
  trans h h' := ⟨locating.trans h.1 h'.1, fun hs => h'.2 (h.2 hs)⟩
  scopes_le h := h.1.1
  contents_le h := h.1.2
  identity s next := ⟨locating.identity s next, id⟩
  write s text := ⟨locating.write s text, id⟩
  record s logger message := by
    refine ⟨locating.record s logger message, ?_⟩
    unfold Store.record
    split_ifs <;> exact id
  bind hscope name value := ⟨locating.bind hscope name value, id⟩
  addScope houter name := ⟨locating.addScope houter name, id⟩
  addContent {s value} hrefers := by
    refine ⟨locating.addContent hrefers, fun hs root a b v ha hb => ?_⟩
    rw [Store.content?_addContent] at ha
    split_ifs at ha with hnew
    · obtain rfl := Option.some.inj ha
      exact hnew ▸ hrefers root b hb
    · exact hs root a b v ha hb

theorem holds_of_buildable {D : Discipline} {s : Store} {v : Value}
    (hentries : ∀ entries, D.entries entries) (hparams : ∀ params, D.params params)
    (hcaptured : ∀ count id, D.captured count id) (hv : v.Buildable)
    (hparts : ∀ p ∈ v.parts, D.Holds s p) : D.Holds s v := by
  refine holds_of_parts (fun a ha => absurd ha (hv.1 a)) (fun _ _ _ _ _ => hentries _) ?_
    (fun _ _ _ _ _ _ _ => ⟨hparams _, hcaptured _ _⟩) hparts
  intro id first second hpair
  obtain ⟨hfirst, hsecond⟩ := hv.2 id first second hpair
  exact D.pairs_ok hfirst hsecond

/-- Programs that write no atom keep the order. -/
theorem runsKeep_ordering : ordering.RunsKeep fun job s => job.Spares s := by
  have hmeaning : ordering.MeaningKeeps withoutWrites := by
    intro f nested limit s args hnested hargs
    have hnil : ordering.Keeps s (pure .nil) ordering.Holds := keeps_pure .nil
    by_cases hwrites : f = .core .reset ∨ f = .core .swap
    · rcases hwrites with rfl | rfl
      · exact hnil
      · exact hnil
    · have hsame : withoutWrites f = runBuiltin f := by
        unfold withoutWrites
        split
        · exact absurd (.inl rfl) hwrites
        · exact absurd (.inr rfl) hwrites
        · rfl
      rw [hsame]
      exact keeps_runBuiltin f (fun _ _ => trivial) (fun h => absurd h hwrites) hnested limit hargs
  refine runsKeep_of_pass (fun h hbegins => h.begins hbegins) fun hspares hnested hjob => ?_
  rw [← passWith_withoutWrites (hspares _ _ .refl)]
  exact keeps_passWith hnested hmeaning _ hjob

theorem holds_of_steps {s : Store} {v w : Value} (hgood : locating.Good s)
    (hv : locating.Holds s v) (hw : ReflTransGen s.Steps v w) : locating.Holds s w := by
  induction hw with
  | refl => exact hv
  | tail _ hstep ih =>
    cases hstep with
    | entry hentry => exact ih.part (Value.mem_parts_of_mem_printed hentry)
    | content hcontent =>
      cases ih with
      | atom ha => exact hgood.content ha hcontent

/-- What can be come across can be printed but for atoms inside themselves. -/
theorem grounded {s : Store} {v : Value} (hgood : locating.Good s) (hv : locating.Holds s v) :
    s.Grounded v := by
  intro w hw
  have hholds := holds_of_steps hgood hv hw
  constructor
  · rintro a rfl
    cases hholds with
    | atom ha =>
      have hcontent : s.content? a = some s.contents[a] := Array.getElem?_eq_getElem ha
      exact Option.isSome_iff_exists.2 ⟨_, hcontent⟩
  · rintro id first second rfl
    cases hholds with
    | pair _ _ hpairs => exact hpairs

end Discipline

namespace Store

variable {s : Store} {v w : Value} {a : Address}

/-- All that an atom leads to refers to older atoms only. -/
theorem Ordered.lt_of_steps (hs : s.Ordered) (h : TransGen s.Steps (.atom a) v) {root : ScopeId}
    {b : Address} (hb : v.Refers root .atom b) : b < a := by
  induction h generalizing b with
  | single hstep =>
    cases hstep with
    | entry hentry => cases hentry
    | content hcontent => exact hs _ _ _ _ hcontent hb
  | tail _ hstep ih =>
    cases hstep with
    | entry hentry => exact ih (.part (Value.mem_parts_of_mem_printed hentry) hb)
    | @content c _ hcontent =>
      have hc : c < a := ih (.here (List.mem_singleton_self (Kind.atom, c)))
      exact (hs _ _ _ _ hcontent hb).trans hc

theorem Ordered.atomAcyclic (hs : s.Ordered) (v : Value) : s.AtomAcyclic v := by
  intro a _ hcycle
  have hrefers : (Value.atom a).Refers rootScope .atom a :=
    .here (List.mem_singleton_self (Kind.atom, a))
  exact (hs.lt_of_steps hcycle hrefers).false

end Store

namespace Store

variable {s : Store} {a : Address}

theorem not_atomAcyclic_of_self (h : s.content? a = some (.atom a)) :
    ¬ s.AtomAcyclic (.atom a) :=
  fun hacyclic => hacyclic a .refl (.single (.content h))

theorem not_hasLongInteger_of_self (h : s.content? a = some (.atom a)) :
    ¬ s.HasLongInteger (.atom a) := by
  generalize hv : Value.atom a = v
  intro hlong
  induction hlong with
  | content hcontent _ ih =>
    obtain rfl := Value.atom.inj hv
    exact ih (Option.some.inj (h.symm.trans hcontent))
  | _ => cases hv

end Store

variable {logLevel : ℕ} {s : Store} {vs : List Value} {v : Value}

theorem Reachable.grounded (h : Reachable ⊤ Value.Buildable logLevel s vs)
    (hpresent : Present s vs v) : s.Grounded v := by
  obtain ⟨hgood, hheld⟩ := h.good (D := Discipline.locating) (fun _ _ => trivial) rfl rfl
    Discipline.later_placing
    (Discipline.holds_of_buildable (fun _ => trivial) (fun _ => trivial) fun _ _ => trivial)
  exact Discipline.grounded hgood
    (hpresent.holds hgood hheld (fun _ _ _ => trivial) fun _ _ hlt => hlt)

theorem ordered_create (logLevel : ℕ) : (Interpreter.create logLevel).Ordered := by
  have hnew := Interpreter.new_settlement logLevel 1
  rw [Interpreter.settlement_one] at hnew
  intro root a b v ha
  rw [hnew.content] at ha
  cases ha

/-- Programs that write no atom leave contents that refer to older atoms only. -/
theorem Reachable.ordered (h : Reachable Job.Spares Value.Buildable logLevel s vs) :
    s.Ordered := by
  have hbeside {s s' : Store} (hcontents : s'.contents = s.contents) (hs : s.Ordered) :
      s'.Ordered := by
    intro root a b v ha
    unfold Store.content? at ha
    rw [hcontents] at ha
    exact hs root a b v ha
  obtain ⟨-, -, -, hlater⟩ := h.good_of_runsKeep (D := Discipline.ordering)
    (fun _ _ => trivial) rfl rfl
    (fun hscopes hcontents => ⟨Discipline.later_placing hscopes hcontents, hbeside hcontents⟩)
    (Discipline.holds_of_buildable (fun _ => trivial) (fun _ => trivial) fun _ _ => trivial)
    (fun h hbegins => h.begins hbegins) Discipline.runsKeep_ordering
  exact hlater (ordered_create logLevel)

/-- Wherever an interpreter comes to, in both modes of printing, a value without integers of too
many digits has a text exactly when no atom that can be reached from it through the entries of
collections and the contents of atoms reaches itself in the same way. Otherwise printing it exhausts
the stack, however deep atoms are followed. Where only programs have been evaluated that come to no
call of `reset!` or `swap!`, printing a value never exhausts the stack, and without such integers it
has a text. -/
theorem printing_ends_iff_acyclic :
    (∀ {logLevel : ℕ} {s : Store} {vs : List Value} {v : Value} (mode : PrintMode),
      Reachable ⊤ Value.Buildable logLevel s vs → Present s vs v → ¬ s.HasLongInteger v →
      ((∃ text, s.print mode v = .ok text) ↔ s.AtomAcyclic v) ∧
      (¬ s.AtomAcyclic v → s.print mode v = .error .stackExhausted ∧
        ∀ depth, s.printFrom mode depth v = .error .stackExhausted)) ∧
    ∀ {logLevel : ℕ} {s : Store} {vs : List Value} {v : Value} (mode : PrintMode),
      Reachable Job.Spares Value.Buildable logLevel s vs → Present s vs v →
      s.print mode v ≠ .error .stackExhausted ∧
        (¬ s.HasLongInteger v → ∃ text, s.print mode v = .ok text) := by
  constructor
  · intro logLevel s vs v mode h hpresent hshort
    have hground := h.grounded hpresent
    have hexhausted (hcycle : ¬ s.AtomAcyclic v) (depth : ℕ) :
        s.printFrom mode depth v = .error .stackExhausted :=
      Store.printFrom_eq_stackExhausted hshort hcycle mode depth
    refine ⟨⟨?_, ?_⟩, fun hcycle => ⟨hexhausted hcycle _, hexhausted hcycle⟩⟩
    · rintro ⟨text, htext⟩
      exact Store.Prints.atomAcyclic ⟨text, htext⟩
    · exact fun hacyclic => Store.exists_text hground hshort hacyclic mode
  · intro logLevel s vs v mode h hpresent
    have hground := (h.mono le_top).grounded hpresent
    have hacyclic := h.ordered.atomAcyclic v
    exact ⟨Store.print_ne_stackExhausted hground hacyclic mode,
      fun hshort => Store.exists_text hground hshort hacyclic mode⟩

/-- An atom that is made of a number, before and after it is put into itself. -/
theorem printing_ends_iff_acyclic_self :
    (∃ s vs, Reachable Job.Spares Value.Buildable 40 s vs ∧
      Present s vs (.atom 0) ∧ s.print .readable (.atom 0) ≠ .error .stackExhausted) ∧
    ∃ s vs, Reachable ⊤ Value.Buildable 40 s vs ∧ Present s vs (.atom 0) ∧
      ¬ s.HasLongInteger (.atom 0) ∧ s.print .readable (.atom 0) = .error .stackExhausted := by
  have hnil {vs : List Value} : Composed Value.Buildable vs .nil :=
    .made ⟨nofun, nofun⟩ (List.forall_mem_nil _)
  have hbuiltin {vs : List Value} (f : Builtin) :
      Composed Value.Buildable vs (.builtin f false 0 .nil) :=
    .made ⟨nofun, nofun⟩ (List.forall_mem_singleton.2 hnil)
  have hspares (s : Store) : (Job.call (.builtin (.core .atom) false 0 .nil) [.nil]).Spares s := by
    intro job' s' hinvolves
    cases hinvolves with
    | refl => exact id
    | starts hstarts _ => cases hstarts
    | guards hguards _ => cases hguards
  have hvalues {f : Value} {args vs : List Value} (h : ∀ v ∈ args, v ∈ vs) :
      ∀ v ∈ (Job.call f args).values, v ∈ f :: vs :=
    List.forall_mem_cons.2 ⟨List.mem_cons_self, fun v hv => List.mem_cons_of_mem _ (h v hv)⟩
  have hmake := (@Reachable.create Job.Spares Value.Buildable 40).compose
    hnil |>.compose (hbuiltin (.core .atom))
  obtain ⟨s, vs, hreach, hmem, hsize⟩ : ∃ s vs,
      Reachable Job.Spares Value.Buildable 40 s vs ∧ .atom 0 ∈ vs ∧
        s.contents.size = 1 :=
    ⟨_, _, hmake.after 1 0 (hvalues fun _ h => h) (hspares _), List.mem_cons_self, rfl⟩
  refine ⟨⟨s, vs, hreach, .held hmem, ?_⟩, ?_⟩
  · exact (printing_ends_iff_acyclic.2 .readable hreach (.held hmem)).1
  · have hput := (hreach.mono le_top).compose (hbuiltin (.core .reset))
    have hargs : ∀ v ∈ [Value.atom 0, .atom 0], v ∈ vs := by simpa using hmem
    have hwritten : (s.setContent 0 (.atom 0)).content? 0 = some (.atom 0) :=
      Store.content?_setContent_self (hsize ▸ Nat.one_pos)
    obtain ⟨s', vs', hreach', hmem', hself⟩ : ∃ s' vs', Reachable ⊤ Value.Buildable 40 s' vs' ∧
        .atom 0 ∈ vs' ∧ s'.content? 0 = some (.atom 0) :=
      ⟨_, _, hput.after 1 0 (hvalues hargs) trivial, List.mem_cons_self, hwritten⟩
    have hshort := Store.not_hasLongInteger_of_self hself
    have hends := printing_ends_iff_acyclic.1 .readable hreach' (.held hmem') hshort
    exact ⟨s', vs', hreach', .held hmem', hshort, (hends.2 (Store.not_atomAcyclic_of_self hself)).1⟩

end SmallLisp
