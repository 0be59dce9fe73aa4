import Mathlib.Tactic
import SmallLisp.Proofs.Discipline.Parts
import SmallLisp.Proofs.Eval.Parameters
import SmallLisp.Proofs.Eval.TailContext
import SmallLisp.Proofs.Interpreter.Newcomer
import SmallLisp.Proofs.Interpreter.Sequence
import SmallLisp.Proofs.Interpreter.TailLoop

/-!
# What an interpreter comes to

A host makes an interpreter, holds values, puts them together, binds them and has them evaluated.
All stores that this leads to are described, those in the middle of an evaluation included. The only
closures in them are those that programs have made, and these have well-placed rest marks, because
`fn` and `defmacro` refuse all others and nothing changes the parameters of a closure.
-/

namespace SmallLisp

open Eval

def Job.values : Job → List Value
  | .eval form _ => [form]
  | .expand form _ => [form]
  | .call f args => f :: args

def Value.isClosure : Value → Bool
  | .closure .. => true
  | _ => false

/-- The values that a new interpreter binds: numbers, and builtins without metadata. -/
def Value.isElementary : Value → Bool
  | .builtin _ _ _ .nil | .float _ | .nan _ => true
  | _ => false

/-- A value that is put together from given values in ways that a property allows. -/
inductive Composed (makes : Value → Prop) (vs : List Value) : Value → Prop
  | given {v : Value} : v ∈ vs → Composed makes vs v
  | made {v : Value} : makes v → (∀ p ∈ v.parts, Composed makes vs p) → Composed makes vs v

/-- The stores that the use of an interpreter leads to, with the values that the host holds then. In
the middle of an evaluation these are also the values that a started job works on. One property says
which jobs the host has done, and another one in which ways it makes values itself, besides reading
data from texts. Identities, output and log may change at any time. -/
inductive Reachable (programs : Job → Store → Prop) (makes : Value → Prop) (logLevel : Nat) :
    Store → List Value → Prop
  | create : Reachable programs makes logLevel (Interpreter.create logLevel) []
  | read {s s' : Store} {vs : List Value} {d : Datum} {v : Value} :
      Reachable programs makes logLevel s vs → d.Readable → ofDatum d s = .ok v s' →
      Reachable programs makes logLevel s' (v :: vs)
  | compose {s : Store} {vs : List Value} {v : Value} :
      Reachable programs makes logLevel s vs → Composed makes vs v →
      Reachable programs makes logLevel s (v :: vs)
  | atom {s : Store} {vs : List Value} {v : Value} :
      Reachable programs makes logLevel s vs → v ∈ vs →
      Reachable programs makes logLevel (s.addContent v).2 vs
  | bind {s : Store} {vs : List Value} {v : Value} (scope : ScopeId) (name : String) :
      Reachable programs makes logLevel s vs → v ∈ vs →
      Reachable programs makes logLevel (s.bind scope name v) vs
  | child {s : Store} {vs : List Value} (name : String) :
      Reachable programs makes logLevel s vs →
      Reachable programs makes logLevel (s.addScope (some rootScope) name).2 vs
  | beside {s s' : Store} {vs : List Value} :
      Reachable programs makes logLevel s vs → s'.scopes = s.scopes → s'.contents = s.contents →
      Reachable programs makes logLevel s' vs
  | during {s s' : Store} {vs : List Value} {job job' : Job} :
      Reachable programs makes logLevel s vs → (∀ v ∈ job.values, v ∈ vs) → programs job s →
      job.Involves s job' s' → Reachable programs makes logLevel s' (job'.values ++ vs)
  | after {s : Store} {vs : List Value} {job : Job} (passes room : Nat) :
      Reachable programs makes logLevel s vs → (∀ v ∈ job.values, v ∈ vs) → programs job s →
      Reachable programs makes logLevel ((run passes room job).after s)
        (((run passes room job).carried? s).toList ++ vs)

/-- Where less is allowed, nothing else is reached. -/
theorem Reachable.mono {programs programs' : Job → Store → Prop} {makes : Value → Prop}
    (hprograms : programs ≤ programs') {logLevel : Nat} {s : Store} {vs : List Value}
    (h : Reachable programs makes logLevel s vs) :
    Reachable programs' makes logLevel s vs := by
  induction h with
  | create => exact .create
  | read _ hd hread ih => exact ih.read hd hread
  | compose _ hv ih => exact ih.compose hv
  | atom _ hv ih => exact ih.atom hv
  | bind scope name _ hv ih => exact ih.bind scope name hv
  | child name _ ih => exact ih.child name
  | beside _ hscopes hcontents ih => exact ih.beside hscopes hcontents
  | during _ hvalues hprogram hinvolves ih =>
    exact ih.during hvalues (hprograms _ _ hprogram) hinvolves
  | after passes room _ hvalues hprogram ih =>
    exact ih.after passes room hvalues (hprograms _ _ hprogram)

/-- A value that can be come across: the host holds it, a scope binds it, an atom contains it or it
is part of such a value. -/
inductive Present (s : Store) (vs : List Value) : Value → Prop
  | held {v : Value} : v ∈ vs → Present s vs v
  | bound {id : ScopeId} {name : String} {v : Value} : s.own? id name = some v → Present s vs v
  | content {a : Address} {v : Value} : s.content? a = some v → Present s vs v
  | part {v p : Value} : Present s vs v → p ∈ v.parts → Present s vs p

namespace Discipline

/-- Nothing is asked but that closures have well-placed rest marks. -/
def placing : Discipline where
  later s s' := s.scopes.size ≤ s'.scopes.size ∧ s.contents.size ≤ s'.contents.size
  captured := ⊤
  current := ⊤
  address := ⊤
  params := PlacesRest
  entries := ⊤
  pairs := ⊤
  scopeCount := 0
  atomCount := 0
  refl s := ⟨le_rfl, le_rfl⟩
  trans h h' := ⟨h.1.trans h'.1, h.2.trans h'.2⟩
  scopes_le h := h.1
  contents_le h := h.2
  captured_mono _ _ := trivial
  captured_succ _ := .inl trivial
  current_mono _ _ := trivial
  current_new _ := trivial
  captured_of_current _ := trivial
  address_mono _ _ := trivial
  address_succ _ := .inl trivial
  address_new _ := trivial
  params_ok := SpecialForm.restMarkPlaced_iff.1
  entries_ok _ _ := trivial
  pairs_ok _ _ := trivial
  identity s next := ⟨le_rfl, le_rfl⟩
  write s text := ⟨le_rfl, le_rfl⟩
  record s logger message := by
    unfold Store.record
    split_ifs <;> exact ⟨le_rfl, le_rfl⟩
  bind _ name value := ⟨Store.size_bind.ge, le_rfl⟩
  addScope _ name := ⟨by simp, le_rfl⟩
  addContent _ := ⟨le_rfl, by simp⟩

instance : placing.Rewriting := ⟨fun _ _ => ⟨le_rfl, Store.size_setContent.ge⟩⟩

variable {D : Discipline} {s s' : Store} {vs : List Value} {v : Value}

theorem later_placing (hscopes : s'.scopes = s.scopes) (hcontents : s'.contents = s.contents) :
    placing.later s s' :=
  ⟨(congrArg Array.size hscopes).ge, (congrArg Array.size hcontents).ge⟩

/-- A value is allowed when its parts are, if what it says itself is. -/
theorem holds_of_parts (haddress : ∀ a, v = .atom a → D.address s.contents.size a)
    (hentries : ∀ id entries marked info, v = .map id entries marked info → D.entries entries)
    (hpairs : ∀ id first second, v = .pair id first second → D.pairs first second)
    (hclosure : ∀ id params body scope isMacro info,
      v = .closure id params body scope isMacro info →
        D.params params ∧ D.captured s.scopes.size scope)
    (hparts : ∀ p ∈ v.parts, D.Holds s p) : D.Holds s v := by
  cases v with
  | nil => exact .nil
  | bool b => exact .bool b
  | int n => exact .int n
  | float x => exact .float x
  | nan id => exact .nan id
  | str text => exact .str text
  | sym name => exact .sym name
  | kw name => exact .kw name
  | list id items marked info =>
    have hparts := List.forall_mem_cons.1 hparts
    exact .list hparts.2 hparts.1
  | vec id items info =>
    have hparts := List.forall_mem_cons.1 hparts
    exact .vec hparts.2 hparts.1
  | map id entries marked info =>
    obtain ⟨hinfo, hboth⟩ := List.forall_mem_cons.1 hparts
    obtain ⟨hkeys, hvalues⟩ := List.forall_mem_append.1 hboth
    exact .map (List.forall_mem_map.1 hkeys) (List.forall_mem_map.1 hvalues)
      (hentries _ _ _ _ rfl) hinfo
  | pair id first second =>
    obtain ⟨hfirst, hsecond⟩ := List.forall_mem_cons.1 hparts
    exact .pair hfirst (List.forall_mem_singleton.1 hsecond) (hpairs _ _ _ rfl)
  | atom a => exact .atom (haddress a rfl)
  | closure id params body scope isMacro info =>
    obtain ⟨hparams, hscope⟩ := hclosure _ _ _ _ _ _ rfl
    obtain ⟨hinfo, hbody⟩ := List.forall_mem_cons.1 hparts
    exact .closure hparams (List.forall_mem_singleton.1 hbody) hscope hinfo
  | builtin f wrapped id info => exact .builtin (List.forall_mem_singleton.1 hparts)

theorem holds_of_isElementary (h : v.isElementary = true) : D.Holds s v := by
  unfold Value.isElementary at h
  split at h
  · exact .builtin .nil
  · exact .float _
  · exact .nan _
  · cases h

/-- A new interpreter binds builtins and numbers. -/
theorem good_create (hscopes : D.scopeCount = 0) (hatoms : D.atomCount = 0) (logLevel : Nat) :
    D.Good (Interpreter.create logLevel) := by
  have hnew := Interpreter.new_settlement logLevel 1
  rw [Interpreter.settlement_one] at hnew
  have helementary : ∀ entry ∈ newRoot, entry.2.isElementary = true := by decide
  constructor
  · intro id name v _ hv
    obtain ⟨scope, hscope, hbinding⟩ := Option.bind_eq_some_iff.1 hv
    unfold Store.scope? at hscope
    rw [scopes_create] at hscope
    obtain rfl := List.mem_singleton.1 (Array.mem_toList_iff.2 (Array.mem_of_getElem? hscope))
    exact holds_of_isElementary (helementary _ (Bindings.mem_of_get? hbinding))
  · intro id outer scope _ hscope houter
    rw [hnew.outer hscope] at houter
    cases houter
  · intro a v _ hv
    rw [hnew.content] at hv
    cases hv
  · exact hscopes ▸ Nat.zero_le _
  · exact hatoms ▸ Nat.zero_le _

theorem jobHolds_of_values (hcurrent : ∀ count id, D.current count id) {job : Job}
    (h : D.AllHold s job.values) : D.JobHolds s job := by
  cases job with
  | eval form scope => exact ⟨List.forall_mem_singleton.1 h, hcurrent _ _⟩
  | expand form scope => exact ⟨List.forall_mem_singleton.1 h, hcurrent _ _⟩
  | call f args => exact List.forall_mem_cons.1 h

theorem allHold_values {job : Job} (h : D.JobHolds s job) : D.AllHold s job.values := by
  cases job with
  | eval form scope => exact List.forall_mem_singleton.2 h.1
  | expand form scope => exact List.forall_mem_singleton.2 h.1
  | call f args => exact List.forall_mem_cons.2 h

theorem Kept.carried {x : Eval Value} (h : D.Kept s D.Holds (x s)) :
    D.Good (x.after s) ∧ D.later s (x.after s) ∧
      D.AllHold (x.after s) (x.carried? s).toList := by
  unfold Eval.after Eval.carried?
  cases hx : x s with
  | ok v s' =>
    rw [hx] at h
    exact ⟨h.1, h.2.1, List.forall_mem_singleton.2 h.2.2⟩
  | error stop s' =>
    rw [hx] at h
    refine ⟨h.1, h.2.1, ?_⟩
    rcases stop with cause | _ | _ | _
    · cases cause with
      | raised v shown => exact List.forall_mem_singleton.2 h.2.2
      | _ => exact List.forall_mem_nil _
    all_goals exact List.forall_mem_nil _

end Discipline

open Discipline

variable {logLevel : Nat} {s s' : Store} {vs : List Value} {v : Value}

/-- What is put together from values that may be come across may be come across. -/
theorem Composed.holds {D : Discipline} {makes : Value → Prop}
    (hmakes : ∀ {s v}, makes v → (∀ p ∈ v.parts, D.Holds s p) → D.Holds s v)
    (hvs : D.AllHold s vs) (h : Composed makes vs v) : D.Holds s v := by
  induction h with
  | given hv => exact hvs _ hv
  | made hmade _ ih => exact hmakes hmade ih

/-- Wherever an interpreter comes to, a discipline is kept that allows all scopes, if the host and
the programs keep it. -/
theorem Reachable.good_of_runsKeep {programs : Job → Store → Prop} {makes : Value → Prop}
    {D : Discipline} (hcurrent : ∀ count id, D.current count id) (hscopes : D.scopeCount = 0)
    (hatoms : D.atomCount = 0)
    (hbeside : ∀ {s s' : Store}, s'.scopes = s.scopes → s'.contents = s.contents → D.later s s')
    (hmakes : ∀ {s v}, makes v → (∀ p ∈ v.parts, D.Holds s p) → D.Holds s v)
    (hbegins : ∀ {job s job' s'}, programs job s → job.Begins s job' s' → programs job' s')
    (hruns : D.RunsKeep programs) (h : Reachable programs makes logLevel s vs) :
    D.Good s ∧ D.AllHold s vs ∧ D.later (Interpreter.create logLevel) s := by
  induction h with
  | create => exact ⟨good_create hscopes hatoms logLevel, List.forall_mem_nil _, D.refl _⟩
  | read _ hd hread ih =>
    obtain ⟨hgood, hheld, hpast⟩ := ih
    have hkept := keeps_ofDatum hd hgood
    rw [hread] at hkept
    obtain ⟨hgood, hlater, hv⟩ := hkept
    exact ⟨hgood, List.forall_mem_cons.2 ⟨hv, hheld.later hlater⟩, D.trans hpast hlater⟩
  | compose _ hv ih =>
    obtain ⟨hgood, hheld, hpast⟩ := ih
    exact ⟨hgood, List.forall_mem_cons.2 ⟨hv.holds hmakes hheld, hheld⟩, hpast⟩
  | @atom s vs v _ hv ih =>
    obtain ⟨hgood, hheld, hpast⟩ := ih
    have hlater := (hheld v hv).later_addContent
    exact ⟨hgood.addContent (hheld v hv), hheld.later hlater, D.trans hpast hlater⟩
  | @bind s vs v scope name _ hv ih =>
    obtain ⟨hgood, hheld, hpast⟩ := ih
    have hscope := hcurrent s.scopes.size scope
    have hlater := D.bind hscope name v
    exact ⟨hgood.bind hscope (hheld v hv) name, hheld.later hlater, D.trans hpast hlater⟩
  | @child s vs name _ ih =>
    obtain ⟨hgood, hheld, hpast⟩ := ih
    have hroot := D.captured_of_current (hcurrent s.scopes.size rootScope)
    have hlater := D.addScope hroot name
    exact ⟨hgood.addScope hroot name, hheld.later hlater, D.trans hpast hlater⟩
  | beside _ hscopes hcontents ih =>
    obtain ⟨hgood, hheld, hpast⟩ := ih
    have hlater := hbeside hscopes hcontents
    exact ⟨hgood.congr hlater hscopes hcontents, hheld.later hlater, D.trans hpast hlater⟩
  | during _ hvalues hprogram hinvolves ih =>
    obtain ⟨hgood, hheld, hpast⟩ := ih
    have hjob := jobHolds_of_values hcurrent fun v hv => hheld v (hvalues v hv)
    have hcomes :=
      comes_of_involves (fun _ => hcurrent _ _) hbegins hruns hprogram hgood hjob hinvolves
    have hlater := hcomes.later
    exact ⟨hcomes.good, List.forall_mem_append.2 ⟨allHold_values hcomes.job, hheld.later hlater⟩,
      D.trans hpast hlater⟩
  | @after s vs job passes room _ hvalues hprogram ih =>
    obtain ⟨hgood, hheld, hpast⟩ := ih
    have hjob := jobHolds_of_values hcurrent fun v hv => hheld v (hvalues v hv)
    have hkept := hruns passes room s job hprogram hjob hgood
    obtain ⟨hgood, hlater, hcarried⟩ := hkept.carried
    exact ⟨hgood, List.forall_mem_append.2 ⟨hcarried, hheld.later hlater⟩, D.trans hpast hlater⟩

/-- All programs keep a discipline that allows all scopes. -/
theorem Reachable.good {makes : Value → Prop} {D : Discipline} [D.Rewriting]
    (hcurrent : ∀ count id, D.current count id) (hscopes : D.scopeCount = 0)
    (hatoms : D.atomCount = 0)
    (hbeside : ∀ {s s' : Store}, s'.scopes = s.scopes → s'.contents = s.contents → D.later s s')
    (hmakes : ∀ {s v}, makes v → (∀ p ∈ v.parts, D.Holds s p) → D.Holds s v)
    (h : Reachable ⊤ makes logLevel s vs) : D.Good s ∧ D.AllHold s vs := by
  obtain ⟨hgood, hheld, -⟩ := h.good_of_runsKeep hcurrent hscopes hatoms hbeside hmakes
    (fun _ _ => trivial) (runsKeep_all fun _ => hcurrent _ _)
  exact ⟨hgood, hheld⟩

theorem Reachable.good_placing (h : Reachable ⊤ (·.isClosure = false) logLevel s vs) :
    placing.Good s ∧ placing.AllHold s vs :=
  h.good (fun _ _ => trivial) rfl rfl later_placing fun {s v} hclosure =>
    holds_of_parts (fun _ _ => trivial) (fun _ _ _ _ _ => trivial) (fun _ _ _ _ => trivial)
      fun _ _ _ _ _ _ hv => by
      subst hv
      cases hclosure

/-- A computation leads to a store that can be reached, where the host holds what it returned or
raised. -/
def Leads (makes : Value → Prop) (logLevel : Nat) (x : Eval Value) (s : Store) : Prop :=
  ∃ ws, Reachable ⊤ makes logLevel (x.after s) ws ∧ ∀ v ∈ x.carried? s, v ∈ ws

namespace Leads

variable {makes : Value → Prop} {x y : Eval Value}

theorem congr (h : Leads makes logLevel y s') (heq : x s = y s') : Leads makes logLevel x s := by
  unfold Leads Eval.after Eval.carried? at h ⊢
  rw [heq]
  exact h

theorem of_ok (h : Leads makes logLevel x s) (hx : x s = .ok v s') :
    ∃ ws, Reachable ⊤ makes logLevel s' ws ∧ v ∈ ws := by
  unfold Leads Eval.after Eval.carried? at h
  rw [hx] at h
  obtain ⟨ws, hws, hv⟩ := h
  exact ⟨ws, hws, hv v rfl⟩

theorem evaluate (h : Reachable ⊤ makes logLevel s vs) {form : Value} (hform : form ∈ vs)
    (scope : ScopeId) : Leads makes logLevel (Interpreter.evaluate form scope) s := by
  have hvalues : ∀ v ∈ (Job.eval form scope).values, v ∈ vs := List.forall_mem_singleton.2 hform
  refine ⟨_, h.after Interpreter.passLimit Interpreter.roomLimit hvalues trivial, fun v hv => ?_⟩
  exact List.mem_append_left vs (Option.mem_toList.2 hv)

theorem runForms (h : Reachable ⊤ makes logLevel s vs) (scope : ScopeId) {last : Value}
    (hlast : last ∈ vs) {forms : List Datum} (hforms : ∀ d ∈ forms, d.Readable) :
    Leads makes logLevel (Interpreter.runForms scope last forms) s := by
  induction forms generalizing s vs last with
  | nil => exact ⟨vs, h, fun v hv => Option.some.inj hv ▸ hlast⟩
  | cons form forms ih =>
    obtain ⟨hform, hforms⟩ := List.forall_mem_cons.1 hforms
    obtain ⟨v, s₁, hread⟩ : ∃ v s₁, ofDatum form s = .ok v s₁ := ⟨_, _, rfl⟩
    have hleads := evaluate (h.read hform hread) List.mem_cons_self scope
    cases hrun : Interpreter.evaluate v scope s₁ with
    | ok value s₂ =>
      obtain ⟨ws, hws, hvalue⟩ := hleads.of_ok hrun
      exact (ih hws hvalue hforms).congr ((bind_of_ok hread).trans (bind_of_ok hrun))
    | error stop s₂ =>
      exact hleads.congr ((bind_of_ok hread).trans ((bind_of_error hrun).trans hrun.symm))

/-- To run a text leads from a store that can be reached to another one. -/
theorem run (h : Reachable ⊤ makes logLevel s vs) (text : String) (scope : ScopeId) :
    Leads makes logLevel (Interpreter.run text scope) s := by
  have hreadable : ∀ d ∈ (readForms text).1, d.Readable :=
    fun _ => Datum.readable_of_mem_readForms
  have hleads := runForms (h.read .nil rfl) scope List.mem_cons_self hreadable
  have hrun := congrFun (Interpreter.run_eq text scope) s
  cases hforms : Interpreter.runForms scope .nil (readForms text).1 s with
  | ok value s₁ =>
    replace hrun := hrun.trans (bind_of_ok hforms)
    cases hfault : (readForms text).2 with
    | none =>
      rw [hfault] at hrun
      exact hleads.congr (hrun.trans hforms.symm)
    | some fault =>
      rw [hfault] at hrun
      obtain ⟨ws, hws, -⟩ := hleads.of_ok hforms
      unfold Leads Eval.after Eval.carried?
      rw [hrun]
      refine ⟨ws, hws, fun v hv => ?_⟩
      cases fault <;> cases hv
  | error stop s₁ =>
    exact hleads.congr (hrun.trans ((bind_of_error hforms).trans hforms.symm))

end Leads

theorem Present.holds {D : Discipline} (h : Present s vs v) (hgood : D.Good s)
    (hheld : D.AllHold s vs) (hcaptured : ∀ count id, id < count → D.captured count id)
    (haddress : ∀ count a, a < count → D.address count a) : D.Holds s v := by
  induction h with
  | held hv => exact hheld _ hv
  | bound hown => exact hgood.binding (hcaptured _ _ (Store.lt_count_of_own? hown)) hown
  | content hcontent =>
    exact hgood.content (haddress _ _ (Store.lt_count_of_content? hcontent)) hcontent
  | part _ hp ih => exact ih.part hp

/-- Every closure that can be come across has a well-placed rest mark. -/
theorem Reachable.placesRest {id : Identity} {params : List String} {body info : Value}
    {captured : ScopeId} {isMacro : Bool} (h : Reachable ⊤ (·.isClosure = false) logLevel s vs)
    (hpresent : Present s vs (.closure id params body captured isMacro info)) :
    PlacesRest params := by
  obtain ⟨hgood, hheld⟩ := h.good_placing
  cases hpresent.holds hgood hheld (fun _ _ _ => trivial) (fun _ _ _ => trivial) with
  | closure hparams _ _ _ => exact hparams

theorem expandOnce_closure {id : Identity} {params : List String} {body info : Value}
    {captured scope owner : ScopeId} {name : String} {t : Store}
    (h : t.lookup? scope name = some (owner, .closure id params body captured true info))
    (nested : Nested) (listId : Identity) (args : List Value) (marked : Bool) (listInfo : Value) :
    expandOnce nested (.list listId (.sym name :: args) marked listInfo) scope t =
      (enterCall captured params args >>= fun inner =>
        nested.eval body inner >>= fun expanded => pure (some expanded))
        (t.record debugLevel expansionLogger ("Expanding macro " ++ name)) := by
  have hcall : macroCall? t (.list listId (.sym name :: args) marked listInfo) scope =
      some ⟨name, params, body, captured, args⟩ := by
    unfold macroCall?
    simp only [h]
  exact expandOnce_of_call hcall nested

/-- Every closure that can be come across has fixed parameters and perhaps one that takes the rest.
A call of it, from whatever store, and an expansion of a macro call both go on from its new scope if
they come to it. They fail exactly if there are fewer arguments than fixed parameters, and leave
everything as it was. Otherwise the new scope lies in the captured one and binds the parameters and
nothing else. -/
theorem parameters_bound {id : Identity} {params : List String} {body info : Value}
    {captured : ScopeId} {isMacro : Bool} (h : Reachable ⊤ (·.isClosure = false) logLevel s vs)
    (hpresent : Present s vs (.closure id params body captured isMacro info)) :
    PlacesRest params ∧ ∃ fixed rest?, Takes params fixed rest? ∧
      (∀ nested limit args t,
        pass nested limit (.call (.closure id params body captured isMacro info) args) t =
          (enterCall captured params args >>= fun inner =>
            pure (.next (.eval body inner))) t) ∧
      (∀ nested listId name args marked listInfo scope owner t, isMacro = true →
        t.lookup? scope name = some (owner, .closure id params body captured isMacro info) →
        expandOnce nested (.list listId (.sym name :: args) marked listInfo) scope t =
          (enterCall captured params args >>= fun inner =>
            nested.eval body inner >>= fun expanded => pure (some expanded))
            (t.record debugLevel expansionLogger ("Expanding macro " ++ name))) ∧
      ∀ args t,
        (args.length < fixed.length → ∃ t', t.Untouched t' ∧
          enterCall captured params args t =
            .error (.arity (.parameters fixed.length args.length)) t' ∧
          (ArityFault.parameters fixed.length args.length).message =
            "Expected " ++ toString fixed.length ++ " argument(s), got " ++
              toString args.length) ∧
        (fixed.length ≤ args.length → ∃ bindings t', t.Untouched t' ∧
          enterCall captured params args t = .ok t.scopes.size t' ∧
          t'.scope? t.scopes.size = some ⟨"fn", some captured, bindings⟩ ∧
          BindsParameters fixed rest? args t.nextIdentity bindings ∧
          t'.nextIdentity = t.nextIdentity + rest?.toList.length) := by
  have hplaces := h.placesRest hpresent
  obtain ⟨fixed, rest?, htakes⟩ := hplaces.takes
  refine ⟨hplaces, fixed, rest?, htakes, fun _ _ _ _ => rfl, ?_, fun args t => ?_⟩
  · rintro nested listId name args marked listInfo scope owner t rfl hlookup
    exact expandOnce_closure hlookup nested listId args marked listInfo
  · obtain ⟨hfew, henough⟩ := enterCall_spec htakes captured args t
    refine ⟨fun hargs => ?_, henough⟩
    obtain ⟨t', huntouched, henter⟩ := hfew hargs
    exact ⟨t', huntouched, henter, rfl⟩

/-- A closure whose rest parameter repeats a fixed one that itself comes twice. -/
theorem parameters_bound_repeated :
    ∃ s vs id, Interpreter.run "(fn (a a & a) a)" rootScope (Interpreter.create 40) =
        .ok (.closure id ["a", "a", "&", "a"] (.sym "a") rootScope false .nil) s ∧
      Reachable ⊤ (·.isClosure = false) 40 s vs ∧
      Present s vs (.closure id ["a", "a", "&", "a"] (.sym "a") rootScope false .nil) ∧ ∀ t,
        (∃ t', t.Untouched t' ∧ enterCall rootScope ["a", "a", "&", "a"] [.int 1] t =
          .error (.arity (.parameters 2 1)) t') ∧
        ∃ t', enterCall rootScope ["a", "a", "&", "a"] [.int 1, .int 2, .int 3] t =
            .ok t.scopes.size t' ∧
          t'.own? t.scopes.size "a" = some (.plainList t.nextIdentity [.int 3]) := by
  let form : Datum :=
    .list [.sym "fn", .list [.sym "a", .sym "a", .sym "&", .sym "a"], .sym "a"]
  have hform : form.Readable := by
    have ha : (Datum.sym "a").Readable := .sym (by decide)
    have hmark : (Datum.sym "&").Readable := .sym (by decide)
    have hparams : (Datum.list [.sym "a", .sym "a", .sym "&", .sym "a"]).Readable :=
      .list (by simp [ha, hmark])
    exact .list (by simpa [ha, hparams] using .sym (by decide))
  have htext : "(fn (a a & a) a)" = String.ofList form.chars := by decide
  obtain ⟨id, s, hrun⟩ : ∃ id s,
      Interpreter.run "(fn (a a & a) a)" rootScope (Interpreter.create 40) =
        .ok (.closure id ["a", "a", "&", "a"] (.sym "a") rootScope false .nil) s := by
    rw [Interpreter.run_eq, htext, Datum.readForms_chars hform]
    exact ⟨_, _, rfl⟩
  obtain ⟨vs, hreach, hmem⟩ := (Leads.run .create "(fn (a a & a) a)" rootScope).of_ok hrun
  have hpresent := Present.held (s := s) hmem
  refine ⟨s, vs, id, hrun, hreach, hpresent, fun t => ?_⟩
  obtain ⟨-, fixed, rest?, htakes, -, -, hbinds⟩ := parameters_bound hreach hpresent
  have hparts : Takes ["a", "a", "&", "a"] ["a", "a"] (some "a") := ⟨rfl, by decide⟩
  obtain ⟨rfl, rfl⟩ := htakes.unique hparts
  obtain ⟨t', huntouched, hfew, -⟩ := (hbinds [.int 1] t).1 (by decide)
  obtain ⟨bindings, t'', -, henough, hscope, hbindings, -⟩ :=
    (hbinds [.int 1, .int 2, .int 3] t).2 (by decide)
  refine ⟨⟨t', huntouched, hfew⟩, t'', henough, ?_⟩
  unfold Store.own?
  rw [hscope]
  exact hbindings.rest rfl

end SmallLisp
