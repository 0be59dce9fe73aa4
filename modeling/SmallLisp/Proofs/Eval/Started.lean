import Mathlib.Tactic
import SmallLisp.Proofs.Eval.Propagation

/-!
# What a pass asks for

A pass has nested activations do those jobs that its job starts, and no others, and the job that it
leaves to do is one of them too. So another way to do nested jobs makes no difference to a pass if
it makes none to the jobs that are started.
-/

namespace SmallLisp

open Eval

def SpecialForm.Begins (form : SpecialForm) (parts : List Value) (scope : ScopeId) (s : Store)
    (job : Job) (s' : Store) : Prop :=
  form.Starts parts scope s job s' ∨ form.Guards parts scope s job s'

def Job.Begins (job : Job) (s : Store) (job' : Job) (s' : Store) : Prop :=
  job.Starts s job' s' ∨ job.Guards s job' s'

theorem Job.begins_of_special {id : Identity} {head info : Value} {parts : List Value}
    {marked : Bool} {form : SpecialForm} {scope : ScopeId} {job : Job} {s s' : Store}
    (hplain : macroCall? s (.list id (head :: parts) marked info) scope = none)
    (hname : head.symbol?.bind SpecialForm.ofName? = some form)
    (h : form.Begins parts scope s job s') :
    Job.Begins (.eval (.list id (head :: parts) marked info) scope) s job s' :=
  h.imp (.special hplain hname) (.special hplain hname)

namespace Eval

variable {α β : Type} {s s' s₁ : Store} {scope : ScopeId} {job : Job} {v : Value}

theorem bind_congr_at {x x' : Eval α} {f f' : α → Eval β} (hx : x' s = x s)
    (hf : ∀ a s₁, x s = .ok a s₁ → f' a s₁ = f a s₁) : (x' >>= f') s = (x >>= f) s := by
  simp only [Bind.bind, EStateM.bind, hx]
  cases hrun : x s with
  | ok a s₁ => exact hf a s₁ hrun
  | error stop s₁ => rfl

theorem fault_of_attempt {x : Eval α} {cause : Fault} (h : attempt x s = .ok (.error cause) s') :
    x s = .error (.fault cause) s' := by
  unfold attempt at h
  split at h
  · cases h
  · next hx =>
    obtain ⟨hcause, rfl⟩ := EStateM.Result.ok.inj h
    exact Except.error.inj hcause ▸ hx
  · cases h

theorem inside_congr_at {x x' : Eval α} (function : String) (h : x' s = x s) :
    inside function x' s = inside function x s := by
  unfold inside
  rw [h]

theorem atom_of_address {function : String} {a : Address}
    (h : Eval.address function v s = .ok a s') : v = .atom a ∧ s' = s := by
  unfold Eval.address at h
  split at h
  · obtain ⟨rfl, rfl⟩ := EStateM.Result.ok.inj h
    exact ⟨rfl, rfl⟩
  · obtain ⟨shown, s₁, -, h⟩ := bind_eq_ok_iff.1 h
    cases h

theorem eq_of_single {function : String} {args : List Value}
    (h : single function args s = .ok v s') : args = [v] ∧ s' = s := by
  unfold single at h
  split at h
  · obtain ⟨rfl, rfl⟩ := EStateM.Result.ok.inj h
    exact ⟨rfl, rfl⟩
  · cases h

/-- Nested activations whose outcomes are those of the jobs, limits apart. -/
def Faithful (nested : Nested) : Prop :=
  ∀ job s, Ended (nested job s) → EndsWith job s (nested job s)

theorem faithful_direct (depth : ℕ) : Faithful (Direct.run depth) :=
  fun _ _ hended => endsWith_of_direct rfl hended

theorem faithful_nestedRun (passes room : ℕ) : Faithful (nestedRun passes room) := by
  intro job s hended
  cases room with
  | zero => exact hended.elim
  | succ room => exact ⟨hended, passes, room, rfl⟩

namespace Faithful

variable {nested : Nested} (hnested : Faithful nested)
include hnested

theorem endsWith_of_eq {r : Result Value} (h : nested job s = r) (hended : Ended r) :
    EndsWith job s r := by
  subst h
  exact hnested job s hended

theorem evaluated_of_evalAll {forms vs : List Value}
    (h : nested.evalAll forms scope s = .ok vs s') : Evaluated scope forms s vs [] s' := by
  induction forms generalizing s vs with
  | nil =>
    obtain ⟨rfl, rfl⟩ := EStateM.Result.ok.inj h
    exact .none
  | cons form forms ih =>
    rw [evalAll_cons] at h
    obtain ⟨v, s₁, hform, h⟩ := bind_eq_ok_iff.1 h
    obtain ⟨vs', s₂, hforms, h⟩ := bind_eq_ok_iff.1 h
    obtain ⟨rfl, rfl⟩ := EStateM.Result.ok.inj h
    exact .next (hnested.endsWith_of_eq hform trivial) (ih hforms)

theorem bound_of_bindEach {items : List Value} {u : Unit} (heven : items.length % 2 ≠ 1)
    (h : SpecialForm.bindEach nested scope items s = .ok u s') : Bound scope items s [] s' := by
  fun_induction SpecialForm.bindEach nested scope items generalizing s with
  | case1 name form rest ih =>
    obtain ⟨v, s₁, hform, h⟩ := bind_eq_ok_iff.1 h
    obtain ⟨_, s₂, hbind, h⟩ := bind_eq_ok_iff.1 h
    obtain ⟨-, rfl⟩ := EStateM.Result.ok.inj hbind
    have hrest : rest.length % 2 ≠ 1 := by
      simp only [List.length_cons] at heven
      omega
    exact .next (hnested.endsWith_of_eq hform trivial) (ih hrest h)
  | case2 target form rest hsymbol =>
    obtain ⟨shown, s₁, -, h⟩ := bind_eq_ok_iff.1 h
    cases h
  | case3 items hsymbol htarget =>
    obtain ⟨-, rfl⟩ := EStateM.Result.ok.inj h
    -- A single item is left out by the even length, which this case does not know of.
    rcases items with _ | ⟨target, _ | ⟨form, rest⟩⟩
    · exact .none
    · exact absurd rfl heven
    · exact absurd rfl (htarget target form rest)

theorem entered_of_expandOnce {form expanded : Value}
    (h : expandOnce nested form scope s = .ok (some expanded) s') :
    ∃ call inner s₁, Entered form scope s call inner s₁ ∧
      EndsWith (.eval call.body inner) s₁ (.ok expanded s') := by
  cases hcall : macroCall? s form scope with
  | none =>
    rw [expandOnce_of_none hcall] at h
    cases h
  | some call =>
    rw [expandOnce_of_call hcall] at h
    obtain ⟨inner, s₁, henter, h⟩ := bind_eq_ok_iff.1 h
    obtain ⟨expanded', s₂, hbody, h⟩ := bind_eq_ok_iff.1 h
    obtain ⟨hexpanded, rfl⟩ := EStateM.Result.ok.inj h
    obtain rfl := Option.some.inj hexpanded
    exact ⟨call, inner, s₁, ⟨hcall, henter⟩, hnested.endsWith_of_eq hbody trivial⟩

end Faithful

theorem macroCall?_of_expandOnce {nested : Nested} {form : Value}
    (h : expandOnce nested form scope s = .ok none s') :
    macroCall? s form scope = none ∧ s' = s := by
  cases hcall : macroCall? s form scope with
  | none =>
    rw [expandOnce_of_none hcall] at h
    obtain ⟨-, rfl⟩ := EStateM.Result.ok.inj h
    exact ⟨rfl, rfl⟩
  | some call =>
    rw [expandOnce_of_call hcall] at h
    obtain ⟨inner, s₁, -, h⟩ := bind_eq_ok_iff.1 h
    obtain ⟨expanded, s₂, -, h⟩ := bind_eq_ok_iff.1 h
    cases h

/-- Two computations of a step do the same in a store, and the job that they leave, if any, is one
of some jobs in some stores. -/
structure Follows (asked : Job → Store → Prop) (s : Store) (x x' : Eval Step) : Prop where
  same : x' s = x s
  asks {job : Job} {s₁ : Store} : x s = .ok (.next job) s₁ → asked job s₁

namespace Follows

variable {asked : Job → Store → Prop}

theorem done (v : Value) : Follows asked s (pure (.done v)) (pure (.done v)) := ⟨rfl, nofun⟩

theorem next (h : asked job s) : Follows asked s (pure (.next job)) (pure (.next job)) := by
  refine ⟨rfl, fun hnext => ?_⟩
  obtain ⟨hjob, rfl⟩ := EStateM.Result.ok.inj hnext
  exact Step.next.inj hjob ▸ h

theorem throw (stop : Stop) : Follows asked s (throw stop) (throw stop) := ⟨rfl, nofun⟩

theorem bind {x x' : Eval α} {f f' : α → Eval Step} (hx : x' s = x s)
    (hf : ∀ a s₁, x s = .ok a s₁ → Follows asked s₁ (f a) (f' a)) :
    Follows asked s (x >>= f) (x' >>= f') := by
  refine ⟨bind_congr_at hx fun a s₁ ha => (hf a s₁ ha).same, fun hnext => ?_⟩
  obtain ⟨a, s₁, ha, hnext⟩ := bind_eq_ok_iff.1 hnext
  exact (hf a s₁ ha).asks hnext

theorem runDefineMacro {parts : List Value} :
    Follows asked s (SpecialForm.runDefineMacro parts scope)
      (SpecialForm.runDefineMacro parts scope) := by
  unfold SpecialForm.runDefineMacro
  split
  · exact .bind rfl fun v _ _ => .bind rfl fun _ _ _ => .done v
  · exact .bind rfl fun _ _ _ => .throw _
  · exact .throw _

end Follows

/-- Another way to do nested jobs, which makes no difference to some jobs in some stores. -/
structure AgreeOn (asked : Job → Store → Prop) (nested nested' : Nested) : Prop where
  faithful : Faithful nested
  same {job : Job} {s : Store} : asked job s → nested' job s = nested job s

namespace AgreeOn

variable {asked : Job → Store → Prop} {nested nested' : Nested} (h : AgreeOn asked nested nested')
include h

theorem endsWith {r : Result Value} (hr : nested job s = r) (hended : Ended r) :
    EndsWith job s r := h.faithful.endsWith_of_eq hr hended

theorem evalAll {forms : List Value} (hasked : ∀ {vs form rest s₁},
      Evaluated scope forms s vs (form :: rest) s₁ → asked (.eval form scope) s₁) :
    nested'.evalAll forms scope s = nested.evalAll forms scope s := by
  induction forms generalizing s with
  | nil => rfl
  | cons form forms ih =>
    rw [evalAll_cons, evalAll_cons]
    refine bind_congr_at (h.same (hasked .none)) fun v s₁ hv => bind_congr_at ?_ fun _ _ _ => rfl
    exact ih fun hforms => hasked (.next (h.endsWith hv trivial) hforms)

theorem evalEntries {entries : List (Value × Value)}
    (hkeys : ∀ {k v rest s₁}, EvaluatedEntries scope entries s ((k, v) :: rest) s₁ →
      asked (.eval k scope) s₁)
    (hvalues : ∀ {k v key rest s₁ s₂}, EvaluatedEntries scope entries s ((k, v) :: rest) s₁ →
      EndsWith (.eval k scope) s₁ (.ok key s₂) → asked (.eval v scope) s₂) :
    evalEntries nested' scope entries s = evalEntries nested scope entries s := by
  induction entries generalizing s with
  | nil => rfl
  | cons entry rest ih =>
    obtain ⟨k, v⟩ := entry
    unfold Eval.evalEntries
    refine bind_congr_at (h.same (hkeys .none)) fun key s₁ hk => ?_
    have hk := h.endsWith hk trivial
    refine bind_congr_at (h.same (hvalues .none hk)) fun value s₂ hv => ?_
    have hv := h.endsWith hv trivial
    split_ifs with hnone
    · rfl
    · have hsome : key.key?.isSome := by simpa [Option.isSome_iff_ne_none] using hnone
      refine bind_congr_at (ih ?_ ?_) fun _ _ _ => rfl
      · exact fun hentries => hkeys (.next hk hv hsome hentries)
      · exact fun hentries => hvalues (.next hk hv hsome hentries)

theorem expandOnce {form : Value} (hasked : ∀ {call inner s₁},
      Entered form scope s call inner s₁ → asked (.eval call.body inner) s₁) :
    expandOnce nested' form scope s = expandOnce nested form scope s := by
  cases hcall : macroCall? s form scope with
  | none => rw [expandOnce_of_none hcall, expandOnce_of_none hcall]
  | some call =>
    rw [expandOnce_of_call hcall, expandOnce_of_call hcall]
    refine bind_congr_at rfl fun inner s₁ henter => bind_congr_at ?_ fun _ _ _ => rfl
    exact h.same (hasked ⟨hcall, henter⟩)

/-! Special forms -/

theorem runBody {forms : List Value} (hasked : ∀ {vs form rest s₁},
      Evaluated scope forms s vs (form :: rest) s₁ → asked (.eval form scope) s₁) :
    Follows asked s (SpecialForm.runBody nested forms scope)
      (SpecialForm.runBody nested' forms scope) := by
  induction forms generalizing s with
  | nil => exact .done .nil
  | cons form forms ih =>
    by_cases hforms : forms = []
    · subst hforms
      exact .next (hasked .none)
    · rw [SpecialForm.runBody.eq_3 _ _ _ _ hforms, SpecialForm.runBody.eq_3 _ _ _ _ hforms,
        discard_bind, discard_bind]
      refine .bind (h.same (hasked .none)) fun v s₁ hv => ih fun hrest => ?_
      exact hasked (.next (h.endsWith hv trivial) hrest)

theorem bindEach {items : List Value} (hasked : ∀ {name form rest s₁},
      Bound scope items s (.sym name :: form :: rest) s₁ → asked (.eval form scope) s₁) :
    SpecialForm.bindEach nested' scope items s = SpecialForm.bindEach nested scope items s := by
  fun_induction SpecialForm.bindEach nested scope items generalizing s with
  | case1 name form rest ih =>
    rw [SpecialForm.bindEach]
    refine bind_congr_at (h.same (hasked .none)) fun v s₁ hv => ?_
    refine bind_congr_at rfl fun _ s₂ hbind => ?_
    obtain ⟨-, rfl⟩ := EStateM.Result.ok.inj hbind
    exact ih fun hrest => hasked (.next (h.endsWith hv trivial) hrest)
  | case2 target form rest htarget => rw [SpecialForm.bindEach.eq_2 _ _ _ _ _ htarget]
  | case3 items hsymbol htarget => rw [SpecialForm.bindEach.eq_3 _ _ _ hsymbol htarget]

theorem runDefine {parts : List Value}
    (hasked : ∀ {job s₁}, SpecialForm.Begins .define parts scope s job s₁ → asked job s₁) :
    Follows asked s (SpecialForm.runDefine nested parts scope)
      (SpecialForm.runDefine nested' parts scope) := by
  unfold SpecialForm.runDefine
  split
  · refine .bind (h.same (hasked (.inl .value))) fun v s₁ _ => .bind rfl fun _ _ _ => .done v
  · exact .bind rfl fun _ _ _ => .throw _
  · exact .throw _

theorem runConditional {parts : List Value}
    (hasked : ∀ {job s₁}, SpecialForm.Begins .conditional parts scope s job s₁ → asked job s₁) :
    Follows asked s (SpecialForm.runConditional nested parts scope)
      (SpecialForm.runConditional nested' parts scope) := by
  unfold SpecialForm.runConditional
  split
  · refine .bind (h.same (hasked (.inl (.condition (Nat.zero_le 1))))) fun v s₁ hv => ?_
    have hv := h.endsWith hv trivial
    split_ifs with htruthy
    · exact .next (hasked (.inl (.consequent (Nat.zero_le 1) hv htruthy)))
    · exact .done .nil
  · refine .bind (h.same (hasked (.inl (.condition le_rfl)))) fun v s₁ hv => ?_
    have hv := h.endsWith hv trivial
    split_ifs with htruthy
    · exact .next (hasked (.inl (.consequent le_rfl hv htruthy)))
    · exact .next (hasked (.inl (.alternative hv htruthy)))
  · exact .throw _

theorem runBindings {parts : List Value}
    (hasked : ∀ {job s₁}, SpecialForm.Begins .bindings parts scope s job s₁ → asked job s₁) :
    Follows asked s (SpecialForm.runBindings nested parts scope)
      (SpecialForm.runBindings nested' parts scope) := by
  unfold SpecialForm.runBindings
  split
  · exact .throw _
  · next binders body =>
    split
    · exact .throw _
    · next items hitems =>
      split_ifs with hodd
      · exact .throw _
      · have heven : items.length % 2 ≠ 1 := by simpa using hodd
        refine .bind rfl fun inner s₁ hinner => ?_
        obtain ⟨rfl, rfl⟩ := EStateM.Result.ok.inj hinner
        have hbinding := h.bindEach fun hbound => hasked (.inl (.binding hitems heven hbound))
        refine .bind hbinding fun _ s₂ hbound => h.runBody fun hforms => ?_
        have hbound := h.faithful.bound_of_bindEach heven hbound
        exact hasked (.inl (.bodyForm hitems heven hbound hforms))

theorem runProtect {parts : List Value}
    (hasked : ∀ {job s₁}, SpecialForm.Begins .protect parts scope s job s₁ → asked job s₁) :
    Follows asked s (SpecialForm.runProtect nested parts scope)
      (SpecialForm.runProtect nested' parts scope) := by
  unfold SpecialForm.runProtect
  split
  · exact .bind (h.same (hasked (.inl .unguarded))) fun v _ _ => .done v
  · next form clause =>
    split
    · exact .throw _
    · next name handler hclause =>
      have hguarded : asked (.eval form scope) s :=
        hasked (.inr (.body (Option.isSome_iff_exists.2 ⟨_, hclause⟩)))
      have hsame : attempt (nested'.eval form scope) s = attempt (nested.eval form scope) s := by
        unfold attempt Nested.eval
        rw [h.same hguarded]
      refine .bind hsame fun outcome s₁ houtcome => ?_
      cases outcome with
      | ok v => exact .done v
      | error cause =>
        have hbody := h.endsWith (fault_of_attempt houtcome) trivial
        refine .bind rfl fun _ s₂ hdebug => .bind rfl fun inner s₃ henter => .next ?_
        obtain ⟨-, rfl⟩ := EStateM.Result.ok.inj hdebug
        by_cases hname : name = "&"
        · subst hname
          cases henter
        · obtain ⟨rfl, rfl⟩ := EStateM.Result.ok.inj ((enter_catch hname cause).symm.trans henter)
          exact hasked (.inl (.handler hclause hname hbody))
  · exact .throw _

theorem runSpecial {form : SpecialForm} {parts : List Value}
    (hasked : ∀ {job s₁}, form.Begins parts scope s job s₁ → asked job s₁) :
    Follows asked s (form.run nested parts scope) (form.run nested' parts scope) := by
  cases form with
  | define => exact h.runDefine hasked
  | bindings => exact h.runBindings hasked
  | conditional => exact h.runConditional hasked
  | protect => exact h.runProtect hasked
  | defineMacro => exact .runDefineMacro
  | sequence => exact h.runBody fun hforms => hasked (.inl (.form hforms))
  | template =>
    unfold SpecialForm.run SpecialForm.runTemplate
    dsimp only
    split
    · exact .bind rfl fun code s₁ hcode => .next (hasked (.inl (.template hcode)))
    · exact .throw _
  | expansion =>
    unfold SpecialForm.run SpecialForm.runExpansion
    dsimp only
    split
    · exact .next (hasked (.inl .expansion))
    · exact .throw _
  | function => exact .bind rfl fun v _ _ => .done v
  | quotation =>
    unfold SpecialForm.run SpecialForm.runQuotation
    dsimp only
    split
    · exact .done _
    · exact .throw _
  | scopeChain =>
    unfold SpecialForm.run SpecialForm.runScopeChain
    dsimp only
    split
    · exact .bind rfl fun _ _ _ => .done _
    · exact .throw _
  | scopesOf =>
    unfold SpecialForm.run SpecialForm.runScopesOf
    dsimp only
    split
    · exact .bind rfl fun _ _ _ => .done _
    · exact .throw _

/-! Forms -/

theorem evalAtom {form : Value}
    (hasked : ∀ {job s₁}, Job.Begins (.eval form scope) s job s₁ → asked job s₁) :
    evalAtom nested' form scope s = evalAtom nested form scope s := by
  unfold Eval.evalAtom
  split
  · rfl
  · refine bind_congr_at (h.evalAll fun hforms => ?_) fun _ _ _ => rfl
    exact hasked (.inl (.element hforms))
  · refine bind_congr_at (h.evalEntries (fun hentries => ?_) fun hentries hk => ?_) fun _ _ _ => rfl
    · exact hasked (.inl (.key hentries))
    · exact hasked (.inl (.entry hentries hk))
  · rfl

theorem evalList {id : Identity} {head info : Value} {args : List Value} {marked : Bool}
    (hplain : macroCall? s (.list id (head :: args) marked info) scope = none)
    (hasked : ∀ {job s₁}, Job.Begins (.eval (.list id (head :: args) marked info) scope) s job s₁ →
      asked job s₁) :
    Follows asked s (evalList nested head args scope) (evalList nested' head args scope) := by
  unfold Eval.evalList
  split
  · next form hname =>
    exact h.runSpecial fun hbegins => hasked (Job.begins_of_special hplain hname hbegins)
  · next hname =>
    refine .bind (h.same (hasked (.inl (.head hplain hname)))) fun f s₁ hf => ?_
    have hf := h.endsWith hf trivial
    have hargs : nested'.evalAll args scope s₁ = nested.evalAll args scope s₁ :=
      h.evalAll fun hforms => hasked (.inl (.operand hplain hname hf hforms))
    refine .bind hargs fun vs s₂ hvs => .next (hasked (.inl ?_))
    exact .application hplain hname hf (h.faithful.evaluated_of_evalAll hvs)

theorem evalForm {form : Value}
    (hasked : ∀ {job s₁}, Job.Begins (.eval form scope) s job s₁ → asked job s₁) :
    Follows asked s (evalForm nested form scope) (evalForm nested' form scope) := by
  unfold Eval.evalForm
  split
  · exact .done _
  · have hmacro {call : MacroCall} {inner : ScopeId} {s₁ : Store}
        (hentered : Entered _ scope s call inner s₁) : asked (.eval call.body inner) s₁ :=
      hasked (.inl (.macroBody hentered))
    refine .bind (h.expandOnce hmacro) fun expanded s₁ hexpand => ?_
    cases expanded with
    | some expanded =>
      obtain ⟨call, inner, s₂, hentered, hbody⟩ := h.faithful.entered_of_expandOnce hexpand
      exact .next (hasked (.inl (.expanded hentered hbody)))
    | none =>
      obtain ⟨hplain, rfl⟩ := macroCall?_of_expandOnce hexpand
      exact h.evalList hplain hasked
  · exact .bind (h.evalAtom hasked) fun v _ _ => .done v

/-! Calls -/

theorem applySpread {wrapped : Bool} {id : Identity} {info : Value} {args : List Value}
    (hasked : ∀ {job s₁},
      Job.Begins (.call (.builtin (.core .apply) wrapped id info) args) s job s₁ → asked job s₁) :
    Core.applySpread nested' args s = Core.applySpread nested args s := by
  unfold Core.applySpread
  split
  · exact bind_congr_at rfl fun spread s₁ hspread => h.same (hasked (.inl (.applied hspread)))
  · rfl

theorem swap {wrapped : Bool} {id : Identity} {info : Value} {args : List Value}
    (hasked : ∀ {job s₁},
      Job.Begins (.call (.builtin (.core .swap) wrapped id info) args) s job s₁ → asked job s₁) :
    Cell.swap nested' args s = Cell.swap nested args s := by
  unfold Cell.swap
  split
  · next cell f extra =>
    refine bind_congr_at rfl fun a s₁ ha => ?_
    obtain ⟨rfl, rfl⟩ := atom_of_address ha
    refine bind_congr_at rfl fun content s₂ hcontent => ?_
    obtain ⟨rfl, rfl⟩ := EStateM.Result.ok.inj hcontent
    exact bind_congr_at (h.same (hasked (.inl .swapped))) fun _ _ _ => rfl
  · rfl

theorem runBuiltin {f : Builtin} {wrapped : Bool} {id : Identity} {info : Value} {args : List Value}
    (hasked : ∀ {job s₁}, Job.Begins (.call (.builtin f wrapped id info) args) s job s₁ →
      asked job s₁) (limit : ℕ) :
    runBuiltin f nested' limit args s = runBuiltin f nested limit args s := by
  apply inside_congr_at f.name
  cases f with
  | core f =>
    cases f with
    | apply => exact h.applySpread hasked
    | swap => exact h.swap hasked
    | _ => rfl
  | numeric f => rfl
  | eval =>
    refine bind_congr_at rfl fun form s₁ hform => ?_
    obtain ⟨rfl, rfl⟩ := eq_of_single hform
    exact h.same (hasked (.inl .evaluated))

theorem callValue {f : Value} {args : List Value}
    (hasked : ∀ {job s₁}, Job.Begins (.call f args) s job s₁ → asked job s₁) (limit : ℕ) :
    Follows asked s (callValue nested limit f args) (callValue nested' limit f args) := by
  unfold Eval.callValue
  split
  · exact .bind rfl fun inner s₁ henter => .next (hasked (.inl (.closureBody henter)))
  · exact .bind (h.runBuiltin hasked limit) fun v _ _ => .done v
  · exact .bind rfl fun _ _ _ => .throw _

/-! Passes -/

/-- A pass over a job asks for what the job starts. -/
theorem pass (hasked : ∀ {job' s₁}, job.Begins s job' s₁ → asked job' s₁) (limit : ℕ) :
    Follows asked s (pass nested limit job) (pass nested' limit job) := by
  cases job with
  | eval form scope => exact h.evalForm hasked
  | call f args => exact h.callValue hasked limit
  | expand form scope =>
    refine .bind (h.expandOnce fun hentered => hasked (.inl (.expandBody hentered))) ?_
    intro expanded s₁ hexpand
    cases expanded with
    | some expanded =>
      obtain ⟨call, inner, s₂, hentered, hbody⟩ := h.faithful.entered_of_expandOnce hexpand
      exact .next (hasked (.inl (.expandOn hentered hbody)))
    | none => exact .done form

end AgreeOn

end Eval

end SmallLisp
