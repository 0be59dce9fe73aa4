import SmallLisp.Interpreter
import SmallLisp.Proofs.Eval.Depth
import SmallLisp.Proofs.Eval.Limit

/-!
# Macro expansion

Expanding a form leads to a form that is no macro call, and evaluating the form is evaluating its
expansion in the store that expanding has left. A step of an expansion evaluates the body of a macro
and no more than that. What a macro call is depends on the store: a body that is evaluated on the
way may define macros, or bind their names anew.
-/

namespace SmallLisp

/-- A list headed by a symbol whose nearest binding is a macro. -/
def Store.IsMacroCall (s : Store) (form : Value) (scope : ScopeId) : Prop :=
  ∃ id name args marked info owner m, form = .list id (.sym name :: args) marked info ∧
    s.lookup? scope name = some (owner, m) ∧ m.isMacro = true

theorem isMacroCall_iff {s : Store} {form : Value} {scope : ScopeId} :
    s.IsMacroCall form scope ↔ macroCall? s form scope ≠ none := by
  constructor
  · rintro ⟨id, name, args, marked, info, owner, m, rfl, hlookup, hm⟩
    cases m with
    | closure _ _ _ _ isMacro _ =>
      obtain rfl : isMacro = true := hm
      simp [macroCall?, hlookup]
    | _ => cases hm
  · intro h
    unfold macroCall? at h
    split at h
    · split at h
      · next hlookup => exact ⟨_, _, _, _, _, _, _, rfl, hlookup, rfl⟩
      · exact absurd rfl h
    · exact absurd rfl h

namespace Eval

open Filter

variable {form expanded : Value} {scope : ScopeId} {s s' s₁ : Store} {room : ℕ} {job job' : Job}
  {r : Result Value} {stop : Stop}

/-- How a job ends in a room, however many passes it takes. To find no room left is an end too. -/
def EndsInRoom (room : ℕ) (job : Job) (s : Store) (r : Result Value) : Prop :=
  Cutoff.ofPasses.Ends r ∧ ∃ passes, run passes room job s = r

theorem EndsInRoom.eventually (h : EndsInRoom room job s r) :
    ∀ᶠ passes in atTop, run passes room job s = r := by
  obtain ⟨hends, passes, rfl⟩ := h
  exact eventually_atTop.2 ⟨passes, fun passes' hpasses =>
    approximates_run (c := .ofPasses) id hpasses room job s hends⟩

theorem Ended.endsOfPasses (h : Ended r) : Cutoff.ofPasses.Ends r := by
  cases r with
  | ok v s' => trivial
  | error stop s' => cases stop <;> trivial

/-- With enough room a job ends as it does without a limit. -/
theorem EndsWith.eventually_endsInRoom (h : EndsWith job s r) :
    ∀ᶠ room in atTop, EndsInRoom room job s r := by
  obtain ⟨depth, hrun⟩ := h.eventually
  exact eventually_atTop.2 ⟨depth, fun room hroom =>
    ⟨h.1.endsOfPasses, depth, hrun depth room le_rfl hroom⟩⟩

theorem EndsInRoom.endsWith (h : EndsInRoom room job s r) (hended : Ended r) : EndsWith job s r :=
  ⟨hended, h.2.imp fun _ hrun => ⟨room, hrun⟩⟩

theorem approximates_nestedRun {passes passes' : ℕ} (hpasses : passes ≤ passes') (room : ℕ) :
    NestedApproximates .ofPasses (nestedRun passes room) (nestedRun passes' room) := by
  intro job
  cases room with
  | zero => exact .refl _
  | succ room => exact approximates_run id hpasses room job

/-- A job ends as the job does that its first pass hands back. -/
theorem endsInRoom_iff_of_next (hpass : ∀ᶠ passes in atTop,
    pass (nestedRun passes room) passes job s = .ok (.next job') s₁) :
    EndsInRoom room job s r ↔ EndsInRoom room job' s₁ r := by
  have hrun : ∀ᶠ passes in atTop, run (passes + 1) room job s = run passes room job' s₁ := by
    filter_upwards [hpass] with passes hpass
    rw [run_succ]
    exact bind_of_ok hpass
  constructor
  · intro h
    have hnext := (tendsto_add_atTop_nat 1).eventually h.eventually
    obtain ⟨passes, hrun, hr⟩ := (hrun.and hnext).exists
    exact ⟨h.1, passes, hrun.symm.trans hr⟩
  · intro h
    obtain ⟨passes, hrun, hr⟩ := (hrun.and h.eventually).exists
    exact ⟨h.1, passes + 1, hrun.trans hr⟩

theorem pass_eval_of_some {nested : Nested} {limit : ℕ}
    (h : expandOnce nested form scope s = .ok (some expanded) s₁) :
    pass nested limit (.eval form scope) s = .ok (.next (.eval expanded scope)) s₁ := by
  have hcall : s.IsMacroCall form scope := by
    rw [isMacroCall_iff]
    intro hnone
    rw [expandOnce_of_none hnone] at h
    cases h
  obtain ⟨id, name, args, marked, info, -, -, rfl, -⟩ := hcall
  exact bind_of_ok h

theorem pass_eval_of_error {nested : Nested} {limit : ℕ}
    (h : expandOnce nested form scope s = .error stop s') :
    pass nested limit (.eval form scope) s = .error stop s' := by
  have hcall : s.IsMacroCall form scope := by
    rw [isMacroCall_iff]
    intro hnone
    rw [expandOnce_of_none hnone] at h
    cases h
  obtain ⟨id, name, args, marked, info, -, -, rfl, -⟩ := hcall
  exact bind_of_error h

/-- Evaluating a macro call is evaluating what a step of its expansion leads to. -/
theorem endsInRoom_eval_iff_of_expandOnce {passes : ℕ}
    (h : expandOnce (nestedRun passes room) form scope s = .ok (some expanded) s₁) :
    EndsInRoom room (.eval form scope) s r ↔ EndsInRoom room (.eval expanded scope) s₁ r := by
  refine endsInRoom_iff_of_next (eventually_atTop.2 ⟨passes, fun passes' hpasses => ?_⟩)
  refine pass_eval_of_some ?_
  have happroximates := (approximates_nestedRun hpasses room).expandOnce form scope s
  rw [h] at happroximates
  exact happroximates trivial

/-- A step evaluates the body of the macro in the scope that has been entered, and nothing else. -/
theorem expandOnce_congr {nested nested' : Nested}
    (h : ∀ call inner s₁, Entered form scope s call inner s₁ →
      nested (.eval call.body inner) s₁ = nested' (.eval call.body inner) s₁) :
    expandOnce nested form scope s = expandOnce nested' form scope s := by
  cases hcall : macroCall? s form scope with
  | none => rw [expandOnce_of_none hcall, expandOnce_of_none hcall]
  | some call =>
    rw [expandOnce_of_call hcall, expandOnce_of_call hcall]
    cases henter : enterCall call.scope call.params call.args
        (s.record debugLevel expansionLogger ("Expanding macro " ++ call.name)) with
    | ok inner s₁ =>
      have hbody := h call inner s₁ ⟨hcall, henter⟩
      rw [bind_of_ok henter, bind_of_ok henter]
      simp only [Bind.bind, EStateM.bind, Nested.eval, hbody]
    | error stop s' => rw [bind_of_error henter, bind_of_error henter]

theorem run_expand_of_none (h : macroCall? s form scope = none) (passes room : ℕ) :
    run (passes + 1) room (.expand form scope) s = .ok form s := by
  have hpass : pass (nestedRun passes room) passes (.expand form scope) s = .ok (.done form) s :=
    (bind_of_ok (expandOnce_of_none h _)).trans rfl
  rw [run_succ]
  exact (bind_of_ok hpass).trans rfl

/-- An expansion ends with a form that is no macro call, and evaluating that form is evaluating the
form that was expanded. -/
theorem endsInRoom_eval_iff_of_run_expand {passes : ℕ}
    (h : run passes room (.expand form scope) s = .ok expanded s') :
    macroCall? s' expanded scope = none ∧ ∀ r,
      EndsInRoom room (.eval form scope) s r ↔ EndsInRoom room (.eval expanded scope) s' r := by
  induction passes generalizing form s with
  | zero => cases h
  | succ passes ih =>
    rw [run_succ] at h
    obtain ⟨step, s₂, hpass, hfinish⟩ := bind_eq_ok_iff.1 h
    obtain ⟨next?, s₁, honce, hnext⟩ := bind_eq_ok_iff.1 hpass
    cases next? with
    | none =>
      obtain ⟨hnone, rfl⟩ := macroCall?_of_expandOnce honce
      obtain ⟨rfl, rfl⟩ := EStateM.Result.ok.inj hnext
      obtain ⟨rfl, rfl⟩ := EStateM.Result.ok.inj hfinish
      exact ⟨hnone, fun _ => Iff.rfl⟩
    | some next =>
      obtain ⟨rfl, rfl⟩ := EStateM.Result.ok.inj hnext
      obtain ⟨hnone, heval⟩ := ih hfinish
      exact ⟨hnone, fun r => (endsInRoom_eval_iff_of_expandOnce honce).trans (heval r)⟩

theorem endsInRoom_eval_of_run_expand {passes : ℕ}
    (hends : Cutoff.ofPasses.Ends (.error stop s' : Result Value))
    (h : run passes room (.expand form scope) s = .error stop s') :
    EndsInRoom room (.eval form scope) s (.error stop s') := by
  induction passes generalizing form s with
  | zero =>
    obtain ⟨rfl, rfl⟩ := EStateM.Result.error.inj h
    exact absurd hends id
  | succ passes ih =>
    rw [run_succ] at h
    obtain hpass | ⟨step, s₂, hpass, hfinish⟩ := bind_eq_error_iff.1 h
    · obtain honce | ⟨next?, s₁, -, hnext⟩ := bind_eq_error_iff.1 hpass
      · refine ⟨hends, passes + 1, ?_⟩
        rw [run_succ]
        exact bind_of_error (pass_eval_of_error honce)
      · cases next? <;> cases hnext
    · obtain ⟨next?, s₁, honce, hnext⟩ := bind_eq_ok_iff.1 hpass
      cases next? with
      | none =>
        obtain ⟨rfl, rfl⟩ := EStateM.Result.ok.inj hnext
        cases hfinish
      | some next =>
        obtain ⟨rfl, rfl⟩ := EStateM.Result.ok.inj hnext
        exact (endsInRoom_eval_iff_of_expandOnce honce).2 (ih hfinish)

theorem endsWith_eval_iff_of_expand (h : EndsWith (.expand form scope) s (.ok expanded s')) :
    EndsWith (.eval form scope) s r ↔ EndsWith (.eval expanded scope) s' r := by
  have hiff : ∀ᶠ room in atTop,
      (EndsInRoom room (.eval form scope) s r ↔ EndsInRoom room (.eval expanded scope) s' r) := by
    filter_upwards [h.eventually_endsInRoom] with room hexpand
    obtain ⟨-, passes, hrun⟩ := hexpand
    exact (endsInRoom_eval_iff_of_run_expand hrun).2 r
  constructor
  · intro heval
    obtain ⟨room, hiff, hroom⟩ := (hiff.and heval.eventually_endsInRoom).exists
    exact (hiff.1 hroom).endsWith heval.1
  · intro heval
    obtain ⟨room, hiff, hroom⟩ := (hiff.and heval.eventually_endsInRoom).exists
    exact (hiff.2 hroom).endsWith heval.1

/-- Expanding a form to the end is transparent: the expansion is a fixed point of expanding, and it
is evaluated with the same outcome in the store that is left. -/
theorem expansion_transparent (form : Value) (scope : ScopeId) (s : Store) :
    (∀ room expanded s', EndsInRoom room (.expand form scope) s (.ok expanded s') →
      ¬ s'.IsMacroCall expanded scope ∧
      (∀ passes room', run (passes + 1) room' (.expand expanded scope) s' = .ok expanded s') ∧
      (∀ r, EndsInRoom room (.eval form scope) s r ↔
        EndsInRoom room (.eval expanded scope) s' r) ∧
      ∀ r, EndsWith (.eval form scope) s r ↔ EndsWith (.eval expanded scope) s' r) ∧
    (∀ room stop s', EndsInRoom room (.expand form scope) s (.error stop s') →
      EndsInRoom room (.eval form scope) s (.error stop s')) ∧
    (∀ id name args marked info owner v, form = .list id (.sym name :: args) marked info →
      s.lookup? scope name = some (owner, v) → v.isMacro = false →
      ∀ passes room, run (passes + 1) room (.expand form scope) s = .ok form s) ∧
    ∀ nested nested' : Nested,
      (∀ call inner s₁, Entered form scope s call inner s₁ →
        nested (.eval call.body inner) s₁ = nested' (.eval call.body inner) s₁) →
      expandOnce nested form scope s = expandOnce nested' form scope s := by
  refine ⟨?_, ?_, ?_, fun nested nested' => expandOnce_congr⟩
  · intro room expanded s' hexpand
    obtain ⟨passes, hrun⟩ := hexpand.2
    obtain ⟨hnone, heval⟩ := endsInRoom_eval_iff_of_run_expand hrun
    exact ⟨fun hcall => isMacroCall_iff.1 hcall hnone, run_expand_of_none hnone, heval,
      fun _ => endsWith_eval_iff_of_expand (hexpand.endsWith trivial)⟩
  · rintro room stop s' ⟨hends, passes, hrun⟩
    exact endsInRoom_eval_of_run_expand hends hrun
  · rintro id name args marked info owner v rfl hlookup hv
    have hnone : ¬ s.IsMacroCall (.list id (.sym name :: args) marked info) scope := by
      rintro ⟨_, _, _, _, _, _, m, hform, hm, hmacro⟩
      obtain ⟨-, ⟨rfl, -⟩, -⟩ := by simpa using hform
      obtain ⟨-, rfl⟩ := Prod.mk.inj (Option.some.inj (hlookup.symm.trans hm))
      exact absurd hmacro (by simp [hv])
    exact run_expand_of_none (not_not.1 fun hsome => hnone (isMacroCall_iff.2 hsome))

/-- A macro that returns its argument: the call is evaluated as the argument is. -/
theorem expansion_transparent_argument : ∃ s', EndsInRoom 1
    (.eval (.plainList 1 [.sym "m", .plainList 2 [.sym "quote", .int 5]]) rootScope)
    ((Interpreter.create 40).bind rootScope "m"
      (.closure 3 ["x"] (.sym "x") rootScope true .nil)) (.ok (.int 5) s') := by
  have htransparent := (expansion_transparent
    (.plainList 1 [.sym "m", .plainList 2 [.sym "quote", .int 5]]) rootScope
    ((Interpreter.create 40).bind rootScope "m"
      (.closure 3 ["x"] (.sym "x") rootScope true .nil))).1
  obtain ⟨-, -, heval, -⟩ := htransparent 1 (.plainList 2 [.sym "quote", .int 5]) _
    ⟨trivial, 2, rfl⟩
  exact ⟨_, (heval _).2 ⟨trivial, 1, rfl⟩⟩

end Eval

end SmallLisp
