import Mathlib.Tactic
import SmallLisp.Interpreter
import SmallLisp.Proofs.Eval.Propagation
import SmallLisp.Proofs.Template.Call

/-!
# Caught faults

A form that guards its body with a handler ends as the body does when the body has a value or meets
a limit. When the body ends with a fault, the form goes on with the handler in the store that the
body left, in a new scope that binds the symbol of the clause alone. The handler is in tail
position, so that its own faults are those of the form. Together with the propagation of faults
this says which handler a fault comes to: the innermost one around the place where it arose.

The symbol of the clause is bound like a parameter. The mark of rest parameters is none, although
the clause takes every symbol: with it the form ends with a fault of its own in place of the
handler.
-/

namespace SmallLisp.Eval

open Template Filter

variable {scope : ScopeId} {s s₁ s₂ : Store} {form body handler : Value} {name : String}

/-- The form `(try body (catch name handler))`. -/
def IsProtect (form body : Value) (name : String) (handler : Value) : Prop :=
  ∃ id marked info clauseId clauseMarked clauseInfo,
    form = .list id
      [.sym "try", body, .list clauseId [.sym "catch", .sym name, handler] clauseMarked clauseInfo]
      marked info

theorem pass_protect (h : IsProtect form body name handler) (hplain : NoMacro scope s "try")
    (hname : name ≠ "&") (nested : Nested) (limit : Nat) :
    pass nested limit (.eval form scope) s =
      match nested.eval body scope s with
      | .ok v s' => .ok (.done v) s'
      | .error (.fault cause) s' =>
        .ok (.next (.eval handler s'.scopes.size)) (s'.catching scope name cause)
      | .error stop s' => .error stop s' := by
  obtain ⟨id, marked, info, clauseId, clauseMarked, clauseInfo, rfl⟩ := h
  have hform : pass nested limit (.eval (.list id [.sym "try", body,
      .list clauseId [.sym "catch", .sym name, handler] clauseMarked clauseInfo] marked info) scope)
      s = SpecialForm.runProtect nested [body,
        .list clauseId [.sym "catch", .sym name, handler] clauseMarked clauseInfo] scope s :=
    bind_of_ok (expandOnce_eq hplain nested id _ marked info)
  have hclause : SpecialForm.catchClause?
      (.list clauseId [.sym "catch", .sym name, handler] clauseMarked clauseInfo) =
        some (name, handler) := rfl
  rw [hform]
  unfold SpecialForm.runProtect
  simp only [hclause]
  cases hbody : nested.eval body scope s with
  | ok v s' =>
    have hattempt : attempt (nested.eval body scope) s = .ok (.ok v) s' := by
      simp only [attempt, hbody]
    exact bind_of_ok hattempt
  | error stop s' =>
    cases stop with
    | fault cause =>
      refine (bind_of_ok (attempt_of_fault hbody)).trans ?_
      exact (bind_of_ok rfl).trans (bind_of_ok (enter_catch hname cause))
    | host | stackExhausted | passesExhausted =>
      apply bind_of_error
      simp only [attempt, hbody]

theorem step_protect (h : IsProtect form body name handler) (hplain : NoMacro scope s "try")
    (hname : name ≠ "&") (recur : Nested) (limit : Nat) :
    Direct.step recur limit (.eval form scope) s =
      match recur (.eval body scope) s with
      | .ok v s' => .ok v s'
      | .error (.fault cause) s' =>
        recur (.eval handler s'.scopes.size) (s'.catching scope name cause)
      | .error stop s' => .error stop s' := by
  rw [Direct.step_eq]
  simp only [Bind.bind, EStateM.bind, pass_protect h hplain hname, Nested.eval]
  cases recur (.eval body scope) s with
  | ok v s' => rfl
  | error stop s' => cases stop <;> rfl

theorem run_protect (h : IsProtect form body name handler) (hplain : NoMacro scope s "try")
    (hname : name ≠ "&") (passes room : Nat) :
    run (passes + 1) (room + 1) (.eval form scope) s =
      match run passes room (.eval body scope) s with
      | .ok v s' => .ok v s'
      | .error (.fault cause) s' =>
        run passes (room + 1) (.eval handler s'.scopes.size) (s'.catching scope name cause)
      | .error stop s' => .error stop s' := by
  rw [run_succ]
  simp only [Bind.bind, EStateM.bind, pass_protect h hplain hname]
  -- The body is a nested evaluation and takes room; the handler is in tail position.
  have hnested : Nested.eval (nestedRun passes (room + 1)) body scope s =
      run passes room (.eval body scope) s := rfl
  rw [hnested]
  cases run passes room (.eval body scope) s with
  | ok v s' => rfl
  | error stop s' => cases stop <;> rfl

/-- A fault of the body comes to the handler. -/
theorem endsWith_protect_iff (h : IsProtect form body name handler)
    (hplain : NoMacro scope s "try") (hname : name ≠ "&") {cause : Fault}
    (hbody : EndsWith (.eval body scope) s (.error (.fault cause) s₁)) (r : Result Value) :
    EndsWith (.eval form scope) s r ↔
      EndsWith (.eval handler s₁.scopes.size) (s₁.catching scope name cause) r := by
  apply endsWith_iff_of_step
  filter_upwards [hbody.eventually_direct] with depth hbody
  rw [step_protect h hplain hname, hbody]

/-- The mark of rest parameters is no symbol for a handler: the form ends with the fault of a
parameter list that is cut off. -/
theorem endsWith_protect_restMark (h : IsProtect form body "&" handler)
    (hplain : NoMacro scope s "try") {cause : Fault}
    (hbody : EndsWith (.eval body scope) s (.error (.fault cause) s₁)) :
    EndsWith (.eval form scope) s (.error (.fault (.arity .danglingRest))
      ((s₁.record debugLevel SpecialForm.protectLogger
        ("try caught " ++ cause.kind ++ ": " ++ cause.message)).addScope (some scope)
          "catch").2) := by
  obtain ⟨id, marked, info, clauseId, clauseMarked, clauseInfo, rfl⟩ := h
  have hclause : SpecialForm.catchClause?
      (.list clauseId [.sym "catch", .sym "&", handler] clauseMarked clauseInfo) =
        some ("&", handler) := rfl
  apply endsWith_of_eventually
  · trivial
  filter_upwards [hbody.eventually_direct] with depth hbody
  refine (list_eq_special hplain rfl (Direct.run depth) id _ marked info).trans ?_
  unfold Direct.special Direct.protect
  simp only [hclause]
  exact (bind_of_ok (attempt_of_fault hbody)).trans ((bind_of_ok rfl).trans (bind_of_error rfl))

/-- Within limits, a guarded body that ends with a fault is followed by its handler, and every
other outcome is that of the form. A fault that ends any other part of a job ends the job. So a
fault comes from where it arises to the handler of the innermost guarded body around it. -/
theorem innermost_handler (h : IsProtect form body name handler) (hplain : NoMacro scope s "try")
    (hname : name ≠ "&") :
    (∀ passes room, run (passes + 1) (room + 1) (.eval form scope) s =
      match run passes room (.eval body scope) s with
      | .ok v s' => .ok v s'
      | .error (.fault cause) s' =>
        run passes (room + 1) (.eval handler s'.scopes.size) (s'.catching scope name cause)
      | .error stop s' => .error stop s') ∧
    (∀ job job' s s₁ s₂ cause, Job.Reaches job s job' s₁ →
      EndsWith job' s₁ (.error (.fault cause) s₂) → EndsWith job s (.error (.fault cause) s₂)) ∧
    ∀ job' s₁ s₂ cause r, Job.Reaches (.eval body scope) s job' s₁ →
      EndsWith job' s₁ (.error (.fault cause) s₂) →
      (EndsWith (.eval form scope) s r ↔
        EndsWith (.eval handler s₂.scopes.size) (s₂.catching scope name cause) r) := by
  refine ⟨run_protect h hplain hname, ?_, ?_⟩
  · intro job job' s s₁ s₂ cause hreaches hjob
    exact hreaches.fault hjob
  · intro job' s₁ s₂ cause r hreaches hjob
    exact endsWith_protect_iff h hplain hname (hreaches.fault hjob) r

/-- A value that is thrown inside a vector comes to the handler, which returns it. -/
theorem innermost_handler_thrown : ∃ s', EndsWith
    (.eval (.plainList 1 [.sym "try", .plainVec 2 [.plainList 3 [.sym "throw", .bool true]],
      .plainList 4 [.sym "catch", .sym "e", .sym "e"]]) rootScope)
    (Interpreter.create 40) (.ok (.bool true) s') := by
  have hplain : NoMacro rootScope (Interpreter.create 40) "try" := by
    intro owner value h
    cases h
  have hhead : EndsWith (.eval (.sym "throw") rootScope) (Interpreter.create 40)
      (.ok (.builtin (.core .raise) false Value.literalNan .nil) (Interpreter.create 40)) :=
    ⟨trivial, 1, 0, rfl⟩
  have harg : EndsWith (.eval (.bool true) rootScope) (Interpreter.create 40)
      (.ok (.bool true) (Interpreter.create 40)) := ⟨trivial, 1, 0, rfl⟩
  have hthrow : EndsWith (.call (.builtin (.core .raise) false Value.literalNan .nil) [.bool true])
      (Interpreter.create 40) (.error (.fault (.raised (.bool true) "True"))
        (Interpreter.create 40)) := ⟨trivial, 1, 0, rfl⟩
  have hreaches : Job.Reaches
      (.eval (.plainVec 2 [.plainList 3 [.sym "throw", .bool true]]) rootScope)
      (Interpreter.create 40)
      (.call (.builtin (.core .raise) false Value.literalNan .nil) [.bool true])
      (Interpreter.create 40) :=
    .starts (.element .none) (.starts (.application rfl rfl hhead (.next harg .none)) .refl)
  obtain ⟨-, -, hinnermost⟩ := innermost_handler ⟨1, false, .nil, 4, false, .nil, rfl⟩ hplain
    (show "e" ≠ "&" by decide)
  exact ⟨_, (hinnermost _ _ _ _ _ hreaches hthrow).2 ⟨trivial, 1, 0, rfl⟩⟩

end SmallLisp.Eval
