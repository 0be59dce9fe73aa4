import Mathlib.Tactic
import SmallLisp.Proofs.Eval.Approximation
import SmallLisp.Proofs.Eval.Direct

/-!
# The evaluator and direct evaluation

An activation that goes from pass to pass ends exactly where direct evaluation ends, with the same
outcome. An activation within limits approximates direct evaluation to the depth of its passes,
and direct evaluation to a depth approximates every activation whose limits reach that depth.
-/

namespace SmallLisp

namespace Direct

open Eval

variable {recur recur' : Nested} {limit limit' : Nat}

theorem approximates_finish {c : Cutoff} (h : NestedApproximates c recur recur') (step : Step) :
    Approximates c (finish recur step) (finish recur' step) := by
  cases step with
  | done value => exact .refl _
  | next job => exact h job

theorem approximates_step (h : NestedApproximates .both recur recur') (hlimit : limit ≤ limit')
    (job : Job) : Approximates .both (step recur limit job) (step recur' limit' job) := by
  rw [step_eq, step_eq]
  exact .bind (h.pass (Cutoff.extends_of_le id hlimit) job) (approximates_finish h)

theorem approximates_run {depth depth' : Nat} (h : depth ≤ depth') :
    NestedApproximates .both (run depth) (run depth') := by
  induction depth generalizing depth' with
  | zero => exact fun job => .passesExhausted id _
  | succ depth ih =>
    obtain ⟨depth', rfl⟩ := Nat.exists_eq_add_of_le' (Nat.one_le_of_lt h)
    have hdepth := Nat.le_of_succ_le_succ h
    exact approximates_step (ih hdepth) hdepth

end Direct

namespace Eval

def nestedRun (passes room : Nat) : Nested := fun job =>
  match room with
  | 0 => throw .stackExhausted
  | room + 1 => run passes room job

theorem run_succ (passes room : Nat) (job : Job) :
    run (passes + 1) room job =
      pass (nestedRun passes room) passes job >>= Direct.finish (run passes room) := by
  funext s
  rw [run]
  unfold nestedRun
  simp only [Bind.bind, EStateM.bind]
  generalize pass _ passes job s = outcome
  cases outcome with
  | ok step s' => cases step <;> rfl
  | error stop s' => rfl

/-- An activation within limits approximates direct evaluation to the depth of its passes. -/
theorem run_approximates_direct (passes room : Nat) :
    NestedApproximates .both (run passes room) (Direct.run passes) := by
  induction passes generalizing room with
  | zero => exact fun job => .passesExhausted id _
  | succ passes ih =>
    have hnested : NestedApproximates .both (nestedRun passes room) (Direct.run passes) := by
      intro job
      cases room with
      | zero => exact .stackExhausted id _
      | succ room => exact ih room job
    intro job
    rw [run_succ, Direct.run, Direct.step_eq]
    exact .bind (hnested.pass (Cutoff.extends_refl _ _) job) (Direct.approximates_finish (ih room))

/-- Direct evaluation to a depth approximates an activation whose limits reach the depth. -/
theorem direct_approximates_run {depth passes room : Nat} (hpasses : depth ≤ passes)
    (hroom : depth ≤ room) : NestedApproximates .both (Direct.run depth) (run passes room) := by
  induction depth generalizing passes room with
  | zero => exact fun job => .passesExhausted id _
  | succ depth ih =>
    obtain ⟨passes, rfl⟩ := Nat.exists_eq_add_of_le' (Nat.one_le_of_lt hpasses)
    obtain ⟨room, rfl⟩ := Nat.exists_eq_add_of_le' (Nat.one_le_of_lt hroom)
    have hdepth : depth ≤ passes := Nat.le_of_succ_le_succ hpasses
    have hnested : NestedApproximates .both (Direct.run depth) (nestedRun passes (room + 1)) :=
      ih hdepth (Nat.le_of_succ_le_succ hroom)
    intro job
    rw [run_succ, Direct.run, Direct.step_eq]
    have hlimit := Cutoff.extends_of_le (c := .both) id hdepth
    refine .bind (hnested.pass hlimit job) (Direct.approximates_finish ?_)
    exact ih hdepth (Nat.le_of_succ_le hroom)

/-- Doing a job ends with an outcome, however far the limits have to be for it. -/
def EndsWith (job : Job) (s : Store) (r : Result Value) : Prop :=
  Ended r ∧ ∃ passes room, run passes room job s = r

end Eval

/-- Direct evaluation ends with an outcome at some depth. -/
def Direct.EndsWith (job : Job) (s : Store) (r : Eval.Result Value) : Prop :=
  Eval.Ended r ∧ ∃ depth, run depth job s = r

theorem Direct.EndsWith.eventually {job : Job} {s : Store} {r : Eval.Result Value}
    (h : Direct.EndsWith job s r) : ∃ depth, ∀ depth', depth ≤ depth' → run depth' job s = r := by
  obtain ⟨hended, depth, rfl⟩ := h
  exact ⟨depth, fun depth' hdepth => approximates_run hdepth job s hended⟩

namespace Eval

/-- Every job ends with an outcome in the evaluator exactly when direct evaluation ends with it. -/
theorem endsWith_iff_direct (job : Job) (s : Store) (r : Result Value) :
    EndsWith job s r ↔ Direct.EndsWith job s r := by
  constructor
  · rintro ⟨hended, passes, room, rfl⟩
    exact ⟨hended, passes, run_approximates_direct passes room job s hended⟩
  · rintro ⟨hended, depth, rfl⟩
    exact ⟨hended, depth, depth, direct_approximates_run le_rfl le_rfl job s hended⟩

/-- Limits that are far enough give the outcome, and so do all limits beyond them. -/
theorem EndsWith.eventually {job : Job} {s : Store} {r : Result Value} (h : EndsWith job s r) :
    ∃ depth, ∀ passes room, depth ≤ passes → depth ≤ room → run passes room job s = r := by
  obtain ⟨hended, depth, rfl⟩ := (endsWith_iff_direct job s r).1 h
  exact ⟨depth, fun passes room hpasses hroom =>
    direct_approximates_run hpasses hroom job s hended⟩

theorem EndsWith.unique {job : Job} {s : Store} {r r' : Result Value} (h : EndsWith job s r)
    (h' : EndsWith job s r') : r = r' := by
  obtain ⟨depth, hr⟩ := h.eventually
  obtain ⟨depth', hr'⟩ := h'.eventually
  rw [← hr _ _ (le_max_left depth depth') (le_max_left depth depth'),
    hr' _ _ (le_max_right depth depth') (le_max_right depth depth')]

end Eval

end SmallLisp
