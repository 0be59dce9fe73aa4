import Mathlib.Tactic
import SmallLisp.Proofs.Eval.Trampoline

/-!
# Other meanings of the builtins

The evaluator with the meaning of the builtins left open. What a run shows under every meaning of
a builtin, it shows without applying the builtin; so a builtin is applied in a run when the outcome
of the run depends on what the builtin means.
-/

namespace SmallLisp.Eval

/-- What applying a builtin does. -/
abbrev Meaning := Builtin → Nested → (limit : Nat) → (args : List Value) → Eval Value

variable (meaning : Meaning)

def callValueWith (nested : Nested) (limit : Nat) (f : Value) (args : List Value) : Eval Step :=
  match f with
  | .builtin f _ _ _ => do return .done (← meaning f nested limit args)
  | f => callValue nested limit f args

def passWith (nested : Nested) (limit : Nat) : Job → Eval Step
  | .call f args => callValueWith meaning nested limit f args
  | job => pass nested limit job

def nestedWithin (activation : (room : Nat) → Nested) : (room : Nat) → Nested
  | 0 => fun _ => throw .stackExhausted
  | room + 1 => activation room

/-- Do a job within limits, where the builtins mean something else. -/
def runWith : (passes room : Nat) → Job → Eval Value
  | 0, _, _ => throw .passesExhausted
  | passes + 1, room, job => do
    match ← passWith meaning (nestedWithin (fun room => runWith passes room) room) passes job with
    | .done value => return value
    | .next job => runWith passes room job

theorem passWith_runBuiltin (nested : Nested) (limit : Nat) (job : Job) :
    passWith runBuiltin nested limit job = pass nested limit job := by
  cases job with
  | call f args => cases f <;> rfl
  | eval form scope => rfl
  | expand form scope => rfl

theorem runWith_runBuiltin (passes room : Nat) (job : Job) :
    runWith runBuiltin passes room job = run passes room job := by
  induction passes generalizing room job with
  | zero => rfl
  | succ passes ih =>
    have hnested : nestedWithin (runWith runBuiltin passes) room = nestedRun passes room := by
      funext job
      cases room with
      | zero => rfl
      | succ room => exact ih room job
    rw [run_succ, runWith]
    rw [hnested, passWith_runBuiltin]
    congr 1
    funext step
    cases step with
    | done value => rfl
    | next job => exact ih room job

/-- A builtin is applied in a run: the outcome is another one when the builtin means something
else and everything else means the same. -/
def Applies (f : Builtin) (passes room : Nat) (job : Job) (s : Store) : Prop :=
  ∃ meaning : Meaning, (∀ g, g ≠ f → meaning g = runBuiltin g) ∧
    runWith meaning passes room job s ≠ run passes room job s

end SmallLisp.Eval
