import Mathlib.Tactic
import SmallLisp.Eval.Run

/-!
# Laws of computations

How a sequence of two computations runs, for the computations that proofs take apart most often.
-/

namespace SmallLisp.Eval

variable {α β : Type}

@[simp] theorem throw_bind (stop : Stop) (f : α → Eval β) :
    (throw stop >>= f : Eval β) = throw stop := rfl

theorem get_bind (f : Store → Eval β) (s : Store) : (get >>= f) s = f s s := rfl

theorem throw_ne_ok {stop : Stop} {s s' : Store} {a : α} :
    (throw stop : Eval α) s ≠ .ok a s' := by
  intro h
  cases h

theorem discard_bind (x : Eval α) (f : Unit → Eval β) :
    discard x >>= f = x >>= fun _ => f () := by
  have hdiscard : discard x = x >>= fun _ => pure () := rfl
  rw [hdiscard, bind_assoc]
  rfl

theorem bind_of_ok {x : Eval α} {f : α → Eval β} {s s' : Store} {a : α} (h : x s = .ok a s') :
    (x >>= f) s = f a s' := by
  simp only [Bind.bind, EStateM.bind, h]

theorem bind_of_error {x : Eval α} {f : α → Eval β} {s s' : Store} {stop : Stop}
    (h : x s = .error stop s') : (x >>= f) s = .error stop s' := by
  simp only [Bind.bind, EStateM.bind, h]

theorem bind_eq_ok_iff {x : Eval α} {f : α → Eval β} {s s' : Store} {b : β} :
    (x >>= f) s = .ok b s' ↔ ∃ a s₁, x s = .ok a s₁ ∧ f a s₁ = .ok b s' := by
  simp only [Bind.bind, EStateM.bind]
  cases x s with
  | ok a s₁ => simp
  | error stop s₁ => simp

theorem bind_eq_error_iff {x : Eval α} {f : α → Eval β} {s s' : Store} {stop : Stop} :
    (x >>= f) s = .error stop s' ↔
      x s = .error stop s' ∨ ∃ a s₁, x s = .ok a s₁ ∧ f a s₁ = .error stop s' := by
  simp only [Bind.bind, EStateM.bind]
  cases x s with
  | ok a s₁ => simp
  | error stop s₁ => simp

theorem expandOnce_of_none {form : Value} {scope : ScopeId} {s : Store}
    (h : macroCall? s form scope = none) (nested : Nested) :
    expandOnce nested form scope s = .ok none s := by
  unfold expandOnce
  rw [get_bind, h]
  rfl

end SmallLisp.Eval
