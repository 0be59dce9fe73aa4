import Mathlib.Tactic
import SmallLisp.Eval.Run

/-!
# Approximation of computations

A computation that exhausts its passes or its room has not ended. One computation approximates
another when both end alike wherever the first one ends. Approximation passes through everything
that computations are built from, so that a pass is approximated by the same pass with more
limits or with nested activations that end more often. It does so too when an exhausted room, or
exhausted passes, are taken for an end like any other.
-/

namespace SmallLisp.Eval

/-- The outcome of a computation: a value or a stop, and the store that is left. -/
abbrev Result (α : Type) := EStateM.Result Stop Store α

/-- Whether an outcome is a value or an error of the program, and not a limit that was met. -/
def Ended {α : Type} : Result α → Prop
  | .ok _ _ => True
  | .error .stackExhausted _ => False
  | .error .passesExhausted _ => False
  | .error _ _ => True

/-- What is taken for an end: an exhausted room, exhausted passes, both or neither. -/
structure Cutoff where
  roomEnds : Prop
  passesEnd : Prop

namespace Cutoff

/-- No limit that is met is an end. -/
def both : Cutoff := ⟨False, False⟩

/-- An exhausted room is no end. -/
def ofRoom : Cutoff := ⟨False, True⟩

/-- Exhausted passes are no end. -/
def ofPasses : Cutoff := ⟨True, False⟩

def Ends (c : Cutoff) {α : Type} : Result α → Prop
  | .ok _ _ => True
  | .error .stackExhausted _ => c.roomEnds
  | .error .passesExhausted _ => c.passesEnd
  | .error _ _ => True

/-- Passes may be added where their exhaustion is no end. -/
def Extends (c : Cutoff) (limit limit' : Nat) : Prop :=
  limit ≤ limit' ∧ (c.passesEnd → limit = limit')

theorem extends_refl (c : Cutoff) (limit : Nat) : c.Extends limit limit := ⟨le_rfl, fun _ => rfl⟩

theorem extends_of_le {c : Cutoff} (hc : ¬ c.passesEnd) {limit limit' : Nat}
    (h : limit ≤ limit') : c.Extends limit limit' := ⟨h, fun hends => absurd hends hc⟩

end Cutoff

/-- Wherever the first computation ends, the second one ends alike. -/
def Approximates (c : Cutoff) {α : Type} (x y : Eval α) : Prop := ∀ s, c.Ends (x s) → y s = x s

section

variable {c : Cutoff} {α β : Type} {x y z : Eval α} {f g : α → Eval β}

namespace Approximates

theorem refl (x : Eval α) : Approximates c x x := fun _ _ => rfl

theorem passesExhausted (hc : ¬ c.passesEnd) (x : Eval α) :
    Approximates c (throw .passesExhausted) x := fun _ h => absurd h hc

theorem stackExhausted (hc : ¬ c.roomEnds) (x : Eval α) :
    Approximates c (throw .stackExhausted) x := fun _ h => absurd h hc

theorem ends_of_bind {s : Store} (h : c.Ends ((x >>= f) s)) : c.Ends (x s) := by
  simp only [Bind.bind, EStateM.bind] at h
  cases hs : x s with
  | ok a s' => trivial
  | error stop s' =>
    rw [hs] at h
    cases stop <;> exact h

theorem bind (hxy : Approximates c x y) (hfg : ∀ a, Approximates c (f a) (g a)) :
    Approximates c (x >>= f) (y >>= g) := by
  intro s h
  have hx := hxy s (ends_of_bind h)
  simp only [Bind.bind, EStateM.bind] at h ⊢
  rw [hx]
  cases hs : x s with
  | ok a s' =>
    rw [hs] at h
    exact hfg a s' h
  | error stop s' => rfl

theorem discard (hxy : Approximates c x y) : Approximates c (discard x) (discard y) :=
  bind hxy fun _ => refl (pure ())

theorem attempt (hxy : Approximates c x y) : Approximates c (attempt x) (attempt y) := by
  intro s h
  have hx : c.Ends (x s) := by
    unfold Eval.attempt at h
    cases hs : x s with
    | ok a s' => trivial
    | error stop s' =>
      rw [hs] at h
      cases stop <;> trivial
  unfold Eval.attempt
  rw [hxy s hx]

theorem inside (function : String) (hxy : Approximates c x y) :
    Approximates c (inside function x) (inside function y) := by
  intro s h
  have hx : c.Ends (x s) := by
    unfold Eval.inside at h
    cases hs : x s with
    | ok a s' => trivial
    | error stop s' =>
      rw [hs] at h
      cases stop <;> exact h
  unfold Eval.inside
  rw [hxy s hx]

theorem mapM {γ : Type} {f g : γ → Eval α} (h : ∀ item, Approximates c (f item) (g item))
    (items : List γ) :
    Approximates c (items.mapM f) (items.mapM g) := by
  induction items with
  | nil => exact refl _
  | cons item items ih =>
    rw [List.mapM_cons, List.mapM_cons]
    exact bind (h item) fun a => bind ih fun as => refl _

end Approximates

end

theorem progression_eq {stop step : Number} {limit limit' : Nat} (hlimit : limit ≤ limit')
    {start : Number} {passed : List Number}
    (h : Arithmetic.progression stop step limit start passed ≠ .error .passesExhausted) :
    Arithmetic.progression stop step limit' start passed =
      Arithmetic.progression stop step limit start passed := by
  induction limit generalizing limit' start passed with
  | zero => exact absurd rfl h
  | succ limit ih =>
    obtain ⟨limit', rfl⟩ := Nat.exists_eq_add_of_le' (Nat.one_le_of_lt hlimit)
    unfold Arithmetic.progression at h ⊢
    split_ifs with hstart
    · rw [if_pos hstart] at h
      cases hnext : start.add step with
      | ok next =>
        rw [hnext] at h
        exact ih (Nat.le_of_succ_le_succ hlimit) h
      | error fault => rfl
    · rfl

theorem approximates_range {c : Cutoff} {limit limit' : Nat} (hlimit : c.Extends limit limit')
    (args : List Value) :
    Approximates c (Arithmetic.range limit args) (Arithmetic.range limit' args) := by
  have hprogression (stop step start : Number) : Approximates c
      (ofExcept (Arithmetic.progression stop step limit start []))
      (ofExcept (Arithmetic.progression stop step limit' start [])) := by
    intro s hs
    by_cases hpasses : c.passesEnd
    · rw [hlimit.2 hpasses]
    · rw [progression_eq hlimit.1]
      intro h
      rw [h] at hs
      exact hpasses hs
  have hgo (start stop step : Number) : Approximates c
      (do
        let reversed ← ofExcept (Arithmetic.progression stop step limit start [])
        newList (← reversed.reverse.mapM ofNumber))
      (do
        let reversed ← ofExcept (Arithmetic.progression stop step limit' start [])
        newList (← reversed.reverse.mapM ofNumber)) :=
    .bind (hprogression stop step start) fun reversed => .refl _
  unfold Arithmetic.range
  dsimp only
  split
  on_goal 4 => exact .refl _
  all_goals
    refine .bind (.refl _) fun ns => ?_
    split
    on_goal 4 => exact .refl _
    all_goals exact hgo _ _ _

section

variable {c : Cutoff} {nested nested' : Nested}

def NestedApproximates (c : Cutoff) (nested nested' : Nested) : Prop :=
  ∀ job, Approximates c (nested job) (nested' job)

namespace NestedApproximates

variable (h : NestedApproximates c nested nested')
include h

theorem eval (form : Value) (scope : ScopeId) :
    Approximates c (nested.eval form scope) (nested'.eval form scope) := h (.eval form scope)

theorem evalAll (forms : List Value) (scope : ScopeId) :
    Approximates c (nested.evalAll forms scope) (nested'.evalAll forms scope) :=
  Approximates.mapM (fun form => h.eval form scope) forms

theorem expandOnce (form : Value) (scope : ScopeId) :
    Approximates c (expandOnce nested form scope) (expandOnce nested' form scope) := by
  unfold Eval.expandOnce
  refine .bind (.refl _) fun s => ?_
  split
  · exact .refl _
  · next call _ =>
    refine .bind (.refl _) fun _ => .bind (.refl _) fun inner => ?_
    exact .bind (h.eval call.body inner) fun expanded => .refl _

theorem evalEntries (scope : ScopeId) (entries : List (Value × Value)) :
    Approximates c (evalEntries nested scope entries) (evalEntries nested' scope entries) := by
  induction entries with
  | nil => exact .refl _
  | cons entry rest ih =>
    obtain ⟨k, v⟩ := entry
    unfold Eval.evalEntries
    refine .bind (h.eval k scope) fun key => .bind (h.eval v scope) fun value => ?_
    split
    · exact .bind (.refl _) fun _ => .bind ih fun entries => .refl _
    · exact .bind ih fun entries => .refl _

theorem evalAtom (form : Value) (scope : ScopeId) :
    Approximates c (evalAtom nested form scope) (evalAtom nested' form scope) := by
  unfold Eval.evalAtom
  split
  · exact .refl _
  · next items _ => exact .bind (h.evalAll items scope) fun values => .refl _
  · next entries _ _ => exact .bind (h.evalEntries scope entries) fun values => .refl _
  · exact .refl _

/-! Special forms -/

theorem runDefine (parts : List Value) (scope : ScopeId) :
    Approximates c (SpecialForm.runDefine nested parts scope)
      (SpecialForm.runDefine nested' parts scope) := by
  unfold SpecialForm.runDefine
  split
  · next form => exact .bind (h.eval form scope) fun value => .refl _
  · exact .refl _
  · exact .refl _

theorem runBody (forms : List Value) (scope : ScopeId) :
    Approximates c (SpecialForm.runBody nested forms scope)
      (SpecialForm.runBody nested' forms scope) := by
  fun_induction SpecialForm.runBody nested forms scope with
  | case1 => exact .refl _
  | case2 => exact .refl _
  | case3 form forms hforms ih =>
    rw [SpecialForm.runBody.eq_3 _ _ _ _ hforms]
    exact .bind (.discard (h.eval form scope)) fun _ => ih

theorem runConditional (parts : List Value) (scope : ScopeId) :
    Approximates c (SpecialForm.runConditional nested parts scope)
      (SpecialForm.runConditional nested' parts scope) := by
  unfold SpecialForm.runConditional
  split
  · next condition _ => exact .bind (h.eval condition scope) fun value => .refl _
  · next condition _ _ => exact .bind (h.eval condition scope) fun value => .refl _
  · exact .refl _

theorem bindEach (scope : ScopeId) (items : List Value) :
    Approximates c (SpecialForm.bindEach nested scope items)
      (SpecialForm.bindEach nested' scope items) := by
  fun_induction SpecialForm.bindEach nested scope items with
  | case1 name form rest ih =>
    rw [SpecialForm.bindEach]
    exact .bind (h.eval form scope) fun value => .bind (.refl _) fun _ => ih
  | case2 target form rest htarget =>
    rw [SpecialForm.bindEach.eq_2 _ _ _ _ _ htarget]
    exact .refl _
  | case3 items hsymbol htarget =>
    rw [SpecialForm.bindEach.eq_3 _ _ _ hsymbol htarget]
    exact .refl _

theorem runBindings (parts : List Value) (scope : ScopeId) :
    Approximates c (SpecialForm.runBindings nested parts scope)
      (SpecialForm.runBindings nested' parts scope) := by
  unfold SpecialForm.runBindings
  split
  · exact .refl _
  · next binders body =>
    split
    · exact .refl _
    · next items _ =>
      split
      · exact .refl _
      · refine .bind (.refl _) fun inner => .bind (h.bindEach inner items) fun _ => ?_
        exact h.runBody body inner

theorem runProtect (parts : List Value) (scope : ScopeId) :
    Approximates c (SpecialForm.runProtect nested parts scope)
      (SpecialForm.runProtect nested' parts scope) := by
  unfold SpecialForm.runProtect
  split
  · next body => exact .bind (h.eval body scope) fun value => .refl _
  · next body clause =>
    split
    · exact .refl _
    · exact .bind (.attempt (h.eval body scope)) fun outcome => .refl _
  · exact .refl _

theorem runSpecial (form : SpecialForm) (parts : List Value) (scope : ScopeId) :
    Approximates c (form.run nested parts scope) (form.run nested' parts scope) := by
  cases form with
  | define => exact h.runDefine parts scope
  | bindings => exact h.runBindings parts scope
  | protect => exact h.runProtect parts scope
  | sequence => exact h.runBody parts scope
  | conditional => exact h.runConditional parts scope
  | quotation | template | defineMacro | expansion | function | scopeChain | scopesOf =>
    exact .refl _

/-! Builtins -/

theorem applySpread (args : List Value) :
    Approximates c (Core.applySpread nested args) (Core.applySpread nested' args) := by
  unfold Core.applySpread
  split
  · exact .bind (.refl _) fun spread => h _
  · exact .refl _

theorem swap (args : List Value) :
    Approximates c (Cell.swap nested args) (Cell.swap nested' args) := by
  unfold Cell.swap
  split
  · refine .bind (.refl _) fun a => .bind (.refl _) fun content => ?_
    exact .bind (h _) fun value => .refl _
  · exact .refl _

theorem runCore (f : Core) {limit limit' : Nat} (hlimit : c.Extends limit limit') (args : List Value) :
    Approximates c (f.run nested limit args) (f.run nested' limit' args) := by
  cases f with
  | apply => exact h.applySpread args
  | swap => exact h.swap args
  | range => exact approximates_range hlimit args
  | _ => exact .refl _

theorem runBuiltin (f : Builtin) {limit limit' : Nat} (hlimit : c.Extends limit limit')
    (args : List Value) :
    Approximates c (runBuiltin f nested limit args) (runBuiltin f nested' limit' args) := by
  refine .inside f.name ?_
  cases f with
  | core f => exact h.runCore f hlimit args
  | numeric f => exact .refl _
  | eval => exact .bind (.refl _) fun form => h.eval form rootScope

theorem callValue {limit limit' : Nat} (hlimit : c.Extends limit limit') (f : Value)
    (args : List Value) :
    Approximates c (callValue nested limit f args) (callValue nested' limit' f args) := by
  unfold Eval.callValue
  split
  · exact .refl _
  · next f _ _ _ => exact .bind (h.runBuiltin f hlimit args) fun value => .refl _
  · exact .refl _

/-! Passes -/

theorem evalForm (form : Value) (scope : ScopeId) :
    Approximates c (evalForm nested form scope) (evalForm nested' form scope) := by
  unfold Eval.evalForm
  split
  · exact .refl _
  · next head args _ _ =>
    refine .bind (h.expandOnce _ scope) fun expanded => ?_
    split
    · exact .refl _
    · unfold Eval.evalList
      split
      · next form _ => exact h.runSpecial form args scope
      · exact .bind (h.eval head scope) fun f => .bind (h.evalAll args scope) fun values => .refl _
  · exact .bind (h.evalAtom _ scope) fun value => .refl _

theorem pass {limit limit' : Nat} (hlimit : c.Extends limit limit') (job : Job) :
    Approximates c (pass nested limit job) (pass nested' limit' job) := by
  cases job with
  | eval form scope => exact h.evalForm form scope
  | expand form scope =>
    unfold Eval.pass
    exact .bind (h.expandOnce form scope) fun expanded => .refl _
  | call f args => exact h.callValue hlimit f args

end NestedApproximates

end

end SmallLisp.Eval
