import Mathlib.Tactic
import SmallLisp.Number.Basic

/-!
# The order of numbers

A number other than NaN has an exact value: a rational number, or one of two ends below and above
all rational numbers for the infinities. Numbers are compared by these values, whichever of them
are integers and whichever are flonums, so that no comparison rounds.
-/

namespace SmallLisp

/-- The rational numbers between two ends. -/
abbrev ExactValue := WithBot (WithTop ℚ)

def ExactValue.finite (q : ℚ) : ExactValue := ((q : WithTop ℚ) : WithBot (WithTop ℚ))

theorem ExactValue.finite_lt_finite {p q : ℚ} : finite p < finite q ↔ p < q := by
  rw [finite, finite, WithBot.coe_lt_coe, WithTop.coe_lt_coe]

theorem ExactValue.finite_lt_top (q : ℚ) : finite q < ⊤ := by
  rw [finite, ← WithBot.coe_top, WithBot.coe_lt_coe]
  exact WithTop.coe_lt_top q

theorem ExactValue.bot_lt_finite (q : ℚ) : ⊥ < finite q := WithBot.bot_lt_coe _

namespace Flonum

theorem oneUnits_cast_pos : (0 : ℚ) < oneUnits := Nat.cast_pos.2 oneUnits_pos

def exact (x : Flonum) : ExactValue :=
  if x.isInfinite then (if x.neg then ⊥ else ⊤) else .finite (x.signedUnits / oneUnits)

end Flonum

namespace Number

/-- The exact value of a number; NaN has none. -/
def exactValue? : Number → Option ExactValue
  | int n => some (.finite n)
  | float x => some x.exact
  | nan => none

def Place.exact : Place → ExactValue
  | bottom => ⊥
  | .at units => .finite (units / Flonum.oneUnits)
  | top => ⊤

theorem exactValue?_eq_map (n : Number) : n.exactValue? = n.place?.map Place.exact := by
  cases n with
  | int n =>
    have hunits : ((n * (Flonum.oneUnits : Int) : Int) : ℚ) / Flonum.oneUnits = n := by
      rw [Int.cast_mul, Int.cast_natCast, mul_div_cancel_right₀ _ Flonum.oneUnits_cast_pos.ne']
    simp only [exactValue?, place?, Option.map_some, Place.exact, hunits]
  | float x =>
    simp only [exactValue?, place?, Flonum.exact, Option.map_some]
    split_ifs <;> rfl
  | nan => rfl

theorem Place.exact_lt_exact : ∀ {p q : Place}, p.exact < q.exact ↔ p.lt q = true
  | bottom, bottom => iff_of_false (lt_irrefl _) Bool.false_ne_true
  | bottom, .at _ => iff_of_true (ExactValue.bot_lt_finite _) rfl
  | bottom, top => iff_of_true bot_lt_top rfl
  | .at _, bottom => iff_of_false not_lt_bot Bool.false_ne_true
  | .at a, .at b => by
    rw [exact, exact, ExactValue.finite_lt_finite,
      div_lt_div_iff_of_pos_right Flonum.oneUnits_cast_pos, Int.cast_lt, lt, decide_eq_true_eq]
  | .at _, top => iff_of_true (ExactValue.finite_lt_top _) rfl
  | top, _ => iff_of_false not_top_lt Bool.false_ne_true

theorem Place.exact_injective : Function.Injective Place.exact := by
  intro p q h
  have hbelow : ¬p.lt q = true := fun hlt => (exact_lt_exact.2 hlt).ne h
  have habove : ¬q.lt p = true := fun hlt => (exact_lt_exact.2 hlt).ne h.symm
  cases p with
  | bottom => cases q <;> simp_all only [lt, not_true_eq_false]
  | «at» a =>
    cases q with
    | bottom => exact absurd rfl habove
    | «at» b =>
      rw [lt, decide_eq_true_eq] at hbelow habove
      exact congrArg Place.at (by omega)
    | top => exact absurd rfl hbelow
  | top => cases q <;> simp_all only [lt, not_true_eq_false]

section

variable {a b : Number} {x y : ExactValue}

theorem exists_place_of_exact (h : a.exactValue? = some x) :
    ∃ p, a.place? = some p ∧ p.exact = x := by
  rw [exactValue?_eq_map, Option.map_eq_some_iff] at h
  exact h

/-- Numbers are ordered as their exact values are. -/
theorem lt_iff_exact (ha : a.exactValue? = some x) (hb : b.exactValue? = some y) :
    a.lt b = true ↔ x < y := by
  obtain ⟨p, hp, rfl⟩ := exists_place_of_exact ha
  obtain ⟨q, hq, rfl⟩ := exists_place_of_exact hb
  rw [lt_iff_place hp hq, Place.exact_lt_exact]

theorem eq_iff_exact (ha : a.exactValue? = some x) (hb : b.exactValue? = some y) :
    a.eq b = true ↔ x = y := by
  obtain ⟨p, hp, rfl⟩ := exists_place_of_exact ha
  obtain ⟨q, hq, rfl⟩ := exists_place_of_exact hb
  rw [eq_iff_place hp hq, Place.exact_injective.eq_iff]

theorem le_iff_exact (ha : a.exactValue? = some x) (hb : b.exactValue? = some y) :
    a.le b = true ↔ x ≤ y := by
  rw [le, Bool.or_eq_true, lt_iff_exact ha hb, eq_iff_exact ha hb, le_iff_lt_or_eq]

end

theorem exactValue?_eq_none_iff {n : Number} : n.exactValue? = none ↔ n = nan := by
  cases n <;> simp [exactValue?]

theorem ne_nan_of_exact {n : Number} {x : ExactValue} (h : n.exactValue? = some x) : n ≠ nan := by
  rintro rfl
  cases h

section

variable {a b : Number}

theorem lt_of_none (h : a.exactValue? = none ∨ b.exactValue? = none) : a.lt b = false := by
  rw [exactValue?_eq_none_iff, exactValue?_eq_none_iff] at h
  obtain rfl | rfl := h
  · rfl
  · cases a <;> rfl

theorem eq_of_none (h : a.exactValue? = none ∨ b.exactValue? = none) : a.eq b = false := by
  rw [exactValue?_eq_none_iff, exactValue?_eq_none_iff] at h
  obtain rfl | rfl := h
  · rfl
  · cases a <;> rfl

theorem le_of_none (h : a.exactValue? = none ∨ b.exactValue? = none) : a.le b = false := by
  rw [le, lt_of_none h, eq_of_none h]
  rfl

end

end Number

end SmallLisp
