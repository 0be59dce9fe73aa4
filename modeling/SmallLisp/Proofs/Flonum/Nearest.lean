import Mathlib.Tactic
import SmallLisp.Flonum.Nearest

/-!
# Rounding a ratio that is a flonum already

The flonum nearest to a ratio depends on the ratio alone, and a flonum is the one nearest to its
own magnitude. The second fact rests on the scale: a magnitude has at most 53 binary digits above
the scale that its number in the order of magnitudes gives it.
-/

namespace SmallLisp.Flonum

theorem roundedQuotient_mul_mul (num den : ℕ) {m : ℕ} (hm : 0 < m) :
    roundedQuotient (num * m) (den * m) = roundedQuotient num den := by
  have hq : num * m / (den * m) = num / den := Nat.mul_div_mul_right num den hm
  have hr : num * m % (den * m) = num % den * m := Nat.mul_mod_mul_right m num den
  have hlt : den * m < 2 * (num % den * m) ↔ den < 2 * (num % den) := by
    rw [← Nat.mul_assoc]
    exact Nat.mul_lt_mul_right hm
  have heq : (2 * (num % den * m) == den * m) = (2 * (num % den) == den) := by
    rw [← Nat.mul_assoc, Bool.eq_iff_iff, beq_iff_eq, beq_iff_eq]
    exact Nat.mul_left_inj (Nat.pos_iff_ne_zero.1 hm)
  simp only [roundedQuotient, hq, hr, hlt, heq]

theorem nearest_mul_mul (neg : Bool) (num den : ℕ) {m : ℕ} (hm : 0 < m) :
    nearest neg (num * m) (den * m) = nearest neg num den := by
  have hscale : num * m * oneUnits / (den * m) = num * oneUnits / den := by
    rw [Nat.mul_right_comm]
    exact Nat.mul_div_mul_right _ _ hm
  have hrounded : ∀ scale,
      roundedQuotient (num * m * oneUnits) (den * m * 2 ^ scale) =
        roundedQuotient (num * oneUnits) (den * 2 ^ scale) := by
    intro scale
    rw [Nat.mul_right_comm num, Nat.mul_right_comm den]
    exact roundedQuotient_mul_mul _ _ hm
  simp only [nearest, nearestMag, Nat.pow_eq, hscale, hrounded]

/-- The first two blocks of magnitudes share the scale zero, where the significand is the number
of the magnitude; in every other block it has 53 binary digits. -/
theorem significand_bounds (x : Flonum) :
    x.significand < 2 ^ 53 ∧ (x.scale = 0 ∨ 2 ^ 52 ≤ x.significand) := by
  unfold significand scale
  rw [Nat.pow_eq]
  omega

theorem scaleOf_units (x : Flonum) : scaleOf x.units = x.scale := by
  obtain ⟨hlt, hscale⟩ := x.significand_bounds
  rw [scaleOf, units, Nat.pow_eq]
  rcases hscale with h | h
  · rw [h, Nat.pow_zero, Nat.mul_one]
    have : Nat.log2 x.significand < 53 := by
      by_cases h0 : x.significand = 0
      · simp [h0]
      · exact (Nat.log2_lt h0).2 hlt
    omega
  · have h0 : x.significand ≠ 0 := by omega
    have hlog : Nat.log2 (x.significand * 2 ^ x.scale) = 52 + x.scale := by
      rw [Nat.log2_eq_iff (Nat.mul_ne_zero h0 (Nat.two_pow_pos _).ne')]
      constructor
      · rw [Nat.pow_add]
        exact Nat.mul_le_mul_right _ h
      · rw [show 52 + x.scale + 1 = 53 + x.scale by omega, Nat.pow_add]
        exact Nat.mul_lt_mul_of_pos_right hlt (Nat.two_pow_pos _)
    omega

/-- A flonum is the one nearest to its own magnitude. -/
theorem nearest_units (x : Flonum) : nearest x.neg x.units oneUnits = x := by
  have hdiv : x.units * oneUnits / oneUnits = x.units := Nat.mul_div_cancel _ oneUnits_pos
  have hround :
      roundedQuotient (x.units * oneUnits) (oneUnits * 2 ^ x.scale) = x.significand := by
    have : x.units * oneUnits = x.significand * (oneUnits * 2 ^ x.scale) := by
      rw [units, Nat.pow_eq, Nat.mul_assoc, Nat.mul_comm (2 ^ x.scale)]
    rw [this]
    exact roundedQuotient_mul_right _ (Nat.mul_pos oneUnits_pos (Nat.two_pow_pos _))
  have hmag : nearestMag x.units oneUnits = x.mag := by
    simp only [nearestMag, hdiv, scaleOf_units, Nat.pow_eq, hround]
    exact x.mag_eq.symm
  rw [nearest, hmag, ofMag_mag]

end SmallLisp.Flonum
