import SmallLisp.Flonum.Decimal
import SmallLisp.Proofs.Flonum.Nearest
import SmallLisp.Proofs.Text.Digits

/-!
# The shortest decimal of a flonum reads back

Zeros at the end of the digits may be moved into the exponent. The exact decimal of a finite
flonum is far from both cut-offs of the conversion and reads back, hence so does the shortest one.
-/

namespace SmallLisp.Flonum

theorem ofDecimal_mul_pow (neg : Bool) {digits : ℕ} (hdigits : 0 < digits) (k : ℕ)
    (exponent : ℤ) :
    ofDecimal neg (digits * 10 ^ k) (exponent - k) = ofDecimal neg digits exponent := by
  have hne : digits * 10 ^ k ≠ 0 := by positivity
  have hplace : exponent - k + ((Nat.toDigits 10 (digits * 10 ^ k)).length : ℤ) =
      exponent + ((Nat.toDigits 10 digits).length : ℤ) := by
    rw [Text.length_toDigits_mul_pow hdigits]
    push_cast
    ring
  have hten : 0 < 10 ^ k := by positivity
  simp only [ofDecimal, Nat.pow_eq, hne, if_false, hdigits.ne', hplace]
  split
  · rfl
  · split
    · rfl
    · rcases Int.le_total k exponent with hk | hk
      -- the digits stay on the side of the numerator
      · rw [if_pos (by omega), if_pos (by omega), Nat.mul_assoc, ← Nat.pow_add]
        congr 3
        omega
      · by_cases he : 0 ≤ exponent
        · have hm : 0 < 10 ^ (k - exponent.toNat) := by positivity
          rw [if_pos he]
          rcases Int.lt_or_eq_of_le hk with hlt | heq
          · rw [if_neg (by omega), ← nearest_mul_mul neg _ 1 hm, Nat.one_mul, Nat.mul_assoc,
              ← Nat.pow_add]
            congr 3 <;> omega
          · rw [if_pos (by omega), Nat.mul_assoc, ← Nat.pow_add]
            congr 3
            omega
        · rw [if_neg he, if_neg (by omega), ← nearest_mul_mul neg digits _ hten, ← Nat.pow_add]
          congr 2
          omega

/-- Powers with large exponents are never evaluated, only multiplied. -/
theorem pow_mul_pow {a m n k : ℕ} (h : m + n = k) : a ^ m * a ^ n = a ^ k := by
  rw [← pow_add, h]

theorem ten_pow (n : ℕ) : 10 ^ n = 2 ^ n * 5 ^ n := mul_pow 2 5 n

theorem units_lt_of_isFinite {x : Flonum} (h : x.isFinite = true) : x.units < 2 ^ 2098 := by
  have hmag : x.mag < infinityMag := by
    have := x.mag_le
    simp only [isFinite, isInfinite, Bool.not_eq_true', beq_eq_false_iff_ne] at h
    omega
  have hscale : x.scale ≤ 2045 := by
    simp only [infinityMag] at hmag
    rw [scale, Nat.pow_eq]
    omega
  have hpow : (2 : ℕ) ^ x.scale ≤ 2 ^ 2045 := pow_le_pow_right₀ (by norm_num) hscale
  calc x.units < 2 ^ 53 * 2 ^ x.scale :=
        Nat.mul_lt_mul_of_pos_right x.significand_bounds.1 (Nat.two_pow_pos _)
    _ ≤ 2 ^ 53 * 2 ^ 2045 := Nat.mul_le_mul_left _ hpow
    _ = 2 ^ 2098 := pow_mul_pow rfl

theorem units_pos {x : Flonum} (h : x.isZero = false) : 0 < x.units := by
  have hmag : x.mag ≠ 0 := by simpa [isZero] using h
  have hsig : 0 < x.significand := by
    rw [significand, scale, Nat.pow_eq]
    omega
  exact Nat.mul_pos hsig (Nat.two_pow_pos _)

/-- The least magnitude, `2 ^ -1074`, is above `10 ^ -324`. -/
theorem ten_pow_750_le : (10 : ℕ) ^ 750 ≤ 5 ^ 1074 := by
  have h : (2 : ℕ) ^ 125 ≤ 5 ^ 54 := by norm_num
  calc (10 : ℕ) ^ 750 = (2 ^ 125) ^ 6 * 5 ^ 750 := by rw [ten_pow, ← pow_mul]
    _ ≤ (5 ^ 54) ^ 6 * 5 ^ 750 := Nat.mul_le_mul_right _ (Nat.pow_le_pow_left h 6)
    _ = 5 ^ 324 * 5 ^ 750 := by rw [← pow_mul]
    _ = 5 ^ 1074 := pow_mul_pow rfl

/-- The greatest finite magnitude is below `2 ^ 1024`. -/
theorem two_pow_1024_le : (2 : ℕ) ^ 1024 ≤ 10 ^ 310 := by
  have h : (2 : ℕ) ^ 64 ≤ 19 * 10 ^ 18 := by norm_num
  have h' : 19 ^ 16 ≤ 10 ^ 22 := by norm_num
  calc (2 : ℕ) ^ 1024 = (2 ^ 64) ^ 16 := by rw [← pow_mul]
    _ ≤ (19 * 10 ^ 18) ^ 16 := Nat.pow_le_pow_left h 16
    _ = 19 ^ 16 * 10 ^ 288 := by rw [mul_pow, ← pow_mul]
    _ ≤ 10 ^ 22 * 10 ^ 288 := Nat.mul_le_mul_right _ h'
    _ = 10 ^ 310 := pow_mul_pow rfl

/-- The number of digits of the exact decimal stays clear of the cut-offs of the conversion. -/
theorem length_digits_exactDecimal {x : Flonum} (hfinite : x.isFinite = true)
    (hzero : x.isZero = false) :
    750 < (Nat.toDigits 10 x.exactDecimal.digits).length ∧
      (Nat.toDigits 10 x.exactDecimal.digits).length ≤ 1384 := by
  have hpos : 0 < 5 ^ 1074 := by positivity
  constructor
  · rw [← Nat.not_le, Nat.length_toDigits_le_iff (by decide) (by decide), Nat.not_lt]
    exact ten_pow_750_le.trans (Nat.le_mul_of_pos_left _ (units_pos hzero))
  · rw [Nat.length_toDigits_le_iff (by decide) (by decide)]
    calc x.units * 5 ^ 1074 < 2 ^ 2098 * 5 ^ 1074 :=
          Nat.mul_lt_mul_of_pos_right (units_lt_of_isFinite hfinite) hpos
      _ = 2 ^ 1024 * 10 ^ 1074 := by
          rw [← pow_mul_pow (show 1024 + 1074 = 2098 from rfl), mul_assoc, ← ten_pow]
      _ ≤ 10 ^ 310 * 10 ^ 1074 := Nat.mul_le_mul_right _ two_pow_1024_le
      _ = 10 ^ 1384 := pow_mul_pow rfl

theorem readsAs_exactDecimal {x : Flonum} (hfinite : x.isFinite = true) (hzero : x.isZero = false) :
    x.exactDecimal.readsAs x = true := by
  obtain ⟨hlower, hupper⟩ := length_digits_exactDecimal hfinite hzero
  have hden : 10 ^ 1074 = oneUnits * 5 ^ 1074 := by rw [oneUnits, Nat.pow_eq, ten_pow]
  have hdigits : x.exactDecimal.digits ≠ 0 := by
    rw [exactDecimal, Nat.pow_eq]
    exact (Nat.mul_pos (units_pos hzero) (by positivity)).ne'
  have hread : ofDecimal x.neg x.exactDecimal.digits (-1074) = x := by
    rw [ofDecimal, if_neg hdigits]
    dsimp only
    rw [if_neg (by omega), if_neg (by omega), if_neg (by omega)]
    change nearest x.neg (x.units * Nat.pow 5 1074) (Nat.pow 10 1074) = x
    rw [Nat.pow_eq, Nat.pow_eq, hden, nearest_mul_mul _ _ _ (by positivity), nearest_units]
  exact decide_eq_true hread

theorem ofDecimal_shortest {x : Flonum} (hfinite : x.isFinite = true) (hzero : x.isZero = false) :
    ofDecimal x.neg x.shortest.digits x.shortest.exponent = x := by
  have h := readsAs_shortest (readsAs_exactDecimal hfinite hzero)
  simpa [Decimal.readsAs] using h

theorem digits_shortest_pos {x : Flonum} (hfinite : x.isFinite = true) (hzero : x.isZero = false) :
    0 < x.shortest.digits := by
  by_contra h
  have hread := ofDecimal_shortest hfinite hzero
  rw [Nat.eq_zero_of_not_pos h, ofDecimal, if_pos rfl] at hread
  rw [← hread] at hzero
  simp [isZero, zero] at hzero

end SmallLisp.Flonum
