import SmallLisp.Flonum.Basic

/-!
# The flonum nearest to a ratio

Rounding goes to the nearest double, and a ratio half way between two neighbours goes to the one
with the even significand. What exceeds the largest double by half a step or more rounds to
infinity.
-/

namespace SmallLisp.Flonum

/-- The quotient of two natural numbers, rounded to the nearest and from half way to even. -/
def roundedQuotient (num den : Nat) : Nat :=
  let q := num / den
  let twice := 2 * (num % den)
  if den < twice || (twice == den && q % 2 == 1) then q + 1 else q

theorem roundedQuotient_mul_right (q : Nat) {den : Nat} (h : 0 < den) :
    roundedQuotient (q * den) den = q := by
  have hne : (0 : Nat) ≠ den := by omega
  simp [roundedQuotient, Nat.mul_div_cancel _ h, hne]

/-- The scale on which a number of units has at most 53 binary digits. -/
def scaleOf (units : Nat) : Nat := Nat.log2 units - 52

/-- The place on the grid of the magnitude nearest to `num / den`. -/
def nearestMag (num den : Nat) : Nat :=
  let scale := scaleOf (num * oneUnits / den)
  scale * Nat.pow 2 52 + roundedQuotient (num * oneUnits) (den * Nat.pow 2 scale)

def nearest (neg : Bool) (num den : Nat) : Flonum := ofMag neg (nearestMag num den)

/-- The flonum nearest to an integer, unless the integer lies beyond the doubles. -/
def ofInt? (n : Int) : Option Flonum :=
  let x := nearest (n < 0) n.natAbs 1
  if x.isInfinite then none else some x

/-- The flonum nearest to the quotient of two integers, of which the second is not zero, unless
the quotient lies beyond the doubles. The sign of a zero quotient is that of the divisor. -/
def ofQuotient? (a b : Int) : Option Flonum :=
  let neg := (a < 0) != (b < 0)
  let x := nearest neg a.natAbs b.natAbs
  if x.isInfinite then none else some x

/-- The flonum nearest to `digits * 10 ^ exponent`. An exponent that puts the number far beyond
either end of the doubles is settled by the count of digits alone. -/
def ofDecimal (neg : Bool) (digits : Nat) (exponent : Int) : Flonum :=
  if digits = 0 then zero neg
  else
    let place := exponent + ((Nat.toDigits 10 digits).length : Int)
    if 310 < place then infinity neg
    else if place < -330 then zero neg
    else if 0 ≤ exponent then nearest neg (digits * Nat.pow 10 exponent.toNat) 1
    else nearest neg digits (Nat.pow 10 (-exponent).toNat)

end SmallLisp.Flonum
