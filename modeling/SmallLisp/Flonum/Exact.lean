import SmallLisp.Flonum.Nearest

/-!
# Exact operations on flonums

Operations whose result is the flonum nearest to an exact value, computed in units. Remainders,
parts and neighbours are flonums themselves and need no rounding.
-/

namespace SmallLisp.Flonum

def ofUnits (neg : Bool) (units : Nat) : Flonum := nearest neg units oneUnits

/-- The flonum nearest to a signed number of units; no units are a positive zero. -/
def ofSignedUnits (units : Int) : Flonum := ofUnits (units < 0) units.natAbs

def withSign (x : Flonum) (neg : Bool) : Flonum := { x with neg := neg }

def one : Flonum := ofUnits false oneUnits

def above (x : Flonum) : Flonum :=
  if x.isZero then ofMag false 1
  else if x.neg then ofMag true (x.mag - 1)
  else ofMag false (x.mag + 1)

def below (x : Flonum) : Flonum := x.negate.above.negate

/-- The distance to the next greater magnitude, or from the greatest finite one to the magnitude
before it. -/
def spacing (x : Flonum) : Flonum :=
  if x.isInfinite then infinity false else ofUnits false (Nat.pow 2 x.scale)

/-- The part behind the point and the part before it, both with the sign of the flonum. -/
def fractionAndWhole (x : Flonum) : Flonum × Flonum :=
  if x.isInfinite then (zero x.neg, x)
  else (ofUnits x.neg (x.units % oneUnits), ofUnits x.neg (x.units / oneUnits * oneUnits))

/-- A magnitude from a half to below one and the power of two that it is multiplied by. -/
def mantissaAndExponent (x : Flonum) : Flonum × Int :=
  if x.isZero || x.isInfinite then (x, 0)
  else
    let bits := Nat.log2 x.units + 1
    (nearest x.neg x.units (Nat.pow 2 bits), (bits : Int) - 1074)

/-- The flonum nearest to `x * 2 ^ exponent`. Exponents that lead far beyond either end of the
flonums are cut off. -/
def timesTwoPow (x : Flonum) (exponent : Int) : Flonum :=
  if x.isInfinite then x
  else if 0 ≤ exponent then ofUnits x.neg (x.units * Nat.pow 2 (min exponent.toNat 4000))
  else nearest x.neg x.units (oneUnits * Nat.pow 2 (min (-exponent).toNat 4000))

/-- The remainder of the truncated quotient, with the sign of the dividend. The divisor is not
zero and the dividend finite. -/
def truncatedRemainder (x y : Flonum) : Flonum :=
  if y.isInfinite then x else ofUnits x.neg (x.units % y.units)

/-- The remainder of the quotient rounded to the nearest integer, and from half way to the even
one. -/
def nearestRemainder (x y : Flonum) : Flonum :=
  if y.isInfinite then x
  else
    let rest := (x.units : Int) - (roundedQuotient x.units y.units * y.units : Nat)
    ofUnits (x.neg != decide (rest < 0)) rest.natAbs

/-- The flonum nearest to the square root of a number of square units. -/
def rootOfSquareUnits (square : Nat) : Flonum :=
  let scale := scaleOf (Nat.sqrt square)
  let root := Nat.sqrt (square / Nat.pow 4 scale)
  let half := Nat.pow (2 * root + 1) 2 * Nat.pow 4 scale
  let rounded :=
    if half < 4 * square || (half == 4 * square && root % 2 == 1) then root + 1 else root
  ofMag false (scale * Nat.pow 2 52 + rounded)

def length (coordinates : List Flonum) : Flonum :=
  rootOfSquareUnits (coordinates.foldl (fun sum x => sum + x.units.pow 2) 0)

/-- The nearest integer, and from half way the even one. -/
def rounded (x : Flonum) : Int :=
  let n : Int := roundedQuotient x.units oneUnits
  if x.neg then -n else n

def floor (x : Flonum) : Int := x.signedUnits.fdiv oneUnits

def ceiling (x : Flonum) : Int := -x.negate.floor

/-- The flonum nearest to the decimal with `places` digits behind the point that is nearest to
`x`, or with zeros before the point if `places` is negative. From half way between two decimals
the even one counts. -/
def roundedTo (x : Flonum) (places : Int) : Flonum :=
  if x.isInfinite || 323 < places then x
  else if places < -308 then zero x.neg
  else if 0 ≤ places then
    ofDecimal x.neg (roundedQuotient (x.units * Nat.pow 10 places.toNat) oneUnits) (-places)
  else
    ofDecimal x.neg (roundedQuotient x.units (oneUnits * Nat.pow 10 (-places).toNat)) (-places)

end SmallLisp.Flonum
