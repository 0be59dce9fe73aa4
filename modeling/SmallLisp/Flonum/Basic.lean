/-!
# Flonums

A flonum is a double that is a number: finite or infinite, with a sign. The magnitudes of the
doubles, infinity last, are numbered from zero in increasing order, and a flonum keeps its sign
and the number of its magnitude. Consecutive numbers are neighbours on the grid of doubles, which
makes rounding and comparison arithmetic on natural numbers.
-/

namespace SmallLisp

/-- The place of infinity among the magnitudes. -/
def infinityMag : Nat := 0x7FF0000000000000

/-- A double other than NaN. -/
structure Flonum where
  neg : Bool
  mag : Nat
  mag_le : mag ≤ infinityMag
  deriving DecidableEq

namespace Flonum

theorem ext {x y : Flonum} (hneg : x.neg = y.neg) (hmag : x.mag = y.mag) : x = y := by
  cases x; cases y; simp_all

def zero (neg : Bool) : Flonum := ⟨neg, 0, Nat.zero_le _⟩

def infinity (neg : Bool) : Flonum := ⟨neg, infinityMag, Nat.le_refl _⟩

instance : Inhabited Flonum := ⟨zero false⟩

def isZero (x : Flonum) : Bool := x.mag == 0

def isInfinite (x : Flonum) : Bool := x.mag == infinityMag

def isFinite (x : Flonum) : Bool := !x.isInfinite

/-- The flonum of magnitude number `mag`, or infinity where the numbering ends. -/
def ofMag (neg : Bool) (mag : Nat) : Flonum :=
  ⟨neg, min mag infinityMag, Nat.min_le_right _ _⟩

@[simp] theorem ofMag_mag (x : Flonum) : ofMag x.neg x.mag = x :=
  ext rfl (Nat.min_eq_left x.mag_le)

/-- The magnitudes fall into blocks of `2 ^ 52`, and inside a block neighbours are
`2 ^ scale` units apart. The first two blocks share the scale zero. -/
def scale (x : Flonum) : Nat := x.mag / Nat.pow 2 52 - 1

def significand (x : Flonum) : Nat := x.mag - x.scale * Nat.pow 2 52

theorem mag_eq (x : Flonum) : x.mag = x.scale * Nat.pow 2 52 + x.significand := by
  unfold significand scale
  simp only [Nat.pow_eq]
  omega

/-- The magnitude in units of `2 ^ -1074`, the least positive double. -/
def units (x : Flonum) : Nat := x.significand * Nat.pow 2 x.scale

def oneUnits : Nat := Nat.pow 2 1074

theorem oneUnits_pos : 0 < oneUnits := by
  rw [oneUnits, Nat.pow_eq]
  exact Nat.two_pow_pos _

def signedUnits (x : Flonum) : Int := if x.neg then -(x.units : Int) else x.units

def toFloat (x : Flonum) : Float :=
  Float.ofBits (x.mag + if x.neg then Nat.pow 2 63 else 0).toUInt64

/-- The flonum of a double of the machine, unless that is a NaN. -/
def ofFloat? (d : Float) : Option Flonum :=
  let bits := d.toBits.toNat
  let mag := bits % Nat.pow 2 63
  if h : mag ≤ infinityMag then some ⟨Nat.pow 2 63 ≤ bits, mag, h⟩ else none

def integer? (x : Flonum) : Option Int :=
  if x.isFinite && x.units % oneUnits == 0 then
    some (if x.neg then -((x.units / oneUnits : Nat) : Int) else (x.units / oneUnits : Nat))
  else none

def truncated (x : Flonum) : Int :=
  if x.neg then -((x.units / oneUnits : Nat) : Int) else (x.units / oneUnits : Nat)

def negate (x : Flonum) : Flonum := { x with neg := !x.neg }

def abs (x : Flonum) : Flonum := { x with neg := false }

end Flonum

end SmallLisp
