import SmallLisp.Flonum.Nearest
import SmallLisp.Number.Fault

/-!
# Numbers

A number is an integer of any size, a flonum or NaN. Comparison is exact: integers and flonums
are compared by their values and never converted into each other. Arithmetic on integers is
exact as well, apart from division, and as soon as one operand is a double the other one is
converted to a double.
-/

namespace SmallLisp

inductive Number where
  | int (n : Int)
  | float (x : Flonum)
  | nan
  deriving DecidableEq

namespace Number

def ofFloat (d : Float) : Number :=
  match Flonum.ofFloat? d with
  | some x => float x
  | none => nan

/-- The place of a number on the line of integers, measured in units, with the infinities at
its ends. -/
inductive Place where
  | bottom
  | at (units : Int)
  | top
  deriving DecidableEq

def Place.lt : Place → Place → Bool
  | bottom, bottom => false
  | bottom, _ => true
  | .at _, bottom => false
  | .at a, .at b => a < b
  | .at _, top => true
  | top, _ => false

/-- The place of a number; NaN has none. -/
def place? : Number → Option Place
  | int n => some (.at (n * (Flonum.oneUnits : Int)))
  | float x => some (if x.isInfinite then (if x.neg then .bottom else .top) else .at x.signedUnits)
  | nan => none

/-- Equality of values. NaN is equal to no number. -/
def eq : Number → Number → Bool
  | int a, int b => a == b
  | a, b =>
    match a.place?, b.place? with
    | some p, some q => p == q
    | _, _ => false

/-- The order of values. NaN is below no number and above none. -/
def lt : Number → Number → Bool
  | int a, int b => a < b
  | a, b =>
    match a.place?, b.place? with
    | some p, some q => p.lt q
    | _, _ => false

def le (a b : Number) : Bool := a.lt b || a.eq b

theorem eq_iff_place {a b : Number} {p q : Place} (ha : a.place? = some p)
    (hb : b.place? = some q) : a.eq b = true ↔ p = q := by
  cases a <;> cases b <;> simp only [eq, ha, hb, beq_iff_eq]
  case int.int m n =>
    obtain rfl : _ = p := Option.some.inj ha
    obtain rfl : _ = q := Option.some.inj hb
    rw [Place.at.injEq]
    exact ⟨fun h => h ▸ rfl, fun h => Int.eq_of_mul_eq_mul_right (by have := Flonum.oneUnits_pos; omega) h⟩
  case nan.nan => cases ha

theorem lt_iff_place {a b : Number} {p q : Place} (ha : a.place? = some p)
    (hb : b.place? = some q) : a.lt b = true ↔ p.lt q = true := by
  cases a <;> cases b <;> simp only [lt, ha, hb]
  case int.int m n =>
    obtain rfl : _ = p := Option.some.inj ha
    obtain rfl : _ = q := Option.some.inj hb
    simp only [Place.lt, decide_eq_true_eq]
    exact (Int.mul_lt_mul_right (Int.natCast_pos.2 Flonum.oneUnits_pos)).symm
  case nan.nan => cases ha

def toFloat : Number → Except HostFault Float
  | int n =>
    match Flonum.ofInt? n with
    | some x => .ok x.toFloat
    | none => .error .integerTooLarge
  | float x => .ok x.toFloat
  | nan => .ok (0.0 / 0.0)

/-- An operation that is exact on integers and done on doubles otherwise. -/
def lift₂ (onInts : Int → Int → Int) (onFloats : Float → Float → Float) :
    Number → Number → Except HostFault Number
  | int a, int b => .ok (int (onInts a b))
  | a, b => do
    let x ← a.toFloat
    let y ← b.toFloat
    return ofFloat (onFloats x y)

def add : Number → Number → Except HostFault Number := lift₂ (· + ·) (· + ·)

def sub : Number → Number → Except HostFault Number := lift₂ (· - ·) (· - ·)

def mul : Number → Number → Except HostFault Number := lift₂ (· * ·) (· * ·)

/-- The quotient of two numbers, `none` when the divisor is zero. The quotient of two integers
is the double nearest to their ratio. -/
def div? : Number → Number → Except HostFault (Option Number)
  | int a, int b =>
    if b = 0 then .ok none
    else
      match Flonum.ofQuotient? a b with
      | some x => .ok (some (float x))
      | none => .error .quotientTooLarge
  | a, b => do
    let x ← a.toFloat
    let y ← b.toFloat
    return if y == 0.0 then none else some (ofFloat (x / y))

def neg : Number → Number
  | int n => int (-n)
  | float x => float x.negate
  | nan => nan

def abs : Number → Number
  | int n => int n.natAbs
  | float x => float x.abs
  | nan => nan

def integer? : Number → Option Int
  | int n => some n
  | float x => x.integer?
  | nan => none

def truncated : Number → Except HostFault Int
  | int n => .ok n
  | float x => if x.isInfinite then .error .infinityToInteger else .ok x.truncated
  | nan => .error .nanToInteger

end Number

end SmallLisp
