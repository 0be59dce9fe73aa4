import SmallLisp.Analysis.ErrorFunction
import SmallLisp.Analysis.Exponential
import SmallLisp.Analysis.Gamma
import SmallLisp.Numeric.Arguments

/-!
# Elementary functions

Functions of one or two doubles. A NaN that comes out of numbers is a domain error. An infinity
that comes out of a finite number is a range error where the function grows without bound, and a
domain error where it has a pole.
-/

namespace SmallLisp.Elementary

def checked (unbounded : Bool) (x r : Double) : Except HostFault Double :=
  match x, r with
  | some _, none => .error .domain
  | some x, some y =>
    if x.isFinite && y.isInfinite then .error (if unbounded then .range else .domain)
    else .ok (some y)
  | none, r => .ok r

def unary (f : Float → Float) (unbounded : Bool) (v : Value) : Except HostFault Double := do
  let x ← v.toDouble
  checked unbounded x (.ofMachine (f x.toMachine))

/-- A function of one double without errors. -/
def free (f : Float → Float) (v : Value) : Except HostFault Double := do
  return .ofMachine (f (← v.toDouble).toMachine)

def ofGamma (f : Float → Except Analysis.GammaFault Float) (v : Value) :
    Except HostFault Double := do
  match f (← v.toDouble).toMachine with
  | .ok y => return .ofMachine y
  | .error .pole => .error .domain
  | .error .overflow => .error .range

def binary (f : Flonum → Flonum → Except HostFault Flonum) (v w : Value) :
    Except HostFault Double := do
  match ← v.toDouble, ← w.toDouble with
  | some x, some y => return some (← f x y)
  | _, _ => return none

def atan2 (v w : Value) : Except HostFault Double := do
  let y ← v.toDouble
  let x ← w.toDouble
  return .ofMachine (Float.atan2 y.toMachine x.toMachine)

def fmod (x y : Flonum) : Except HostFault Flonum :=
  if x.isInfinite || y.isZero then .error .domain else .ok (x.truncatedRemainder y)

def remainder (x y : Flonum) : Except HostFault Flonum :=
  if x.isInfinite || y.isZero then .error .domain else .ok (x.nearestRemainder y)

/-- The magnitude of the first double with the sign of the second. NaN counts as positive. -/
def copysign (v w : Value) : Except HostFault Double := do
  let x ← v.toDouble
  let y ← w.toDouble
  let neg := match y with
    | some y => y.neg
    | none => false
  return x.map fun x => x.withSign neg

def nextafter (x y : Flonum) : Except HostFault Flonum :=
  if x.signedUnits == y.signedUnits then .ok y
  else .ok (if x.signedUnits < y.signedUnits then x.above else x.below)

/-- A power. One is every zeroth power, also of NaN, and every power of one. -/
def pow (v w : Value) : Except HostFault Double := do
  let x ← v.toDouble
  let y ← w.toDouble
  let r : Double := .ofMachine (Float.pow x.toMachine y.toMachine)
  match x, y, r with
  | some _, some _, none => .error .domain
  | some a, some b, some p =>
    if a.isFinite && b.isFinite && p.isInfinite then
      .error (if a.isZero then .domain else .range)
    else return r
  | _, _, r => return r

/-- A positive integer as a double below one and the power of two that it is multiplied by. -/
def scaledInteger (n : Nat) : Flonum × Nat :=
  let bits := Nat.log2 n + 1
  let x := Flonum.nearest false n (Nat.pow 2 bits)
  if x = Flonum.one then (.nearest false 1 2, bits + 1) else (x, bits)

/-- A logarithm. The logarithm of an integer beyond the doubles is put together from that of its
leading digits and that of a power of two. -/
def logarithm (f : Float → Float) (v : Value) : Except HostFault Double :=
  match v.quantity? with
  | some (.int n) =>
    if n ≤ 0 then .error .domain
    else
      match Flonum.ofInt? n with
      | some x => .ok (.ofMachine (f x.toFloat))
      | none =>
        let (x, bits) := scaledInteger n.natAbs
        .ok (.ofMachine (f x.toFloat + f 2.0 * Float.ofNat bits))
  | _ => unary f false v

def log (args : List Value) : Except HostFault Double :=
  match args with
  | [v] => logarithm Float.log v
  | [v, base] => do
    let num ← logarithm Float.log v
    let den ← logarithm Float.log base
    if den.toMachine == 0.0 then .error .zeroDivisor
    else return .ofMachine (num.toMachine / den.toMachine)
  | _ => .error (.counts .logarithm)

def frexp (v : Value) : Except HostFault Outcome := do
  match ← v.toDouble with
  | some x =>
    let (mantissa, exponent) := x.mantissaAndExponent
    return .pair (.float mantissa) (.int exponent)
  | none => return .pair .nan (.int 0)

def modf (v : Value) : Except HostFault Outcome := do
  match ← v.toDouble with
  | some x =>
    let (fraction, whole) := x.fractionAndWhole
    return .pair (.float fraction) (.float whole)
  | none => return .pair .nan .nan

def ldexp (v w : Value) : Except HostFault Double := do
  let x ← v.toDouble
  match w.quantity? with
  | some (.int exponent) =>
    match x with
    | some x =>
      let y := x.timesTwoPow exponent
      if x.isFinite && y.isInfinite then .error .range else return some y
    | none => return none
  | _ => .error .exponentNotInteger

/-- Whether two doubles differ by at most a billionth of the greater magnitude. -/
def isclose (v w : Value) : Except HostFault Bool := do
  let a := (← v.toDouble).toMachine
  let b := (← w.toDouble).toMachine
  if a == b then return true
  else if a.isInf || b.isInf then return false
  else
    let diff := (b - a).abs
    return diff ≤ (1e-9 * b).abs || diff ≤ (1e-9 * a).abs || diff ≤ 0.0

end SmallLisp.Elementary
