import SmallLisp.Numeric.Arguments

/-!
# Functions of integers

Counting functions, divisors and roots, all of them exact.
-/

namespace SmallLisp.Integral

def maxCount : Int := Int.pow 2 63 - 1

/-- The product of the `count` integers from `n` downwards. -/
def fallingFactorial (n count : Nat) : Nat :=
  (List.range count).foldl (fun total i => total * (n - i)) 1

def binomial (n k : Nat) : Nat := fallingFactorial n k / fallingFactorial k k

def factorial (v : Value) : Except HostFault Int := do
  let n ← v.toInteger
  if n < 0 then .error .negativeFactorial
  else if maxCount < n then .error .factorialTooLarge
  else return fallingFactorial n.toNat n.toNat

def comb (v w : Value) : Except HostFault Int := do
  let n ← v.toInteger
  let k ← w.toInteger
  if n < 0 then .error (.negativeCount "n")
  else if k < 0 then .error (.negativeCount "k")
  else if n < k then return 0
  else
    let least := min k (n - k)
    if maxCount < least then .error (.countTooLarge "min(n - k, k)")
    else return binomial n.toNat least.toNat

/-- The number of ways to choose and arrange `k` things out of `n`, or all `n`. -/
def perm (args : List Value) : Except HostFault Int :=
  match args with
  | [v] => factorial v
  | [v, w] => do
    let n ← v.toInteger
    let k ← w.toInteger
    if n < 0 then .error (.negativeCount "n")
    else if k < 0 then .error (.negativeCount "k")
    else if n < k then return 0
    else if maxCount < k then .error (.countTooLarge "k")
    else return fallingFactorial n.toNat k.toNat
  | [] => .error (.counts (.expected "perm" "at least " 1 0))
  | _ => .error (.counts (.expected "perm" "at most " 2 args.length))

def isqrt (v : Value) : Except HostFault Int := do
  let n ← v.toInteger
  if n < 0 then .error .negativeRoot else return Nat.sqrt n.toNat

def gcd (args : List Value) : Except HostFault Int := do
  let ns ← args.mapM Value.toInteger
  return (ns.foldl (fun total n => Nat.gcd total n.natAbs) 0 : Nat)

def lcm (args : List Value) : Except HostFault Int := do
  let ns ← args.mapM Value.toInteger
  return (ns.foldl (fun total n => Nat.lcm total n.natAbs) 1 : Nat)

/-- An integer part; integers are their own. -/
def wholeBy (f : Flonum → Int) (x : Double) : Except HostFault Int :=
  match x with
  | some x => if x.isInfinite then .error .infinityToInteger else .ok (f x)
  | none => .error .nanToInteger

/-- Round with a function that stands for itself: what is no number is not real. -/
def wholeOf (f : Flonum → Int) (v : Value) : Except HostFault Int := do
  match v.quantity? with
  | some (.int n) => return n
  | _ => wholeBy f (← v.toDouble)

def trunc (v : Value) : Except HostFault Int :=
  match v.quantity? with
  | some n => n.truncated
  | none => .error (.noMethod v.typeName "__trunc__")

/-- The multiple of `10 ^ digits` nearest to an integer, and from half way the even multiple. -/
def roundedInteger (n : Int) (digits : Nat) : Int :=
  if (Nat.toDigits 10 n.natAbs).length < digits then 0
  else
    let multiple := Nat.pow 10 digits
    let rounded : Int := Flonum.roundedQuotient n.natAbs multiple * multiple
    if n < 0 then -rounded else rounded

def round (args : List Value) : Except HostFault Outcome :=
  match args with
  | [v] =>
    match v.quantity? with
    | some (.int n) => .ok (.int n)
    | some (.float x) => do return .int (← wholeBy Flonum.rounded (some x))
    | some .nan => do return .int (← wholeBy Flonum.rounded none)
    | none => .error (.noMethod v.typeName "__round__")
  | [v, w] =>
    match v.quantity? with
    | some (.int n) => do
      let places ← w.toInteger
      return .int (if 0 ≤ places then n else roundedInteger n (-places).toNat)
    | some (.float x) => do
      let y := x.roundedTo (← w.toInteger)
      if x.isFinite && y.isInfinite then .error .roundedTooLarge else return .double (some y)
    | some .nan => do
      let _ ← w.toInteger
      return .number .nan
    | none => .error (.noMethod v.typeName "__round__")
  | [] => .error (.counts (.missing "round" "number" 1))
  | _ => .error (.counts (.takesAtMost "round" 2 args.length))

def abs (args : List Value) : Except HostFault Outcome := do
  let v ← oneArgument "abs" args
  match v.quantity? with
  | some n => return .number n.abs
  | none => .error (.noAbsolute v.typeName)

end SmallLisp.Integral
