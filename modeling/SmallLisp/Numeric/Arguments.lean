import SmallLisp.Core.Arguments
import SmallLisp.Flonum.Exact

/-!
# Arguments and results of the numeric functions

The numeric functions take truth values as zero and one, and complain in words of their own. They
compute without the store; what needs an identity is made when they have returned.
-/

namespace SmallLisp

/-- A double: a flonum, or `none` for NaN. -/
abbrev Double := Option Flonum

namespace Double

def toMachine : Double → Float
  | some x => x.toFloat
  | none => 0.0 / 0.0

def ofMachine (d : Float) : Double := Flonum.ofFloat? d

def number : Double → Number
  | some x => .float x
  | none => .nan

end Double

namespace Value

/-- The number that a value counts as for the numeric functions. -/
def quantity? : Value → Option Number
  | bool b => some (.int (if b then 1 else 0))
  | v => v.number?

def toDouble (v : Value) : Except HostFault Double :=
  match v.quantity? with
  | some (.int n) =>
    match Flonum.ofInt? n with
    | some x => .ok (some x)
    | none => .error .integerTooLarge
  | some (.float x) => .ok (some x)
  | some .nan => .ok none
  | none => .error (.notReal v.typeName)

def toInteger (v : Value) : Except HostFault Int :=
  match v.quantity? with
  | some (.int n) => .ok n
  | _ => .error (.notInteger v.typeName)

/-- What an argument yields one by one: elements, characters or keys. -/
def toItems (v : Value) : Except HostFault (List Value) :=
  match v with
  | str s => .ok (s.toList.map fun c => str (String.singleton c))
  | map _ entries _ _ => .ok (entries.map (·.1))
  | pair _ first second => .ok [first, second]
  | v =>
    match v.sequence? with
    | some items => .ok items
    | none => .error (.notIterable v.typeName)

end Value

/-- What a numeric function returns: a value it was given, a number, a pair of numbers, or the
elements of a list. -/
inductive Outcome where
  | value (v : Value)
  | number (n : Number)
  | pair (first second : Number)
  | items (vs : List Value)

namespace Outcome

def int (n : Int) : Outcome := number (.int n)

def double (d : Double) : Outcome := number d.number

def truth (b : Bool) : Outcome := value (.bool b)

/-- The value of a result; NaNs, pairs and lists are new objects. -/
def toValue : Outcome → Eval Value
  | value v => return v
  | number n => Eval.ofNumber n
  | pair first second => do
    let a ← Eval.ofNumber first
    let b ← Eval.ofNumber second
    return .pair (← Eval.fresh) a b
  | items vs => Eval.newList vs

end Outcome

def oneArgument (function : String) : List Value → Except HostFault Value
  | [v] => .ok v
  | args => .error (.counts (.takesOne function args.length))

def twoArguments (function : String) : List Value → Except HostFault (Value × Value)
  | [v, w] => .ok (v, w)
  | args => .error (.counts (.expected function "" 2 args.length))

end SmallLisp
