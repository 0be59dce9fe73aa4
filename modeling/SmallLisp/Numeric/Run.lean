import SmallLisp.Numeric.Aggregate
import SmallLisp.Numeric.Elementary
import SmallLisp.Numeric.Extreme
import SmallLisp.Numeric.Integer

/-!
# The numeric functions

What each numeric function does with its arguments.
-/

namespace SmallLisp.Numeric

/-- The function with one argument that a numeric function is, unless it takes more. -/
def unary? : Numeric → Option (Value → Except HostFault Outcome)
  | acos => elementary Float.acos false
  | acosh => elementary Float.acosh false
  | asin => elementary Float.asin false
  | asinh => elementary Float.asinh false
  | atan => elementary Float.atan false
  | atanh => elementary Float.atanh false
  | cbrt => elementary Float.cbrt false
  | cos => elementary Float.cos false
  | cosh => elementary Float.cosh true
  | exp => elementary Float.exp true
  | exp2 => elementary Float.exp2 true
  | expm1 => elementary Analysis.expm1 true
  | fabs => elementary Float.abs false
  | log1p => elementary Analysis.log1p false
  | sin => elementary Float.sin false
  | sinh => elementary Float.sinh true
  | sqrt => elementary Float.sqrt false
  | tan => elementary Float.tan false
  | tanh => elementary Float.tanh false
  | degrees => doubles (Elementary.free fun x => x * (180.0 / Analysis.pi))
  | radians => doubles (Elementary.free fun x => x * (Analysis.pi / 180.0))
  | erf => doubles (Elementary.free Analysis.erf)
  | erfc => doubles (Elementary.free Analysis.erfc)
  | gamma => doubles (Elementary.ofGamma Analysis.gamma)
  | lgamma => doubles (Elementary.ofGamma Analysis.lgamma)
  | log2 => doubles (Elementary.logarithm Float.log2)
  | log10 => doubles (Elementary.logarithm Float.log10)
  | ulp => doubles fun v => do return (← v.toDouble).map Flonum.spacing
  | fsum => doubles Aggregate.fsum
  | frexp => some Elementary.frexp
  | modf => some Elementary.modf
  | isfinite => truths fun x => x.any (·.isFinite)
  | isinf => truths fun x => x.any (·.isInfinite)
  | isnan => truths fun x => x.isNone
  | ceil => integers (Integral.wholeOf Flonum.ceiling)
  | floor => integers (Integral.wholeOf Flonum.floor)
  | trunc => integers Integral.trunc
  | factorial => integers Integral.factorial
  | isqrt => integers Integral.isqrt
  | _ => none
where
  doubles (f : Value → Except HostFault Double) : Option (Value → Except HostFault Outcome) :=
    some fun v => Outcome.double <$> f v
  elementary (f : Float → Float) (unbounded : Bool) :
      Option (Value → Except HostFault Outcome) :=
    doubles (Elementary.unary f unbounded)
  integers (f : Value → Except HostFault Int) : Option (Value → Except HostFault Outcome) :=
    some fun v => Outcome.int <$> f v
  truths (f : Double → Bool) : Option (Value → Except HostFault Outcome) :=
    some fun v => do return .truth (f (← v.toDouble))

def binary? : Numeric → Option (Value → Value → Except HostFault Outcome)
  | atan2 => doubles Elementary.atan2
  | copysign => doubles Elementary.copysign
  | dist => doubles Aggregate.dist
  | fmod => doubles (Elementary.binary Elementary.fmod)
  | remainder => doubles (Elementary.binary Elementary.remainder)
  | nextafter => doubles (Elementary.binary Elementary.nextafter)
  | pow => doubles Elementary.pow
  | ldexp => doubles Elementary.ldexp
  | comb => some fun v w => Outcome.int <$> Integral.comb v w
  | _ => none
where
  doubles (f : Value → Value → Except HostFault Double) :
      Option (Value → Value → Except HostFault Outcome) :=
    some fun v w => Outcome.double <$> f v w

def apply (f : Numeric) (args : List Value) : Except HostFault Outcome :=
  match f with
  | log => Outcome.double <$> Elementary.log args
  | perm => Outcome.int <$> Integral.perm args
  | gcd => Outcome.int <$> Integral.gcd args
  | lcm => Outcome.int <$> Integral.lcm args
  | hypot => Outcome.double <$> Aggregate.hypot args
  | prod => Aggregate.prod args
  | isclose =>
    match args with
    | [v, w] => Outcome.truth <$> Elementary.isclose v w
    | [] => .error (.counts (.missing "isclose" "a" 1))
    | [_] => .error (.counts (.missing "isclose" "b" 2))
    | [_, _, _] | [_, _, _, _] => .error (.counts (.takesExactly "isclose" 2 args.length))
    | _ => .error (.counts (.takesAtMost "isclose" 4 args.length))
  | abs => Integral.abs args
  | round => Integral.round args
  | max => Outcome.value <$> Comparison.greater.choose "max" args
  | min => Outcome.value <$> Comparison.less.choose "min" args
  | f =>
    match f.unary?, f.binary? with
    | some g, _ => do g (← oneArgument ("math." ++ f.name) args)
    | none, some g => do
      let (v, w) ← twoArguments f.name args
      g v w
    | none, none => .error .domain

def run (f : Numeric) (args : List Value) : Eval Value := do
  (← Eval.ofHost (f.apply args)).toValue

end SmallLisp.Numeric
