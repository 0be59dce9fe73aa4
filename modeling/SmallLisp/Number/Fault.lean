/-!
# Faults of the functions below the language

The numeric functions, the conversions between numbers and text and the maps have limits and
demands of their own. A function of the language that meets one of these faults reports it under
its own name.
-/

namespace SmallLisp

/-- A wrong count of arguments, in the different ways in which functions state their counts. -/
inductive CountFault where
  | takesOne (function : String) (given : Nat)
  | takesAtMost (function : String) (count given : Nat)
  | takesExactly (function : String) (count given : Nat)
  | expected (function bound : String) (count given : Nat)
  | missing (function parameter : String) (position : Nat)
  | logarithm
  deriving DecidableEq

def counted (n : Nat) (noun : String) : String :=
  toString n ++ " " ++ noun ++ if n = 1 then "" else "s"

def CountFault.message : CountFault → String
  | takesOne function given =>
    function ++ "() takes exactly one argument (" ++ toString given ++ " given)"
  | takesAtMost function count given =>
    function ++ "() takes at most " ++ counted count "argument" ++ " (" ++ toString given ++
      " given)"
  | takesExactly function count given =>
    function ++ "() takes exactly " ++ counted count "positional argument" ++ " (" ++
      toString given ++ " given)"
  | expected function bound count given =>
    function ++ " expected " ++ bound ++ counted count "argument" ++ ", got " ++ toString given
  | missing function parameter position =>
    function ++ "() missing required argument '" ++ parameter ++ "' (pos " ++ toString position ++
      ")"
  | logarithm => "math.log requires 1 to 2 arguments"

/-- Why a function below the language refuses its arguments. -/
inductive HostFault where
  | digitLimit (digits : Option Nat)
  | unhashable (type : String)
  | integerTooLarge
  | quotientTooLarge
  | nanToInteger
  | infinityToInteger
  | zeroDivisor
  | domain
  | range
  | counts (fault : CountFault)
  | notReal (type : String)
  | notInteger (type : String)
  | notIterable (type : String)
  | notOrdered (operator left right : String)
  | noProduct (left right : String)
  | sequenceTimes (type : String)
  | indexTooLarge
  | noAbsolute (type : String)
  | noMethod (type method : String)
  | emptyArgument (function : String)
  | negativeFactorial
  | factorialTooLarge
  | negativeRoot
  | negativeCount (parameter : String)
  | countTooLarge (parameter : String)
  | exponentNotInteger
  | sumOverflow
  | oppositeInfinities
  | dimensions
  | roundedTooLarge
  | limitTooLarge
  deriving DecidableEq

def HostFault.message : HostFault → String
  | digitLimit digits =>
    "Exceeds the limit (4300 digits) for integer string conversion" ++
      (match digits with
        | some n => ": value has " ++ toString n ++ " digits"
        | none => "") ++
      "; use sys.set_int_max_str_digits() to increase the limit"
  | unhashable type => "unhashable type: '" ++ type ++ "'"
  | integerTooLarge => "int too large to convert to float"
  | quotientTooLarge => "integer division result too large for a float"
  | nanToInteger => "cannot convert float NaN to integer"
  | infinityToInteger => "cannot convert float infinity to integer"
  | zeroDivisor => "float division by zero"
  | domain => "math domain error"
  | range => "math range error"
  | counts fault => fault.message
  | notReal type => "must be real number, not " ++ type
  | notInteger type => "'" ++ type ++ "' object cannot be interpreted as an integer"
  | notIterable type => "'" ++ type ++ "' object is not iterable"
  | notOrdered operator left right =>
    "'" ++ operator ++ "' not supported between instances of '" ++ left ++ "' and '" ++ right ++
      "'"
  | noProduct left right =>
    "unsupported operand type(s) for *: '" ++ left ++ "' and '" ++ right ++ "'"
  | sequenceTimes type => "can't multiply sequence by non-int of type '" ++ type ++ "'"
  | indexTooLarge => "cannot fit 'int' into an index-sized integer"
  | noAbsolute type => "bad operand type for abs(): '" ++ type ++ "'"
  | noMethod type method => "type " ++ type ++ " doesn't define " ++ method ++ " method"
  | emptyArgument function => function ++ "() arg is an empty sequence"
  | negativeFactorial => "factorial() not defined for negative values"
  | factorialTooLarge => "factorial() argument should not exceed 9223372036854775807"
  | negativeRoot => "isqrt() argument must be nonnegative"
  | negativeCount parameter => parameter ++ " must be a non-negative integer"
  | countTooLarge parameter => parameter ++ " must not exceed 9223372036854775807"
  | exponentNotInteger => "Expected an int as second argument to ldexp."
  | sumOverflow => "intermediate overflow in fsum"
  | oppositeInfinities => "-inf + inf in fsum"
  | dimensions => "both points must have the same number of dimensions"
  | roundedTooLarge => "rounded value too large to represent"
  | limitTooLarge => "Python int too large to convert to C int"

end SmallLisp
