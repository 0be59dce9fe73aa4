/-!
# Builtin functions and their names

Every builtin is bound to a symbol of the root scope, and messages call it by a name that may
differ from that symbol. The functions of the core namespace have a name of their own; the
forwarded ones, among them all numeric functions, go by the symbol that they are bound to.
-/

namespace SmallLisp

inductive Numeric where
  | acos | acosh | asin | asinh | atan | atan2 | atanh | cbrt
  | ceil | comb | copysign | cos | cosh | degrees | dist | erf
  | erfc | exp | exp2 | expm1 | fabs | factorial | floor | fmod
  | frexp | fsum | gamma | gcd | hypot | isclose | isfinite | isinf
  | isnan | isqrt | lcm | ldexp | lgamma | log | log10 | log1p
  | log2 | modf | nextafter | perm | pow | prod | radians | remainder
  | sin | sinh | sqrt | tan | tanh | trunc | ulp | abs
  | min | max | round
  deriving DecidableEq, Repr

inductive Core where
  | raise | isNil | isTrue | isFalse | isNumber | isString | symbol
  | isSymbol | keyword | isKeyword | isFn | isMacro | equal | less
  | lessEqual | greater | greaterEqual | or | and | add | sub
  | mul | div | list | isList | vector | isVector | isMap
  | nth | first | rest | last | isEmpty | count | apply
  | str | prn | println | readString | cons | concat | metaOf
  | withMeta | atom | isAtom | deref | reset | swap | range
  deriving DecidableEq, Repr

inductive Builtin where
  | core (f : Core)
  | numeric (f : Numeric)
  | eval
  deriving DecidableEq, Repr

namespace Numeric

/-- The name of a numeric function, which is also the symbol that it is bound to. -/
def name : Numeric → String
  | acos => "acos"
  | acosh => "acosh"
  | asin => "asin"
  | asinh => "asinh"
  | atan => "atan"
  | atan2 => "atan2"
  | atanh => "atanh"
  | cbrt => "cbrt"
  | ceil => "ceil"
  | comb => "comb"
  | copysign => "copysign"
  | cos => "cos"
  | cosh => "cosh"
  | degrees => "degrees"
  | dist => "dist"
  | erf => "erf"
  | erfc => "erfc"
  | exp => "exp"
  | exp2 => "exp2"
  | expm1 => "expm1"
  | fabs => "fabs"
  | factorial => "factorial"
  | floor => "floor"
  | fmod => "fmod"
  | frexp => "frexp"
  | fsum => "fsum"
  | gamma => "gamma"
  | gcd => "gcd"
  | hypot => "hypot"
  | isclose => "isclose"
  | isfinite => "isfinite"
  | isinf => "isinf"
  | isnan => "isnan"
  | isqrt => "isqrt"
  | lcm => "lcm"
  | ldexp => "ldexp"
  | lgamma => "lgamma"
  | log => "log"
  | log10 => "log10"
  | log1p => "log1p"
  | log2 => "log2"
  | modf => "modf"
  | nextafter => "nextafter"
  | perm => "perm"
  | pow => "pow"
  | prod => "prod"
  | radians => "radians"
  | remainder => "remainder"
  | sin => "sin"
  | sinh => "sinh"
  | sqrt => "sqrt"
  | tan => "tan"
  | tanh => "tanh"
  | trunc => "trunc"
  | ulp => "ulp"
  | abs => "abs"
  | min => "min"
  | max => "max"
  | round => "round"

/-- The numeric functions that the mathematical names are bound to, in the order of the names. -/
def mathematical : List Numeric :=
  [
    .acos, .acosh, .asin, .asinh, .atan, .atan2, .atanh, .cbrt, .ceil,
    .comb, .copysign, .cos, .cosh, .degrees, .dist, .erf, .erfc, .exp,
    .exp2, .expm1, .fabs, .factorial, .floor, .fmod, .frexp, .fsum, .gamma,
    .gcd, .hypot, .isclose, .isfinite, .isinf, .isnan, .isqrt, .lcm, .ldexp,
    .lgamma, .log, .log10, .log1p, .log2, .modf, .nextafter, .perm, .pow,
    .prod, .radians, .remainder, .sin, .sinh, .sqrt, .tan, .tanh, .trunc,
    .ulp
  ]

/-- The numeric functions that are bound after those. -/
def general : List Numeric := [.abs, .min, .max, .round]

end Numeric

namespace Core

def binding : Core → String
  | raise => "throw"
  | isNil => "nil?"
  | isTrue => "true?"
  | isFalse => "false?"
  | isNumber => "number?"
  | isString => "string?"
  | symbol => "symbol"
  | isSymbol => "symbol?"
  | keyword => "keyword"
  | isKeyword => "keyword?"
  | isFn => "fn?"
  | isMacro => "macro?"
  | equal => "="
  | less => "<"
  | lessEqual => "<="
  | greater => ">"
  | greaterEqual => ">="
  | or => "or"
  | and => "and"
  | add => "+"
  | sub => "-"
  | mul => "*"
  | div => "/"
  | list => "list"
  | isList => "list?"
  | vector => "vector"
  | isVector => "vector?"
  | isMap => "map?"
  | nth => "nth"
  | first => "first"
  | rest => "rest"
  | last => "last"
  | isEmpty => "empty?"
  | count => "count"
  | apply => "apply"
  | str => "str"
  | prn => "prn"
  | println => "println"
  | readString => "read-string"
  | cons => "cons"
  | concat => "concat"
  | metaOf => "meta"
  | withMeta => "with-meta"
  | atom => "atom"
  | isAtom => "atom?"
  | deref => "deref"
  | reset => "reset!"
  | swap => "swap!"
  | range => "range"

/-- The name that messages call a core function by. -/
def name : Core → String
  | raise => "throw"
  | isNil => "is_nil"
  | isTrue => "is_true"
  | isFalse => "is_false"
  | isNumber => "is_number"
  | isString => "is_string"
  | symbol => "symbol"
  | isSymbol => "is_symbol"
  | keyword => "keyword"
  | isKeyword => "is_keyword"
  | isFn => "is_fn"
  | isMacro => "is_macro_builtin"
  | equal => "equals"
  | less => "<"
  | lessEqual => "<="
  | greater => ">"
  | greaterEqual => ">="
  | or => "logical_or"
  | and => "logical_and"
  | add => "add"
  | sub => "sub"
  | mul => "mul"
  | div => "div"
  | list => "list_builtin"
  | isList => "is_list_builtin"
  | vector => "vector"
  | isVector => "is_vector_builtin"
  | isMap => "is_map"
  | nth => "nth"
  | first => "first"
  | rest => "rest"
  | last => "last"
  | isEmpty => "is_empty"
  | count => "count"
  | apply => "apply"
  | str => "str_builtin"
  | prn => "prn"
  | println => "println"
  | readString => "read_string"
  | cons => "cons"
  | concat => "concat"
  | metaOf => "meta"
  | withMeta => "with_meta"
  | atom => "atom"
  | isAtom => "is_atom"
  | deref => "deref"
  | reset => "reset"
  | swap => "swap"
  | range => "range_builtin"

/-- The core functions in the order in which they are bound. -/
def all : List Core :=
  [
    .raise, .isNil, .isTrue, .isFalse, .isNumber, .isString, .symbol, .isSymbol, .keyword,
    .isKeyword, .isFn, .isMacro, .equal, .less, .lessEqual, .greater, .greaterEqual, .or,
    .and, .add, .sub, .mul, .div, .list, .isList, .vector, .isVector,
    .isMap, .nth, .first, .rest, .last, .isEmpty, .count, .apply, .str,
    .prn, .println, .readString, .cons, .concat, .metaOf, .withMeta, .atom, .isAtom,
    .deref, .reset, .swap, .range
  ]

/-- The core functions that are wrapped with a name from the start. -/
def isWrapped : Core → Bool
  | prn | println => true
  | _ => false

end Core

namespace Builtin

def binding : Builtin → String
  | core f => f.binding
  | numeric f => f.name
  | eval => "eval"

def name : Builtin → String
  | core f => f.name
  | numeric f => f.name
  | eval => "eval"

end Builtin

end SmallLisp
