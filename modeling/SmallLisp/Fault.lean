import SmallLisp.Reader.Fault
import SmallLisp.Value.Basic

/-!
# Faults and stops

A fault is an error of the language: a program can catch it. A stop ends an evaluation, and is a
fault or one of the few things that no program can catch. Faults are kept as causes, and what a
message shows of a value is rendered when the fault arises.
-/

namespace SmallLisp

/-- A special form that does not have the shape its head asks for. -/
inductive FormFault where
  | defShape
  | defName (shown : String)
  | defmacroShape
  | macroName (shown : String)
  | noParameters (form : String)
  | parameterSymbols (form : String)
  | restPlace (form : String)
  | letShape
  | letList
  | letPairs
  | letName (shown : String)
  | ifShape
  | quoteShape
  | quasiquoteShape
  | unquoteShape
  | spliceShape
  | macroexpandShape
  | tryShape
  | catchShape
  | envChainShape
  | whichEnvShape
  deriving DecidableEq

def FormFault.message : FormFault → String
  | defShape => "def requires exactly 2 arguments"
  | defName shown => "def name must be a Symbol, got " ++ shown
  | defmacroShape => "defmacro requires a name and parameter list"
  | macroName shown => "Macro name must be a Symbol, got " ++ shown
  | noParameters form => form ++ " requires a parameter list"
  | parameterSymbols form => form ++ " parameters must be a list of symbols"
  | restPlace form => form ++ " '&' must be followed by exactly one symbol"
  | letShape => "let requires a binding list"
  | letList => "let bindings must be a list"
  | letPairs => "let bindings must be symbol/expression pairs"
  | letName shown => "let binding name must be a Symbol, got " ++ shown
  | ifShape => "if requires a condition, a then-expression and an optional else"
  | quoteShape => "Quote expects exactly 1 argument"
  | quasiquoteShape => "Quasiquote expects exactly 1 argument"
  | unquoteShape => "unquote expects exactly 1 argument"
  | spliceShape => "splice-unquote expects exactly 1 argument"
  | macroexpandShape => "macroexpand expects exactly 1 argument"
  | tryShape => "try requires a body and an optional catch clause"
  | catchShape => "try expects a (catch symbol handler) clause"
  | envChainShape => "env-chain takes no arguments"
  | whichEnvShape => "which-env expects exactly 1 symbol"

/-- A wrong count of arguments, a parameter list that cannot be bound or a malformed form. -/
inductive ArityFault where
  | count (function : String) (expected : List Nat) (got : Nat)
  | parameters (required got : Nat)
  | danglingRest
  | nonSymbol (shown : String)
  | applyShape
  | swapShape
  | form (fault : FormFault)
  deriving DecidableEq

def ArityFault.message : ArityFault → String
  | count function expected got =>
    function ++ " expects " ++ String.intercalate " or " (expected.map toString) ++
      " argument(s), got " ++ toString got
  | parameters required got =>
    "Expected " ++ toString required ++ " argument(s), got " ++ toString got
  | danglingRest => "'&' must be followed by a rest parameter"
  | nonSymbol shown => "Cannot bind non-symbol " ++ shown
  | applyShape => "apply requires a function and an argument list"
  | swapShape => "swap! requires an atom and a function"
  | form fault => fault.message

/-- What a core function refuses, and what it met below the language. -/
inductive PrimitiveFault where
  | notNumbers (function : String)
  | notSequence (function shown : String)
  | notString (function shown : String)
  | notAtom (function shown : String)
  | notIndex (shown : String)
  | indexOutOfRange
  | divisionByZero
  | noMetadata (shown : String)
  | mapKey (type : String)
  | host (function : String) (fault : HostFault)
  deriving DecidableEq

def PrimitiveFault.message : PrimitiveFault → String
  | notNumbers function => "All arguments to " ++ function ++ " must be numbers"
  | notSequence function shown => function ++ " expects a list, got " ++ shown
  | notString function shown => function ++ " expects a string, got " ++ shown
  | notAtom function shown => function ++ " expects an atom, got " ++ shown
  | notIndex shown => "nth index must be an integer, got " ++ shown
  | indexOutOfRange => "nth: index out of range"
  | divisionByZero => "Division by zero"
  | noMetadata shown => "Cannot attach metadata to " ++ shown
  | mapKey type => "Map keys must be hashable: " ++ (HostFault.unhashable type).message
  | host function fault => function ++ ": " ++ fault.message

/-- An error of the language. A raised value comes with the message that shows it. -/
inductive Fault where
  | malformed (fault : SyntaxFault)
  | unbound (name : String)
  | arity (fault : ArityFault)
  | notCallable (category shown : String)
  | primitive (fault : PrimitiveFault)
  | raised (value : Value) (shown : String)

namespace Fault

/-- The class of an error, as messages about errors name it. -/
def kind : Fault → String
  | malformed _ => "TauSyntaxError"
  | unbound _ => "TauUnboundSymbol"
  | arity _ => "TauArityError"
  | notCallable .. => "TauNotCallable"
  | primitive _ => "TauPrimitiveError"
  | raised .. => "TauUserRaised"

def message : Fault → String
  | malformed fault => fault.message
  | unbound name => "Cannot lookup unbound symbol " ++ name
  | arity fault => fault.message
  | notCallable category shown =>
    category ++ " " ++ shown ++
      " is not a function. First element of list always should be a function."
  | primitive fault => fault.message
  | raised _ shown => "TauUserRaised(value=" ++ shown ++ ")"

/-- What a catch clause binds its symbol to: the raised value, or the message of any other
fault. -/
def caught : Fault → Value
  | raised value _ => value
  | cause => .str cause.message

end Fault

/-- Why an evaluation ends without a value: a fault, a limit below the language that was met
outside of any function, a stack with no room for another nested evaluation, or no passes
left. -/
inductive Stop where
  | fault (cause : Fault)
  | host (limit : HostFault)
  | stackExhausted
  | passesExhausted

namespace Stop

def form (cause : FormFault) : Stop := .fault (.arity (.form cause))

def arity (cause : ArityFault) : Stop := .fault (.arity cause)

def primitive (cause : PrimitiveFault) : Stop := .fault (.primitive cause)

def ofReadFault : ReadFault → Stop
  | .malformed cause => .fault (.malformed cause)
  | .digitLimit digits => .host (.digitLimit (some digits))

/-- A limit met inside a function is a fault of that function. -/
def inside (function : String) : Stop → Stop
  | host limit => .fault (.primitive (.host function limit))
  | stop => stop

end Stop

end SmallLisp
