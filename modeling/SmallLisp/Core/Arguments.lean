import SmallLisp.Eval.Job

/-!
# Demands on arguments

What the core functions ask of their arguments, and the faults that they report otherwise.
-/

namespace SmallLisp.Eval

/-- A limit that is met below the language. -/
def ofHost {α : Type} : Except HostFault α → Eval α
  | .ok a => pure a
  | .error limit => throw (.host limit)

def wrongCount {α : Type} (function : String) (expected : List Nat) (args : List Value) : Eval α :=
  throw (.arity (.count function expected args.length))

def single (function : String) : List Value → Eval Value
  | [arg] => return arg
  | args => wrongCount function [1] args

def double (function : String) : List Value → Eval (Value × Value)
  | [a, b] => return (a, b)
  | args => wrongCount function [2] args

/-- The numbers that all arguments have to be. -/
def numbers (function : String) (args : List Value) : Eval (List Number) :=
  match args.mapM Value.number? with
  | some ns => return ns
  | none => throw (.primitive (.notNumbers function))

/-- The elements of a list or vector; nil counts as empty. -/
def elements (function : String) (v : Value) : Eval (List Value) :=
  match v with
  | .nil => return []
  | v =>
    match v.sequence? with
    | some items => return items
    | none => do throw (.primitive (.notSequence function (← represent v)))

def characters (function : String) (v : Value) : Eval String :=
  match v with
  | .str s => return s
  | v => do throw (.primitive (.notString function (← represent v)))

def address (function : String) (v : Value) : Eval Address :=
  match v with
  | .atom a => return a
  | v => do throw (.primitive (.notAtom function (← represent v)))

end SmallLisp.Eval
