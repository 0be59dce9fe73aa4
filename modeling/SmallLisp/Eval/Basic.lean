import SmallLisp.Reader.Parser
import SmallLisp.Value.OfDatum
import SmallLisp.Value.Printer

/-!
# Computations on the store

An evaluation reads and changes the store and ends with a result or a stop. What it has changed
before it stops stays changed.
-/

namespace SmallLisp

abbrev Eval := EStateM Stop Store

namespace Eval

def ofExcept {α : Type} : Except Stop α → Eval α
  | .ok a => pure a
  | .error stop => throw stop

def fresh : Eval Identity := fun s =>
  .ok s.nextIdentity { s with nextIdentity := s.nextIdentity + 1 }

def newList (items : List Value) : Eval Value := return .plainList (← fresh) items

def newVec (items : List Value) : Eval Value := return .plainVec (← fresh) items

/-- A new map in which pairs are put one after the other. -/
def newMap (pairs : List (Value × Value)) : Eval Value :=
  return .plainMap (← fresh) (Key.collapse Value.key? pairs)

/-- The value of a number; a NaN that was computed is a new object. -/
def ofNumber : Number → Eval Value
  | .int n => return .int n
  | .float x => return .float x
  | .nan => return .nan (← fresh)

def ofDatum (d : Datum) : Eval Value := fun s =>
  let (v, next) := d.toValue.run s.nextIdentity
  .ok v { s with nextIdentity := next }

def readForm (text : String) : Eval Value :=
  match SmallLisp.readForm text with
  | .ok d => ofDatum d
  | .error fault => throw (.ofReadFault fault)

def represent (v : Value) : Eval String := do ofExcept ((← get).represent v)

def print (mode : PrintMode) (v : Value) : Eval String := do ofExcept ((← get).print mode v)

def printJoined (mode : PrintMode) (separator : String) (vs : List Value) : Eval String := do
  ofExcept ((← get).printJoined mode separator vs)

/-- Run a computation and go on from where it ended, also when it ended with a fault. Other stops
end this computation too. -/
def attempt {α : Type} (x : Eval α) : Eval (Except Fault α) := fun s =>
  match x s with
  | .ok a s' => .ok (.ok a) s'
  | .error (.fault cause) s' => .ok (.error cause) s'
  | .error stop s' => .error stop s'

/-- Run a computation as the body of a function: a limit that is met in it becomes a fault of the
function. -/
def inside {α : Type} (function : String) (x : Eval α) : Eval α := fun s =>
  match x s with
  | .ok a s' => .ok a s'
  | .error stop s' => .error (stop.inside function) s'

def debugLevel : Nat := 10

def debug (logger message : String) : Eval Unit :=
  modify fun s => s.record debugLevel logger message

def addScope (outer : Option ScopeId) (name : String) : Eval ScopeId := fun s =>
  let (id, s') := s.addScope outer name
  .ok id s'

/-- Bind a symbol in one scope. Nothing but symbols can be bound. -/
def bindValue (scope : ScopeId) (target value : Value) : Eval Unit :=
  match target with
  | .sym name => modify fun s => s.bind scope name value
  | other => do throw (.arity (.nonSymbol (← represent other)))

def lookup (scope : ScopeId) (name : String) : Eval Value := do
  match (← get).lookup? scope name with
  | some (_, value) => return value
  | none => throw (.fault (.unbound name))

def isRestMark : Value → Bool
  | .sym name => name == "&"
  | _ => false

def requiredCount (params : List Value) : Nat :=
  (params.takeWhile fun p => !isRestMark p).length

/-- Bind parameters to arguments one after the other. The parameter behind a rest mark is bound
to a new list of all arguments that are left; arguments that no parameter takes are dropped. -/
def bindRest (scope : ScopeId) (required got : Nat) : (params args : List Value) → Eval Unit
  | [], _ => pure ()
  | param :: params, args =>
    if isRestMark param then
      match params with
      | [] => throw (.arity .danglingRest)
      | rest :: _ => do bindValue scope rest (← newList args)
    else
      match args with
      | [] => throw (.arity (.parameters required got))
      | arg :: args => do
        bindValue scope param arg
        bindRest scope required got params args

def bindParameters (scope : ScopeId) (params args : List Value) : Eval Unit :=
  bindRest scope (requiredCount params) args.length params args

def enter (outer : Option ScopeId) (name : String) (params args : List Value) : Eval ScopeId := do
  let scope ← addScope outer name
  bindParameters scope params args
  return scope

/-- Bind pairs one after the other, of which the last one counts for every key. -/
def bindPairs (scope : ScopeId) (pairs : List (Value × Value)) : Eval Unit := do
  match pairs.find? fun pair => pair.1.key?.isNone with
  | some (key, _) => throw (.host (.unhashable key.typeName))
  | none => (Key.collapse Value.key? pairs).forM fun (key, value) => bindValue scope key value

end Eval

end SmallLisp
