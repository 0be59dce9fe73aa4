import SmallLisp.Eval.Run

/-!
# The interpreter

An interpreter is a store whose first scope, the root, holds the core namespace and the numeric
functions. Programs are run in the root scope or in a scope below it, and what they define there
stays for the programs that are run later.
-/

namespace SmallLisp.Interpreter

def wrapped (f : Builtin) : StateM Identity (String × Value) := do
  return (f.binding, .builtin f true (← Datum.freshIdentity) .nil)

def coreBinding (f : Core) : StateM Identity (String × Value) :=
  if f.isWrapped then wrapped (.core f)
  else return (f.binding, .builtin (.core f) false Value.literalNan .nil)

/-- The numeric constants. The constant for NaN is the object that `##NaN` denotes. -/
def constants : Bindings :=
  [
    ("e", .float (.ofDecimal false 2718281828459045 (-15))),
    ("inf", .float (.infinity false)),
    ("nan", .nan Value.literalNan),
    ("pi", .float (.ofDecimal false 3141592653589793 (-15))),
    ("tau", .float (.ofDecimal false 6283185307179586 (-15)))
  ]

def rootBindings : StateM Identity Bindings := do
  let core ← Core.all.mapM coreBinding
  let mathematical ← Numeric.mathematical.mapM fun f => wrapped (.numeric f)
  let general ← Numeric.general.mapM fun f => wrapped (.numeric f)
  return core ++ mathematical ++ constants ++ general ++ [← wrapped .eval]

def rootName : String := "repl"

def logger : String := "tau.interpreter"

def create (logLevel : Nat) : Store :=
  let empty := Store.empty logLevel
  let (bindings, next) := rootBindings.run empty.nextIdentity
  let s := { empty with scopes := #[⟨rootName, none, bindings⟩], nextIdentity := next }
  s.record Eval.debugLevel logger
    ("Interpreter created with " ++ toString bindings.length ++ " root bindings")

/-- How many passes an evaluation may take. -/
def passLimit : Nat := Nat.pow 10 15

/-- How many activations may be nested in an evaluation. -/
def roomLimit : Nat := 5000

def perform (job : Job) : Eval Value := Eval.run passLimit roomLimit job

def evaluate (form : Value) (scope : ScopeId) : Eval Value := perform (.eval form scope)

def runForms (scope : ScopeId) : (last : Value) → List Datum → Eval Value
  | last, [] => return last
  | _, form :: forms => do
    let value ← evaluate (← Eval.ofDatum form) scope
    runForms scope value forms

/-- Run all forms of a text. The forms before a syntax error are evaluated before the error is
raised; a text without forms gives nil. -/
def run (text : String) (scope : ScopeId) : Eval Value := do
  let (forms, fault) := readForms text
  let value ← runForms scope .nil forms
  match fault with
  | none => return value
  | some fault => throw (.ofReadFault fault)

def rep (text : String) : Eval String := do
  Eval.print .readable (← evaluate (← Eval.readForm text) rootScope)

/-- Expand the macro call that a text denotes by one step, if it is one. -/
def expandOnce (text : String) : Eval (Option String) := do
  match ← Eval.expandOnce perform (← Eval.readForm text) rootScope with
  | some expanded => return some (← Eval.print .readable expanded)
  | none => return none

def expand (text : String) : Eval String := do
  Eval.print .readable (← perform (.expand (← Eval.readForm text) rootScope))

def define (name : String) (value : Value) : Eval Unit :=
  Eval.bindValue rootScope (.sym name) value

def child (name : String) : Eval ScopeId := Eval.addScope (some rootScope) name

end SmallLisp.Interpreter
