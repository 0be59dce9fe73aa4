import SmallLisp.Core.Run
import SmallLisp.Eval.SpecialForm
import SmallLisp.Numeric.Run

/-!
# The evaluator

An activation works on one job, pass after pass, until a pass is done. A pass starts nested
activations for the parts whose values it needs, and hands back what is in tail position. `room`
bounds how many activations are nested in one another, and `passes` how many passes any of them
makes, its nested activations included.
-/

namespace SmallLisp

/-- A call of a macro: its name and arguments, and the parts of the macro. -/
structure MacroCall where
  name : String
  params : List String
  body : Value
  scope : ScopeId
  args : List Value

/-- The macro call that a form is: a list headed by a symbol whose nearest binding is a macro. -/
def macroCall? (s : Store) (form : Value) (scope : ScopeId) : Option MacroCall :=
  match form with
  | .list _ (.sym name :: args) _ _ =>
    match s.lookup? scope name with
    | some (_, .closure _ params body captured true _) =>
      some { name, params, body, scope := captured, args }
    | _ => none
  | _ => none

namespace Eval

def expansionLogger : String := "tau.evaluation.macroexpand"

/-- The scope of a call of a closure, inside the scope that the closure captured. -/
def enterCall (captured : ScopeId) (params : List String) (args : List Value) : Eval ScopeId :=
  enter (some captured) "fn" (params.map .sym) args

/-- The expansion of a macro call by one step, `none` for any other form. -/
def expandOnce (nested : Nested) (form : Value) (scope : ScopeId) : Eval (Option Value) := do
  match macroCall? (← get) form scope with
  | none => return none
  | some call =>
    debug expansionLogger ("Expanding macro " ++ call.name)
    let inner ← enterCall call.scope call.params call.args
    return some (← nested.eval call.body inner)

/-- The evaluated entries of a map form, each key before its value. -/
def evalEntries (nested : Nested) (scope : ScopeId) :
    List (Value × Value) → Eval (List (Value × Value))
  | [] => return []
  | (k, v) :: rest => do
    let key ← nested.eval k scope
    let value ← nested.eval v scope
    if key.key?.isNone then throw (.primitive (.mapKey key.typeName))
    return (key, value) :: (← evalEntries nested scope rest)

/-- Evaluate a form that is not a list: symbols are looked up, collections are evaluated element
by element, and everything else stands for itself. -/
def evalAtom (nested : Nested) (form : Value) (scope : ScopeId) : Eval Value :=
  match form with
  | .sym name => lookup scope name
  | .vec _ items _ => do newVec (← nested.evalAll items scope)
  | .map _ entries _ _ => do newMap (← evalEntries nested scope entries)
  | other => return other

/-- Evaluate a list with a head, which is no macro call: a special form or an application. -/
def evalList (nested : Nested) (head : Value) (args : List Value) (scope : ScopeId) : Eval Step :=
  match head.symbol?.bind SpecialForm.ofName? with
  | some form => form.run nested args scope
  | none => do
    let f ← nested.eval head scope
    return .next (.call f (← nested.evalAll args scope))

def evalForm (nested : Nested) (form : Value) (scope : ScopeId) : Eval Step :=
  match form with
  | .list id [] marked info => return .done (.list id [] marked info)
  | .list _ (head :: args) _ _ => do
    match ← expandOnce nested form scope with
    | some expanded => return .next (.eval expanded scope)
    | none => evalList nested head args scope
  | form => do return .done (← evalAtom nested form scope)

/-- Run a builtin, which reports limits below the language under its name. -/
def runBuiltin (f : Builtin) (nested : Nested) (limit : Nat) (args : List Value) : Eval Value :=
  inside f.name <|
    match f with
    | .core f => f.run nested limit args
    | .numeric f => f.run args
    | .eval => do nested.eval (← single "eval" args) rootScope

def callValue (nested : Nested) (limit : Nat) (f : Value) (args : List Value) : Eval Step :=
  match f with
  | .closure _ params body captured _ _ => do
    return .next (.eval body (← enterCall captured params args))
  | .builtin f _ _ _ => do return .done (← runBuiltin f nested limit args)
  | other => do throw (.fault (.notCallable other.category (← print .readable other)))

def pass (nested : Nested) (limit : Nat) : Job → Eval Step
  | .eval form scope => evalForm nested form scope
  | .expand form scope => do
    match ← expandOnce nested form scope with
    | some expanded => return .next (.expand expanded scope)
    | none => return .done form
  | .call f args => callValue nested limit f args

/-- Do a job within a number of passes and with room for a number of nested activations. -/
def run : (passes room : Nat) → Job → Eval Value
  | 0, _, _ => throw .passesExhausted
  | passes + 1, room, job => fun s =>
    let nested : Nested := fun job =>
      match room with
      | 0 => throw .stackExhausted
      | room + 1 => run passes room job
    match pass nested passes job s with
    | .ok (.done value) s' => .ok value s'
    | .ok (.next job) s' => run passes room job s'
    | .error stop s' => .error stop s'

end Eval

end SmallLisp
