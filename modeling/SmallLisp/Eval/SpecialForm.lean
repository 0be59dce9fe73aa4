import SmallLisp.Eval.Job
import SmallLisp.Eval.Quasiquote

/-!
# Special forms

A special form decides itself which of its parts are evaluated, in which scope and when. The part
in tail position is not evaluated by the form but handed back as the job that is left.
-/

namespace SmallLisp

inductive SpecialForm where
  | define
  | bindings
  | quotation
  | template
  | defineMacro
  | expansion
  | protect
  | sequence
  | conditional
  | function
  | scopeChain
  | scopesOf
  deriving DecidableEq

namespace SpecialForm

def name : SpecialForm → String
  | define => "def"
  | bindings => "let"
  | quotation => "quote"
  | template => "quasiquote"
  | defineMacro => "defmacro"
  | expansion => "macroexpand"
  | protect => "try"
  | sequence => "do"
  | conditional => "if"
  | function => "fn"
  | scopeChain => "env-chain"
  | scopesOf => "which-env"

def all : List SpecialForm :=
  [define, bindings, quotation, template, defineMacro, expansion, protect, sequence, conditional,
    function, scopeChain, scopesOf]

def ofName? (symbol : String) : Option SpecialForm := all.find? fun form => form.name == symbol

def runDefine (nested : Nested) (parts : List Value) (scope : ScopeId) : Eval Step :=
  match parts with
  | [.sym name, form] => do
    let value ← nested.eval form scope
    Eval.bindValue scope (.sym name) value
    return .done value
  | [target, _] => do throw (.form (.defName (← Eval.represent target)))
  | _ => throw (.form .defShape)

/-- Whether a rest mark, if there is one, stands in front of the last parameter. -/
def restMarkPlaced (params : List String) : Bool :=
  !params.contains "&" || params.idxOf "&" + 2 == params.length

/-- The symbols of a parameter list, which may be a list or a vector. -/
def parameterNames? (params : Value) : Option (List String) :=
  params.sequence?.bind fun items => items.mapM Value.symbol?

/-- Several body forms are evaluated in order, and none at all gives nil. -/
def bodyOf : List Value → Eval Value
  | [] => return .nil
  | [form] => return form
  | forms => Eval.newList (.sym "do" :: forms)

def makeClosure (form : String) (isMacro : Bool) (parts : List Value) (scope : ScopeId) :
    Eval Value :=
  match parts with
  | [] => throw (.form (.noParameters form))
  | params :: forms =>
    match parameterNames? params with
    | none => throw (.form (.parameterSymbols form))
    | some names =>
      if restMarkPlaced names then do
        let body ← bodyOf forms
        return .closure (← Eval.fresh) names body scope isMacro .nil
      else throw (.form (.restPlace form))

def runFunction (parts : List Value) (scope : ScopeId) : Eval Step := do
  return .done (← makeClosure function.name false parts scope)

def runDefineMacro (parts : List Value) (scope : ScopeId) : Eval Step :=
  match parts with
  | .sym name :: part :: parts => do
    let value ← makeClosure defineMacro.name true (part :: parts) scope
    Eval.bindValue scope (.sym name) value
    return .done value
  | target :: _ :: _ => do throw (.form (.macroName (← Eval.represent target)))
  | _ => throw (.form .defmacroShape)

/-- Evaluate all forms but the last one, which is left to do. -/
def runBody (nested : Nested) (forms : List Value) (scope : ScopeId) : Eval Step :=
  match forms with
  | [] => return .done .nil
  | [form] => return .next (.eval form scope)
  | form :: forms => do
    discard (nested.eval form scope)
    runBody nested forms scope

def runConditional (nested : Nested) (parts : List Value) (scope : ScopeId) : Eval Step :=
  match parts with
  | [condition, consequent] => do
    if (← nested.eval condition scope).isTruthy then return .next (.eval consequent scope)
    else return .done .nil
  | [condition, consequent, alternative] => do
    if (← nested.eval condition scope).isTruthy then return .next (.eval consequent scope)
    else return .next (.eval alternative scope)
  | _ => throw (.form .ifShape)

/-- Bind symbols to values one after the other, so that later forms see earlier symbols. -/
def bindEach (nested : Nested) (scope : ScopeId) : List Value → Eval Unit
  | .sym name :: form :: rest => do
    let value ← nested.eval form scope
    Eval.bindValue scope (.sym name) value
    bindEach nested scope rest
  | target :: _ :: _ => do throw (.form (.letName (← Eval.represent target)))
  | _ => pure ()

def runBindings (nested : Nested) (parts : List Value) (scope : ScopeId) : Eval Step :=
  match parts with
  | [] => throw (.form .letShape)
  | binders :: body =>
    match binders.sequence? with
    | none => throw (.form .letList)
    | some items =>
      if items.length % 2 == 1 then throw (.form .letPairs)
      else do
        let inner ← Eval.addScope (some scope) "let"
        bindEach nested inner items
        runBody nested body inner

/-- The symbol and the handler of a catch clause. -/
def catchClause? : Value → Option (String × Value)
  | .list _ [head, .sym name, handler] _ _ =>
    if head.isSymbol "catch" then some (name, handler) else none
  | _ => none

def protectLogger : String := "tau.evaluation.special_forms.try_form"

/-- Evaluate a body, and when it ends with a fault hand the fault to the handler, which runs in
a scope of its own. -/
def runProtect (nested : Nested) (parts : List Value) (scope : ScopeId) : Eval Step :=
  match parts with
  | [body] => do return .done (← nested.eval body scope)
  | [body, clause] =>
    match catchClause? clause with
    | none => throw (.form .catchShape)
    | some (name, handler) => do
      match ← Eval.attempt (nested.eval body scope) with
      | .ok value => return .done value
      | .error cause =>
        Eval.debug protectLogger ("try caught " ++ cause.kind ++ ": " ++ cause.message)
        return .next (.eval handler (← Eval.enter (some scope) "catch" [.sym name] [cause.caught]))
  | _ => throw (.form .tryShape)

def runQuotation : List Value → Eval Step
  | [form] => return .done form
  | _ => throw (.form .quoteShape)

def runTemplate (parts : List Value) (scope : ScopeId) : Eval Step :=
  match parts with
  | [form] => do return .next (.eval (← Template.code form) scope)
  | _ => throw (.form .quasiquoteShape)

def runExpansion (parts : List Value) (scope : ScopeId) : Eval Step :=
  match parts with
  | [form] => return .next (.expand form scope)
  | _ => throw (.form .macroexpandShape)

def runScopeChain (parts : List Value) (scope : ScopeId) : Eval Step :=
  match parts with
  | [] => do
    let s ← get
    return .done (.str (s.chainText (s.chain scope)))
  | _ => throw (.form .envChainShape)

/-- The scopes of the chain that bind a symbol themselves, as one text. -/
def ownersText (s : Store) (scope : ScopeId) (name : String) : String :=
  let text := s.chainText ((s.chain scope).filter fun id => (s.own? id name).isSome)
  if text.isEmpty then "not defined" else text

def runScopesOf (parts : List Value) (scope : ScopeId) : Eval Step :=
  match parts with
  | [.sym name] => do return .done (.str (ownersText (← get) scope name))
  | _ => throw (.form .whichEnvShape)

def run (form : SpecialForm) (nested : Nested) (parts : List Value) (scope : ScopeId) :
    Eval Step :=
  match form with
  | define => runDefine nested parts scope
  | bindings => runBindings nested parts scope
  | quotation => runQuotation parts
  | template => runTemplate parts scope
  | defineMacro => runDefineMacro parts scope
  | expansion => runExpansion parts scope
  | protect => runProtect nested parts scope
  | sequence => runBody nested parts scope
  | conditional => runConditional nested parts scope
  | function => runFunction parts scope
  | scopeChain => runScopeChain parts scope
  | scopesOf => runScopesOf parts scope

end SpecialForm

end SmallLisp
