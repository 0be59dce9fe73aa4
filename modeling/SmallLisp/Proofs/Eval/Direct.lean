import Mathlib.Tactic
import SmallLisp.Eval.Run
import SmallLisp.Proofs.Eval.Laws

/-!
# Direct evaluation

The meaning of programs without tail calls. Every part of a form whose value is needed is
evaluated by a recursive call, the last part in the scope that the form has made for it, and a
closure is applied by a recursive call on its body in the scope of the call. The recursion is
bounded by its depth.
-/

namespace SmallLisp.Direct

open Eval

section

variable (recur : Nested)

def define (parts : List Value) (scope : ScopeId) : Eval Value :=
  match parts with
  | [.sym name, form] => do
    let value ← recur.eval form scope
    bindValue scope (.sym name) value
    return value
  | [target, _] => do throw (.form (.defName (← represent target)))
  | _ => throw (.form .defShape)

def defineMacro (parts : List Value) (scope : ScopeId) : Eval Value :=
  match parts with
  | .sym name :: part :: parts => do
    let value ← SpecialForm.makeClosure "defmacro" true (part :: parts) scope
    bindValue scope (.sym name) value
    return value
  | target :: _ :: _ => do throw (.form (.macroName (← represent target)))
  | _ => throw (.form .defmacroShape)

def body (forms : List Value) (scope : ScopeId) : Eval Value :=
  match forms with
  | [] => return .nil
  | [form] => recur.eval form scope
  | form :: forms => do
    let _ ← recur.eval form scope
    body forms scope

def conditional (parts : List Value) (scope : ScopeId) : Eval Value :=
  match parts with
  | [condition, consequent] => do
    if (← recur.eval condition scope).isTruthy then recur.eval consequent scope
    else return .nil
  | [condition, consequent, alternative] => do
    if (← recur.eval condition scope).isTruthy then recur.eval consequent scope
    else recur.eval alternative scope
  | _ => throw (.form .ifShape)

def bindings (parts : List Value) (scope : ScopeId) : Eval Value :=
  match parts with
  | [] => throw (.form .letShape)
  | binders :: forms =>
    match binders.sequence? with
    | none => throw (.form .letList)
    | some items =>
      if items.length % 2 == 1 then throw (.form .letPairs)
      else do
        let inner ← addScope (some scope) "let"
        SpecialForm.bindEach recur inner items
        body recur forms inner

/-- Evaluate a body; a fault is handled in a new scope that binds what was caught. -/
def protect (parts : List Value) (scope : ScopeId) : Eval Value :=
  match parts with
  | [form] => recur.eval form scope
  | [form, clause] =>
    match SpecialForm.catchClause? clause with
    | none => throw (.form .catchShape)
    | some (name, handler) => do
      match ← attempt (recur.eval form scope) with
      | .ok value => return value
      | .error cause =>
        debug SpecialForm.protectLogger ("try caught " ++ cause.kind ++ ": " ++ cause.message)
        recur.eval handler (← enter (some scope) "catch" [.sym name] [cause.caught])
  | _ => throw (.form .tryShape)

def template (parts : List Value) (scope : ScopeId) : Eval Value :=
  match parts with
  | [form] => do recur.eval (← Template.code form) scope
  | _ => throw (.form .quasiquoteShape)

def expansion (parts : List Value) (scope : ScopeId) : Eval Value :=
  match parts with
  | [form] => recur (.expand form scope)
  | _ => throw (.form .macroexpandShape)

def special (form : SpecialForm) (parts : List Value) (scope : ScopeId) : Eval Value :=
  match form with
  | .define => define recur parts scope
  | .bindings => bindings recur parts scope
  | .quotation =>
    match parts with
    | [form] => return form
    | _ => throw (.form .quoteShape)
  | .template => template recur parts scope
  | .defineMacro => defineMacro parts scope
  | .expansion => expansion recur parts scope
  | .protect => protect recur parts scope
  | .sequence => body recur parts scope
  | .conditional => conditional recur parts scope
  | .function => SpecialForm.makeClosure "fn" false parts scope
  | .scopeChain =>
    match parts with
    | [] => do
      let s ← get
      return .str (s.chainText (s.chain scope))
    | _ => throw (.form .envChainShape)
  | .scopesOf =>
    match parts with
    | [.sym name] => return .str (SpecialForm.ownersText (← get) scope name)
    | _ => throw (.form .whichEnvShape)

/-- A list with a head that is no macro call. The operands are evaluated from left to right
before the head is applied. -/
def list (head : Value) (args : List Value) (scope : ScopeId) : Eval Value :=
  match head.symbol?.bind SpecialForm.ofName? with
  | some form => special recur form args scope
  | none => do
    let f ← recur.eval head scope
    let values ← args.mapM fun arg => recur.eval arg scope
    recur (.call f values)

/-- The expansion of a macro call is evaluated in its place. -/
def form (form : Value) (scope : ScopeId) : Eval Value :=
  match form with
  | .list id [] marked info => return .list id [] marked info
  | .list _ (head :: args) _ _ => do
    match ← expandOnce recur form scope with
    | some expanded => recur.eval expanded scope
    | none => list recur head args scope
  | form => evalAtom recur form scope

def expand (form : Value) (scope : ScopeId) : Eval Value := do
  match ← expandOnce recur form scope with
  | some expanded => recur (.expand expanded scope)
  | none => return form

def call (limit : Nat) (f : Value) (args : List Value) : Eval Value :=
  match f with
  | .closure _ params body captured _ _ => do
    recur.eval body (← enterCall captured params args)
  | .builtin f _ _ _ => runBuiltin f recur limit args
  | other => do throw (.fault (.notCallable other.category (← print .readable other)))

/-- Do a job by recursive calls. -/
def step (limit : Nat) : Job → Eval Value
  | .eval form scope => Direct.form recur form scope
  | .expand form scope => expand recur form scope
  | .call f args => call recur limit f args

end

/-- Do a job by recursion to a depth. -/
def run : (depth : Nat) → Job → Eval Value
  | 0, _ => throw .passesExhausted
  | depth + 1, job => step (run depth) depth job

section

variable {id : Identity} {head info : Value} {args : List Value} {marked : Bool} {scope : ScopeId}
  {s : Store}

theorem form_of_none (h : macroCall? s (.list id (head :: args) marked info) scope = none)
    (recur : Nested) : form recur (.list id (head :: args) marked info) scope s =
      list recur head args scope s :=
  bind_of_ok (expandOnce_of_none h recur)

theorem form_of_special {name : SpecialForm}
    (h : macroCall? s (.list id (head :: args) marked info) scope = none)
    (hname : head.symbol?.bind SpecialForm.ofName? = some name) (recur : Nested) :
    form recur (.list id (head :: args) marked info) scope s =
      special recur name args scope s := by
  rw [form_of_none h, list]
  simp only [hname]

theorem form_of_application
    (h : macroCall? s (.list id (head :: args) marked info) scope = none)
    (hname : head.symbol?.bind SpecialForm.ofName? = none) (recur : Nested) :
    form recur (.list id (head :: args) marked info) scope s =
      (recur.eval head scope >>= fun f => recur.evalAll args scope >>= fun vs =>
        recur (.call f vs)) s := by
  rw [form_of_none h, list]
  simp only [hname]
  rfl

end

section

variable (recur : Nested)

/-- Go on from a pass by a recursive call. -/
def finish : Step → Eval Value
  | .done value => return value
  | .next job => recur job

theorem define_eq (parts : List Value) (scope : ScopeId) :
    define recur parts scope = SpecialForm.runDefine recur parts scope >>= finish recur := by
  unfold define SpecialForm.runDefine
  split <;> simp [finish]

theorem defineMacro_eq (parts : List Value) (scope : ScopeId) :
    defineMacro parts scope = SpecialForm.runDefineMacro parts scope >>= finish recur := by
  unfold defineMacro SpecialForm.runDefineMacro
  split <;> simp [finish, SpecialForm.name]

theorem body_eq (forms : List Value) (scope : ScopeId) :
    body recur forms scope = SpecialForm.runBody recur forms scope >>= finish recur := by
  fun_induction body recur forms scope with
  | case1 => rfl
  | case2 form => rfl
  | case3 form forms hforms ih =>
    rw [SpecialForm.runBody.eq_3 _ _ _ _ hforms, discard_bind, bind_assoc, ih]

theorem conditional_eq (parts : List Value) (scope : ScopeId) :
    conditional recur parts scope =
      SpecialForm.runConditional recur parts scope >>= finish recur := by
  unfold conditional SpecialForm.runConditional
  split
  · rw [bind_assoc]
    congr 1
    funext value
    split_ifs <;> rfl
  · rw [bind_assoc]
    congr 1
    funext value
    split_ifs <;> rfl
  · simp

theorem bindings_eq (parts : List Value) (scope : ScopeId) :
    bindings recur parts scope = SpecialForm.runBindings recur parts scope >>= finish recur := by
  unfold bindings SpecialForm.runBindings
  cases parts with
  | nil => rfl
  | cons binders forms =>
    dsimp only
    cases binders.sequence? with
    | none => rfl
    | some items =>
      dsimp only
      split_ifs
      · rfl
      · simp only [bind_assoc, body_eq]

theorem protect_eq (parts : List Value) (scope : ScopeId) :
    protect recur parts scope = SpecialForm.runProtect recur parts scope >>= finish recur := by
  unfold protect SpecialForm.runProtect
  rcases parts with _ | ⟨form, _ | ⟨clause, _ | ⟨_, _⟩⟩⟩
  · simp
  · simp [finish]
  · dsimp only
    cases SpecialForm.catchClause? clause with
    | none => rfl
    | some parts =>
      dsimp only
      rw [bind_assoc]
      congr 1
      funext outcome
      cases outcome with
      | ok value => rfl
      | error cause => simp [finish, Nested.eval]
  · simp

theorem special_eq (form : SpecialForm) (parts : List Value) (scope : ScopeId) :
    special recur form parts scope = form.run recur parts scope >>= finish recur := by
  cases form with
  | define => exact define_eq recur parts scope
  | bindings => exact bindings_eq recur parts scope
  | defineMacro => exact defineMacro_eq recur parts scope
  | protect => exact protect_eq recur parts scope
  | sequence => exact body_eq recur parts scope
  | conditional => exact conditional_eq recur parts scope
  | quotation =>
    unfold special SpecialForm.run SpecialForm.runQuotation
    dsimp only
    split <;> simp [finish]
  | template =>
    unfold special template SpecialForm.run SpecialForm.runTemplate
    dsimp only
    split <;> simp [finish, Nested.eval]
  | expansion =>
    unfold special expansion SpecialForm.run SpecialForm.runExpansion
    dsimp only
    split <;> simp [finish]
  | function =>
    unfold special SpecialForm.run SpecialForm.runFunction
    simp [finish, SpecialForm.name]
  | scopeChain =>
    unfold special SpecialForm.run SpecialForm.runScopeChain
    dsimp only
    split <;> simp [finish]
  | scopesOf =>
    unfold special SpecialForm.run SpecialForm.runScopesOf
    dsimp only
    split <;> simp [finish]

theorem list_eq (head : Value) (args : List Value) (scope : ScopeId) :
    list recur head args scope = evalList recur head args scope >>= finish recur := by
  unfold list evalList
  cases head.symbol?.bind SpecialForm.ofName? with
  | none => simp [finish, Nested.evalAll]
  | some form => exact special_eq recur form args scope

theorem form_eq (form : Value) (scope : ScopeId) :
    Direct.form recur form scope = evalForm recur form scope >>= finish recur := by
  unfold Direct.form evalForm
  split
  · rfl
  · next head args _ _ =>
    rw [bind_assoc]
    congr 1
    funext expanded
    cases expanded with
    | none => exact list_eq recur head args scope
    | some expanded => rfl
  · simp [finish]

theorem step_eq (limit : Nat) (job : Job) :
    step recur limit job = pass recur limit job >>= finish recur := by
  cases job with
  | eval form scope => exact form_eq recur form scope
  | expand form scope =>
    unfold step expand Eval.pass
    dsimp only
    rw [bind_assoc]
    congr 1
    funext expanded
    cases expanded <;> rfl
  | call f args =>
    unfold step call Eval.pass callValue
    dsimp only
    split <;> simp [finish, Nested.eval]

end

end SmallLisp.Direct
