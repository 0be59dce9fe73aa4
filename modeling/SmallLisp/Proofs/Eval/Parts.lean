import Mathlib.Tactic
import SmallLisp.Proofs.Eval.Trampoline

/-!
# The parts of a job

Doing a job starts other jobs: those for the forms in the positions that are evaluated, and the
calls that builtins make. It is said here which jobs are started and in which store, when the
parts in front of them have been done. The body of a form that catches faults stands apart from
all other parts, because it alone may end with a fault when the job does not.
-/

namespace SmallLisp

/-- The store in which a handler starts: the fault is recorded, and a new scope inside the scope of
the form binds the symbol of the clause and nothing else. -/
def Store.catching (s : Store) (scope : ScopeId) (name : String) (cause : Fault) : Store :=
  let recorded := s.record Eval.debugLevel SpecialForm.protectLogger
    ("try caught " ++ cause.kind ++ ": " ++ cause.message)
  { recorded with
    scopes := recorded.scopes.push ⟨"catch", some scope, [(name, cause.caught)]⟩ }

namespace Eval

/-- The first ones of some forms have been evaluated to these values, and the rest is left. -/
inductive Evaluated (scope : ScopeId) : List Value → Store → List Value → List Value → Store → Prop
  | none {forms : List Value} {s : Store} : Evaluated scope forms s [] forms s
  | next {form v : Value} {forms vs rest : List Value} {s s₁ s₂ : Store} :
      EndsWith (.eval form scope) s (.ok v s₁) → Evaluated scope forms s₁ vs rest s₂ →
      Evaluated scope (form :: forms) s (v :: vs) rest s₂

/-- The first ones of some bindings have been made in a scope, and the rest is left. -/
inductive Bound (scope : ScopeId) : List Value → Store → List Value → Store → Prop
  | none {items : List Value} {s : Store} : Bound scope items s items s
  | next {name : String} {form v : Value} {items rest : List Value} {s s₁ s₂ : Store} :
      EndsWith (.eval form scope) s (.ok v s₁) →
      Bound scope items (s₁.bind scope name v) rest s₂ →
      Bound scope (.sym name :: form :: items) s rest s₂

/-- The first ones of the entries of a map form have been evaluated, and the rest is left. -/
inductive EvaluatedEntries (scope : ScopeId) :
    List (Value × Value) → Store → List (Value × Value) → Store → Prop
  | none {entries : List (Value × Value)} {s : Store} : EvaluatedEntries scope entries s entries s
  | next {k v key value : Value} {entries rest : List (Value × Value)} {s s₁ s₂ s₃ : Store} :
      EndsWith (.eval k scope) s (.ok key s₁) → EndsWith (.eval v scope) s₁ (.ok value s₂) →
      key.key?.isSome → EvaluatedEntries scope entries s₂ rest s₃ →
      EvaluatedEntries scope ((k, v) :: entries) s rest s₃

/-- A form is a call of a macro, whose parameters have been bound in a new scope. -/
def Entered (form : Value) (scope : ScopeId) (s : Store) (call : MacroCall) (inner : ScopeId)
    (s' : Store) : Prop :=
  macroCall? s form scope = some call ∧
    enterCall call.scope call.params call.args
      (s.record debugLevel expansionLogger ("Expanding macro " ++ call.name)) = .ok inner s'

end Eval

open Eval

inductive SpecialForm.Starts :
    SpecialForm → List Value → ScopeId → Store → Job → Store → Prop
  | value {name : String} {form : Value} {scope : ScopeId} {s : Store} :
      Starts .define [.sym name, form] scope s (.eval form scope) s
  | binding {binders form : Value} {items rest forms : List Value} {name : String}
      {scope : ScopeId} {s s' : Store} :
      binders.sequence? = some items → items.length % 2 ≠ 1 →
      Bound s.scopes.size items (s.addScope (some scope) "let").2 (.sym name :: form :: rest) s' →
      Starts .bindings (binders :: forms) scope s (.eval form s.scopes.size) s'
  | bodyForm {binders form : Value} {items forms vs rest : List Value} {scope : ScopeId}
      {s s₁ s₂ : Store} :
      binders.sequence? = some items → items.length % 2 ≠ 1 →
      Bound s.scopes.size items (s.addScope (some scope) "let").2 [] s₁ →
      Evaluated s.scopes.size forms s₁ vs (form :: rest) s₂ →
      Starts .bindings (binders :: forms) scope s (.eval form s.scopes.size) s₂
  | form {form : Value} {forms vs rest : List Value} {scope : ScopeId} {s s' : Store} :
      Evaluated scope forms s vs (form :: rest) s' →
      Starts .sequence forms scope s (.eval form scope) s'
  | condition {condition consequent : Value} {alternatives : List Value} {scope : ScopeId}
      {s : Store} :
      alternatives.length ≤ 1 →
      Starts .conditional (condition :: consequent :: alternatives) scope s
        (.eval condition scope) s
  | consequent {condition consequent v : Value} {alternatives : List Value} {scope : ScopeId}
      {s s' : Store} :
      alternatives.length ≤ 1 → EndsWith (.eval condition scope) s (.ok v s') → v.isTruthy →
      Starts .conditional (condition :: consequent :: alternatives) scope s
        (.eval consequent scope) s'
  | alternative {condition consequent alternative v : Value} {scope : ScopeId} {s s' : Store} :
      EndsWith (.eval condition scope) s (.ok v s') → ¬ v.isTruthy →
      Starts .conditional [condition, consequent, alternative] scope s
        (.eval alternative scope) s'
  | template {form code : Value} {scope : ScopeId} {s s' : Store} :
      Template.code form s = .ok code s' →
      Starts .template [form] scope s (.eval code scope) s'
  | expansion {form : Value} {scope : ScopeId} {s : Store} :
      Starts .expansion [form] scope s (.expand form scope) s
  | unguarded {form : Value} {scope : ScopeId} {s : Store} :
      Starts .protect [form] scope s (.eval form scope) s
  | handler {form clause handler : Value} {name : String} {cause : Fault} {scope : ScopeId}
      {s s' : Store} :
      catchClause? clause = some (name, handler) → name ≠ "&" →
      EndsWith (.eval form scope) s (.error (.fault cause) s') →
      Starts .protect [form, clause] scope s (.eval handler s'.scopes.size)
        (s'.catching scope name cause)

/-- The job that a special form starts for the body that it guards. -/
inductive SpecialForm.Guards : SpecialForm → List Value → ScopeId → Store → Job → Store → Prop
  | body {form clause : Value} {scope : ScopeId} {s : Store} :
      (catchClause? clause).isSome → Guards .protect [form, clause] scope s (.eval form scope) s

namespace Job

inductive Starts : Job → Store → Job → Store → Prop
  | macroBody {form : Value} {scope inner : ScopeId} {call : MacroCall} {s s' : Store} :
      Entered form scope s call inner s' →
      Starts (.eval form scope) s (.eval call.body inner) s'
  | expanded {form expanded : Value} {scope inner : ScopeId} {call : MacroCall}
      {s s₁ s₂ : Store} :
      Entered form scope s call inner s₁ →
      EndsWith (.eval call.body inner) s₁ (.ok expanded s₂) →
      Starts (.eval form scope) s (.eval expanded scope) s₂
  | special {id : Identity} {head info : Value} {parts : List Value} {marked : Bool}
      {form : SpecialForm} {scope : ScopeId} {job : Job} {s s' : Store} :
      macroCall? s (.list id (head :: parts) marked info) scope = none →
      head.symbol?.bind SpecialForm.ofName? = some form → form.Starts parts scope s job s' →
      Starts (.eval (.list id (head :: parts) marked info) scope) s job s'
  | head {id : Identity} {head info : Value} {args : List Value} {marked : Bool}
      {scope : ScopeId} {s : Store} :
      macroCall? s (.list id (head :: args) marked info) scope = none →
      head.symbol?.bind SpecialForm.ofName? = none →
      Starts (.eval (.list id (head :: args) marked info) scope) s (.eval head scope) s
  | operand {id : Identity} {head f form info : Value} {args vs rest : List Value}
      {marked : Bool} {scope : ScopeId} {s s₁ s₂ : Store} :
      macroCall? s (.list id (head :: args) marked info) scope = none →
      head.symbol?.bind SpecialForm.ofName? = none →
      EndsWith (.eval head scope) s (.ok f s₁) → Evaluated scope args s₁ vs (form :: rest) s₂ →
      Starts (.eval (.list id (head :: args) marked info) scope) s (.eval form scope) s₂
  | application {id : Identity} {head f info : Value} {args vs : List Value} {marked : Bool}
      {scope : ScopeId} {s s₁ s₂ : Store} :
      macroCall? s (.list id (head :: args) marked info) scope = none →
      head.symbol?.bind SpecialForm.ofName? = none →
      EndsWith (.eval head scope) s (.ok f s₁) → Evaluated scope args s₁ vs [] s₂ →
      Starts (.eval (.list id (head :: args) marked info) scope) s (.call f vs) s₂
  | element {id : Identity} {form info : Value} {items vs rest : List Value} {scope : ScopeId}
      {s s' : Store} :
      Evaluated scope items s vs (form :: rest) s' →
      Starts (.eval (.vec id items info) scope) s (.eval form scope) s'
  | key {id : Identity} {k v info : Value} {entries rest : List (Value × Value)} {marked : Bool}
      {scope : ScopeId} {s s' : Store} :
      EvaluatedEntries scope entries s ((k, v) :: rest) s' →
      Starts (.eval (.map id entries marked info) scope) s (.eval k scope) s'
  | entry {id : Identity} {k v key info : Value} {entries rest : List (Value × Value)}
      {marked : Bool} {scope : ScopeId} {s s₁ s₂ : Store} :
      EvaluatedEntries scope entries s ((k, v) :: rest) s₁ →
      EndsWith (.eval k scope) s₁ (.ok key s₂) →
      Starts (.eval (.map id entries marked info) scope) s (.eval v scope) s₂
  | expandBody {form : Value} {scope inner : ScopeId} {call : MacroCall} {s s' : Store} :
      Entered form scope s call inner s' →
      Starts (.expand form scope) s (.eval call.body inner) s'
  | expandOn {form expanded : Value} {scope inner : ScopeId} {call : MacroCall}
      {s s₁ s₂ : Store} :
      Entered form scope s call inner s₁ →
      EndsWith (.eval call.body inner) s₁ (.ok expanded s₂) →
      Starts (.expand form scope) s (.expand expanded scope) s₂
  | closureBody {id : Identity} {params : List String} {body info : Value}
      {captured inner : ScopeId} {isMacro : Bool} {args : List Value} {s s' : Store} :
      enterCall captured params args s = .ok inner s' →
      Starts (.call (.closure id params body captured isMacro info) args) s (.eval body inner) s'
  | applied {wrapped : Bool} {id : Identity} {f arg info : Value} {more spread : List Value}
      {s s' : Store} :
      elements "apply" ((arg :: more).getLast (by simp)) s = .ok spread s' →
      Starts (.call (.builtin (.core .apply) wrapped id info) (f :: arg :: more)) s
        (.call f ((arg :: more).dropLast ++ spread)) s'
  | swapped {wrapped : Bool} {id : Identity} {f info : Value} {extra : List Value} {a : Address}
      {s : Store} :
      Starts (.call (.builtin (.core .swap) wrapped id info) (.atom a :: f :: extra)) s
        (.call f ((s.content? a).getD .nil :: extra)) s
  | evaluated {wrapped : Bool} {id : Identity} {form info : Value} {s : Store} :
      Starts (.call (.builtin .eval wrapped id info) [form]) s (.eval form rootScope) s

/-- The jobs that are started one by another, none of them guarded. -/
inductive Reaches : Job → Store → Job → Store → Prop
  | refl {job : Job} {s : Store} : Reaches job s job s
  | starts {job job' job'' : Job} {s s' s'' : Store} :
      Starts job s job' s' → Reaches job' s' job'' s'' → Reaches job s job'' s''

/-- The job for a guarded body. -/
inductive Guards : Job → Store → Job → Store → Prop
  | special {id : Identity} {head info : Value} {parts : List Value} {marked : Bool}
      {form : SpecialForm} {scope : ScopeId} {job : Job} {s s' : Store} :
      macroCall? s (.list id (head :: parts) marked info) scope = none →
      head.symbol?.bind SpecialForm.ofName? = some form → form.Guards parts scope s job s' →
      Guards (.eval (.list id (head :: parts) marked info) scope) s job s'

end Job

end SmallLisp
