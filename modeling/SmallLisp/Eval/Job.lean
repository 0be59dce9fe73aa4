import SmallLisp.Eval.Basic

/-!
# Jobs

What an activation of the evaluator has to do is a job. One pass of the evaluator either finishes
its job or replaces it by the job that is left, which is how calls in tail position need no
activation of their own.
-/

namespace SmallLisp

/-- What to do: evaluate a form in a scope, expand the macro calls at its head, or apply a value
to arguments. -/
inductive Job where
  | eval (form : Value) (scope : ScopeId)
  | expand (form : Value) (scope : ScopeId)
  | call (f : Value) (args : List Value)

/-- How a pass ends: with the value of the job, or with the job that is left to do. -/
inductive Step where
  | done (value : Value)
  | next (job : Job)

/-- A job done by an activation of its own. -/
abbrev Nested := Job → Eval Value

namespace Nested

variable (nested : Nested)

def eval (form : Value) (scope : ScopeId) : Eval Value := nested (.eval form scope)

def evalAll (forms : List Value) (scope : ScopeId) : Eval (List Value) :=
  forms.mapM fun form => nested.eval form scope

end Nested

end SmallLisp
