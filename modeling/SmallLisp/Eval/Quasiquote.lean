import SmallLisp.Eval.Basic

/-!
# Templates

A template is rewritten into code that builds it. Nothing is evaluated here: the unquoted forms
stand in the code and are evaluated when the code runs.
-/

namespace SmallLisp

def Value.isSymbol (name : String) (v : Value) : Bool := v.symbol? == some name

namespace Template

/-- A new list that applies the given symbol. -/
def form (head : String) (args : List Value) : Eval Value := Eval.newList (.sym head :: args)

/-- The forms behind `splice-unquote` when a value is a sequence headed by it. -/
def spliced? (v : Value) : Option (List Value) :=
  match v.sequence? with
  | some (head :: args) => if head.isSymbol "splice-unquote" then some args else none
  | _ => none

mutual

/-- The code that builds a template. What is not a sequence with elements is quoted as it is. -/
def code : Value → Eval Value
  | .list id items marked info =>
    if items.isEmpty then form "quote" [.list id items marked info] else codeOfItems items
  | .vec id items info =>
    if items.isEmpty then form "quote" [.vec id items info] else codeOfItems items
  | other => form "quote" [other]

/-- The code that builds a list of the given elements. An `unquote` in front of the last element
makes that element supply the whole list. -/
def codeOfItems : List Value → Eval Value
  | [] => do form "quote" [← Eval.newList []]
  | head :: rest =>
    if head.isSymbol "unquote" then
      match rest with
      | [unquoted] => pure unquoted
      | _ => throw (.form .unquoteShape)
    else
      match spliced? head with
      | some [sequence] => do form "concat" [sequence, ← codeOfItems rest]
      | some _ => throw (.form .spliceShape)
      | none => do
        let first ← code head
        form "cons" [first, ← codeOfItems rest]

end

end Template

end SmallLisp
