import Mathlib.Tactic
import SmallLisp.Proofs.Eval.Trampoline

/-!
# Filled templates

What a template means is said here without the code that it is rewritten into. Filling keeps what
is not unquoted, evaluates the unquoted forms where they stand and puts the elements of a spliced
sequence in the place of the splice. Filling is defined as long as every unquoted form has a value,
everything that is spliced is a sequence, and nobody takes away the functions that build lists.
-/

namespace SmallLisp.Template

open Eval

/-- Wherever a symbol is bound, a call of it is no macro call. -/
def NoMacro (scope : ScopeId) (s : Store) (name : String) : Prop :=
  ∀ owner value, s.lookup? scope name = some (owner, value) → value.isMacro = false

def MeansCore (scope : ScopeId) (s : Store) (name : String) (f : Core) : Prop :=
  ∃ owner wrapped id info, s.lookup? scope name = some (owner, .builtin (.core f) wrapped id info)

/-- The names that the code of a template uses have their first meaning. -/
structure Standard (scope : ScopeId) (s : Store) : Prop where
  cons : MeansCore scope s "cons" .cons
  concat : MeansCore scope s "concat" .concat
  quote : NoMacro scope s "quote"
  quasiquote : NoMacro scope s "quasiquote"

/-- The elements that a value contributes to a list; nil counts as empty. -/
def elements? : Value → Option (List Value)
  | .nil => some []
  | v => v.sequence?

def afterList (s : Store) : Store := { s with nextIdentity := s.nextIdentity + 1 }

def listIn (s : Store) (items : List Value) : Value := .plainList s.nextIdentity items

mutual

/-- A template is filled, from one store to another. What is no sequence with elements is kept. -/
inductive Fills (scope : ScopeId) : Value → Store → Value → Store → Prop
  | kept {t : Value} {s : Store} : t.sequence?.getD [] = [] → Fills scope t s t s
  | sequence {t v : Value} {items : List Value} {s s' : Store} :
      t.sequence? = some items → FillsItems scope items s v s' → Fills scope t s v s'

/-- The value that items of a template are filled to. An `unquote` in front of the last item takes
the value of that item, whatever it is. -/
inductive FillsItems (scope : ScopeId) : List Value → Store → Value → Store → Prop
  | unquote {form v : Value} {s s' : Store} :
      EndsWith (.eval form scope) s (.ok v s') → Standard scope s' →
      FillsItems scope [.sym "unquote", form] s v s'
  | splice {head form v : Value} {rest first others : List Value} {s s₁ s₂ : Store} :
      head.isSymbol "unquote" = false → spliced? head = some [form] →
      EndsWith (.eval form scope) s (.ok v s₁) → Standard scope s₁ → elements? v = some first →
      FillsRest scope rest s₁ others s₂ →
      FillsItems scope (head :: rest) s (listIn s₂ (first ++ others)) (afterList s₂)
  | item {head v : Value} {rest others : List Value} {s s₁ s₂ : Store} :
      head.isSymbol "unquote" = false → spliced? head = none →
      Fills scope head s v s₁ → FillsRest scope rest s₁ others s₂ →
      FillsItems scope (head :: rest) s (listIn s₂ (v :: others)) (afterList s₂)

/-- The elements that the rest of the items contributes. -/
inductive FillsRest (scope : ScopeId) : List Value → Store → List Value → Store → Prop
  | nil {s : Store} : FillsRest scope [] s [] s
  | items {rest others : List Value} {v : Value} {s s' : Store} :
      FillsItems scope rest s v s' → elements? v = some others → FillsRest scope rest s others s'

end

mutual

/-- The unquoted forms of a template from left to right. -/
def unquoted : Value → List Value
  | .list _ items _ _ => unquotedItems items
  | .vec _ items _ => unquotedItems items
  | _ => []

def unquotedItems : List Value → List Value
  | [] => []
  | head :: rest =>
    if head.isSymbol "unquote" then rest
    else
      match spliced? head with
      | some forms => forms ++ unquotedItems rest
      | none => unquoted head ++ unquotedItems rest

end

/-- Two stores that differ at most in the next unused identity. -/
def SameState (s s' : Store) : Prop := s' = { s with nextIdentity := s'.nextIdentity }

/-- Forms are evaluated one after the other, each of them once, and nothing else happens. -/
inductive EvaluatesEach (scope : ScopeId) : List Value → Store → Store → Prop
  | done {s s' : Store} : SameState s s' → EvaluatesEach scope [] s s'
  | next {form v : Value} {forms : List Value} {s s₁ s₂ s' : Store} :
      SameState s s₁ → EndsWith (.eval form scope) s₁ (.ok v s₂) →
      EvaluatesEach scope forms s₂ s' → EvaluatesEach scope (form :: forms) s s'

end SmallLisp.Template
