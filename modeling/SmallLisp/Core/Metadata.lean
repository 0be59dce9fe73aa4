import SmallLisp.Core.Arguments

/-!
# Metadata of the core namespace

A value with metadata is a new object with the same content. Only collections and functions have
room for metadata.
-/

namespace SmallLisp.Value

/-- The value with other metadata, as the object with the given identity. -/
def withInfo? (v : Value) (id : Identity) (info : Value) : Option Value :=
  match v with
  | list _ items _ _ => some (list id items true info)
  | vec _ items _ => some (vec id items info)
  | map _ entries _ _ => some (map id entries true info)
  | closure _ params body scope isMacro _ => some (closure id params body scope isMacro info)
  | builtin f _ _ _ => some (builtin f true id info)
  | _ => none

end SmallLisp.Value

namespace SmallLisp.Metadata

open Eval

def infoOf (args : List Value) : Eval Value := do
  return (← single "meta" args).info

def withInfo (args : List Value) : Eval Value := do
  let (v, info) ← double "with-meta" args
  match v.withInfo? (← fresh) info with
  | some marked => return marked
  | none => throw (.primitive (.noMetadata (← represent v)))

end SmallLisp.Metadata
