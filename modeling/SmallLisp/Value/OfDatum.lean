import SmallLisp.Value.Basic

/-!
# Data as values

A datum becomes a value when its collections are given identities. Every `##NaN` of a text is the
same object.
-/

namespace SmallLisp.Datum

/-- An identity that no value has yet. The state is the next unused one. -/
def freshIdentity : StateM Identity Identity := fun next => (next, next + 1)

mutual

/-- The value of a datum, with new identities for its collections. -/
def toValue : Datum → StateM Identity Value
  | nil => return .nil
  | bool b => return .bool b
  | int n => return .int n
  | float x => return .float x
  | nan => return .nan Value.literalNan
  | str s => return .str s
  | sym name => return .sym name
  | kw name => return .kw name
  | list items => do
    let values ← toValues items
    return .plainList (← freshIdentity) values
  | vec items => do
    let values ← toValues items
    return .plainVec (← freshIdentity) values
  | map entries => do
    let values ← toValueEntries entries
    return .plainMap (← freshIdentity) values

def toValues : List Datum → StateM Identity (List Value)
  | [] => return []
  | d :: rest => do
    let v ← toValue d
    let vs ← toValues rest
    return v :: vs

def toValueEntries : List (Datum × Datum) → StateM Identity (List (Value × Value))
  | [] => return []
  | (k, d) :: rest => do
    let key ← toValue k
    let v ← toValue d
    let entries ← toValueEntries rest
    return (key, v) :: entries

end

end SmallLisp.Datum
