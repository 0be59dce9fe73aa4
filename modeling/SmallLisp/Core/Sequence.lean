import SmallLisp.Core.Arguments

/-!
# Sequences of the core namespace

Lists and vectors are sequences, and nil reads as the empty one. What is built from sequences is
always a new list.
-/

namespace SmallLisp.Sequence

open Eval

def index (v : Value) : Eval Int := do
  match v.number? with
  | some n =>
    let i ← ofHost n.truncated
    if n.eq (.int i) then return i else throw (.primitive (.notIndex (← represent v)))
  | none => throw (.primitive (.notIndex (← represent v)))

def nth (args : List Value) : Eval Value := do
  let (xs, position) ← double "nth" args
  let items ← elements "nth" xs
  let i ← index position
  match items[i.toNat]? with
  | some item => if 0 ≤ i then return item else throw (.primitive .indexOutOfRange)
  | none => throw (.primitive .indexOutOfRange)

def first (args : List Value) : Eval Value := do
  return (← elements "first" (← single "first" args)).headD .nil

def last (args : List Value) : Eval Value := do
  return (← elements "last" (← single "last" args)).getLastD .nil

def rest (args : List Value) : Eval Value := do
  newList ((← elements "rest" (← single "rest" args)).drop 1)

def isEmpty (args : List Value) : Eval Value := do
  return .bool (← elements "empty?" (← single "empty?" args)).isEmpty

def count (args : List Value) : Eval Value := do
  match ← single "count" args with
  | .str s => return .int s.length
  | .map _ entries _ _ => return .int entries.length
  | xs => return .int (← elements "count" xs).length

def cons (args : List Value) : Eval Value := do
  let (head, tail) ← double "cons" args
  newList (head :: (← elements "cons" tail))

def concat (args : List Value) : Eval Value := do
  newList (← args.mapM (elements "concat")).flatten

end SmallLisp.Sequence
