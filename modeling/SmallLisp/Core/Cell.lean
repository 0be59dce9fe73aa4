import SmallLisp.Core.Arguments

/-!
# Atoms of the core namespace

An atom is a cell of the store. Reading gives its content and writing replaces it; a swap writes
the value of a function at the old content, after the function has returned.
-/

namespace SmallLisp.Cell

open Eval

def create (args : List Value) : Eval Value := do
  let content ← single "atom" args
  fun s =>
    let (address, s') := s.addContent content
    .ok (.atom address) s'

def read (address : Address) : Eval Value := do
  return ((← get).content? address).getD .nil

def write (address : Address) (value : Value) : Eval Value := do
  modify fun s => s.setContent address value
  return value

def deref (args : List Value) : Eval Value := do
  read (← address "deref" (← single "deref" args))

def reset (args : List Value) : Eval Value := do
  let (cell, value) ← double "reset!" args
  write (← address "reset!" cell) value

def swap (nested : Nested) (args : List Value) : Eval Value :=
  match args with
  | cell :: f :: extra => do
    let a ← address "swap!" cell
    write a (← nested (.call f ((← read a) :: extra)))
  | _ => throw (.arity .swapShape)

end SmallLisp.Cell
