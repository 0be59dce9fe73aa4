import SmallLisp.Core.Arguments

/-!
# Arithmetic of the core namespace

Operations fold their arguments from left to right, and comparisons take two. Operands are
numbers; truth values are not.
-/

namespace SmallLisp.Arithmetic

open Eval

def fold (op : Number → Number → Except HostFault Number) : Number → List Number → Eval Number
  | total, [] => return total
  | total, n :: rest => do fold op (← ofHost (op total n)) rest

def sum (args : List Value) : Eval Value := do
  ofNumber (← fold Number.add (.int 0) (← numbers "+" args))

/-- The difference of the first number and all others. One number is negated. -/
def difference (args : List Value) : Eval Value := do
  match ← numbers "-" args with
  | [] => return .int 0
  | [n] => ofNumber n.neg
  | n :: rest => ofNumber (← fold Number.sub n rest)

def product (args : List Value) : Eval Value := do
  ofNumber (← fold Number.mul (.int 1) (← numbers "*" args))

def foldQuotient : Number → List Number → Eval Number
  | total, [] => return total
  | total, n :: rest => do
    match ← ofHost (total.div? n) with
    | some q => foldQuotient q rest
    | none => throw (.primitive .divisionByZero)

/-- The quotient of the first number by all others. One number is its own quotient. -/
def quotient (args : List Value) : Eval Value := do
  match args, ← numbers "/" args with
  | _, [] => return .nil
  | arg :: _, [_] => return arg
  | _, n :: rest => ofNumber (← foldQuotient n rest)

def compare (symbol : String) (op : Number → Number → Bool) (args : List Value) : Eval Value := do
  let (a, b) ← double symbol args
  match ← numbers symbol [a, b] with
  | [m, n] => return .bool (op m n)
  | _ => return .bool false

/-- The numbers from `start` on that are below `stop`, each `step` above the one before it, in
reverse order and in front of `passed`. A progression that has not reached `stop` after `limit`
numbers is given up. -/
def progression (stop step : Number) : (limit : Nat) → (start : Number) → (passed : List Number) →
    Except Stop (List Number)
  | 0, _, _ => .error .passesExhausted
  | limit + 1, start, passed =>
    if start.lt stop then
      match start.add step with
      | .ok next => progression stop step limit next (start :: passed)
      | .error fault => .error (.host fault)
    else .ok passed

/-- The arithmetic progression from a start, zero by default, to below an end, by a step that is
one by default. -/
def range (limit : Nat) (args : List Value) : Eval Value := do
  let go (start stop step : Number) : Eval Value := do
    let reversed ← Eval.ofExcept (progression stop step limit start [])
    newList (← reversed.reverse.mapM ofNumber)
  match args with
  | [_] | [_, _] | [_, _, _] =>
    match ← numbers "range" args with
    | [stop] => go (.int 0) stop (.int 1)
    | [start, stop] => go start stop (.int 1)
    | [start, stop, step] => go start stop step
    | _ => newList []
  | _ => wrongCount "range" [1, 2, 3] args

end SmallLisp.Arithmetic
