import SmallLisp.Core.Arithmetic
import SmallLisp.Core.Cell
import SmallLisp.Core.Metadata
import SmallLisp.Core.Sequence
import SmallLisp.Core.Text

/-!
# The core namespace

What each core function does with its arguments.
-/

namespace SmallLisp.Core

open Eval

def test (function : String) (property : Value → Bool) (args : List Value) : Eval Value := do
  return .bool (property (← single function args))

def raiseValue (args : List Value) : Eval Value := do
  let value ← single "throw" args
  throw (.fault (.raised value (← represent value)))

/-- The first true argument, or the last argument when none is true. -/
def disjunction (args : List Value) : Value :=
  args.foldl (fun found v => if found.isTruthy then found else v) (.bool false)

/-- The first false argument, or the last argument when all are true. -/
def conjunction (args : List Value) : Value :=
  args.foldl (fun found v => if found.isTruthy then v else found) (.bool true)

/-- Apply a function to arguments of which the last one is a sequence of arguments. -/
def applySpread (nested : Nested) (args : List Value) : Eval Value :=
  match args with
  | f :: arg :: more => do
    let spread ← elements "apply" ((arg :: more).getLast (by simp))
    nested (.call f ((arg :: more).dropLast ++ spread))
  | _ => throw (.arity .applyShape)

/-- Run a core function. Calls back into the program are nested, and a progression that goes on
for more than `limit` numbers is given up. -/
def run (f : Core) (nested : Nested) (limit : Nat) (args : List Value) : Eval Value :=
  match f with
  | .raise => raiseValue args
  | .isNil => test "nil?" (fun v => v matches .nil) args
  | .isTrue => test "true?" (fun v => v matches .bool true) args
  | .isFalse => test "false?" (fun v => v matches .bool false) args
  | .isNumber => test "number?" (fun v => v.number?.isSome) args
  | .isString => test "string?" (fun v => v matches .str _) args
  | .symbol => TextFunction.symbol args
  | .isSymbol => test "symbol?" (fun v => v matches .sym _) args
  | .keyword => TextFunction.keyword args
  | .isKeyword => test "keyword?" (fun v => v matches .kw _) args
  | .isFn => test "fn?" Value.isFunction args
  | .isMacro => test "macro?" Value.isMacro args
  | .equal => do
    let (a, b) ← double "=" args
    return .bool (a.equal b)
  | .less => Arithmetic.compare "<" Number.lt args
  | .lessEqual => Arithmetic.compare "<=" Number.le args
  | .greater => Arithmetic.compare ">" (fun a b => b.lt a) args
  | .greaterEqual => Arithmetic.compare ">=" (fun a b => b.le a) args
  | .or => return disjunction args
  | .and => return conjunction args
  | .add => Arithmetic.sum args
  | .sub => Arithmetic.difference args
  | .mul => Arithmetic.product args
  | .div => Arithmetic.quotient args
  | .list => newList args
  | .isList => test "list?" (fun v => v matches .list ..) args
  | .vector => newVec args
  | .isVector => test "vector?" (fun v => v matches .vec ..) args
  | .isMap => test "map?" (fun v => v matches .map ..) args
  | .nth => Sequence.nth args
  | .first => Sequence.first args
  | .rest => Sequence.rest args
  | .last => Sequence.last args
  | .isEmpty => Sequence.isEmpty args
  | .count => Sequence.count args
  | .apply => applySpread nested args
  | .str => TextFunction.concatenate args
  | .prn => TextFunction.writeLine .readable args
  | .println => TextFunction.writeLine .display args
  | .readString => TextFunction.read args
  | .cons => Sequence.cons args
  | .concat => Sequence.concat args
  | .metaOf => Metadata.infoOf args
  | .withMeta => Metadata.withInfo args
  | .atom => Cell.create args
  | .isAtom => test "atom?" (fun v => v matches .atom _) args
  | .deref => Cell.deref args
  | .reset => Cell.reset args
  | .swap => Cell.swap nested args
  | .range => Arithmetic.range limit args

end SmallLisp.Core
