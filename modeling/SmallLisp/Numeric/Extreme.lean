import SmallLisp.Numeric.Arguments

/-!
# Greatest and least values

Numbers, strings and sequences can be ordered, each among themselves; sequences are compared
element by element, at the first place where they differ. Of equal values the first one is kept.
-/

namespace SmallLisp

namespace Value

mutual

/-- Whether two values are equal where sequences are compared: collections by content, truth
values as numbers, and everything else as the language does. -/
def alike : Value → Value → Bool
  | list _ xs _ _, list _ ys _ _ => allAlike xs ys
  | list _ xs _ _, vec _ ys _ => allAlike xs ys
  | vec _ xs _, list _ ys _ _ => allAlike xs ys
  | vec _ xs _, vec _ ys _ => allAlike xs ys
  | map _ xs _ _, map _ ys _ _ => xs.length == ys.length && entriesAlike xs ys
  | pair _ a b, pair _ c d => alike a c && alike b d
  | v, w =>
    v.equal w ||
      match v.quantity?, w.quantity? with
      | some m, some n => m.eq n
      | _, _ => false

def allAlike : List Value → List Value → Bool
  | [], [] => true
  | v :: vs, w :: ws => alike v w && allAlike vs ws
  | _, _ => false

def entriesAlike : List (Value × Value) → List (Value × Value) → Bool
  | [], _ => true
  | (k, v) :: rest, entries =>
    (match entries.find? fun entry => entry.1.key? == k.key? with
      | some (_, w) => alike v w
      | none => false) && entriesAlike rest entries

end

end Value

inductive Comparison where
  | less
  | greater
  deriving DecidableEq

namespace Comparison

def symbol : Comparison → String
  | less => "<"
  | greater => ">"

def converse : Comparison → Comparison
  | less => greater
  | greater => less

def onNumbers : Comparison → Number → Number → Bool
  | less, a, b => a.lt b
  | greater, a, b => b.lt a

def onStrings : Comparison → String → String → Bool
  | less, a, b => a < b
  | greater, a, b => b < a

/-- The fault of two values without an order, as it reads for a comparison that was turned
around. -/
def unordered (op : Comparison) (turned : Bool) (a b : Value) : HostFault :=
  if turned then .notOrdered op.converse.symbol b.typeName a.typeName
  else .notOrdered op.symbol a.typeName b.typeName

/-- A plain list on the left of a more special sequence is compared the other way around. -/
def turns (a b : Value) : Bool :=
  match a, b with
  | .list _ _ false _, .list _ _ true _ => true
  | .list _ _ false _, .vec .. => true
  | _, _ => false

mutual

/-- Compare two values, where `turned` tells whether the comparison reads the other way
around. -/
def holds (op : Comparison) (turned : Bool) : Value → Value → Except HostFault Bool
  | .list i xs m info, .list j ys n other =>
    let a := Value.list i xs m info
    let b := Value.list j ys n other
    itemsHold op (if turned then !turns b a else turns a b) xs ys
  | .list i xs m info, .vec j ys other =>
    let a := Value.list i xs m info
    let b := Value.vec j ys other
    itemsHold op (if turned then !turns b a else turns a b) xs ys
  | .vec i xs info, .list j ys n other =>
    let a := Value.vec i xs info
    let b := Value.list j ys n other
    itemsHold op (if turned then !turns b a else turns a b) xs ys
  | .vec _ xs _, .vec _ ys _ => itemsHold op turned xs ys
  | .pair _ a b, .pair _ c d =>
    if a.alike c then (if b.alike d then .ok false else holds op turned b d)
    else holds op turned a c
  | .str s, .str t => .ok (op.onStrings s t)
  | v, w =>
    match v.quantity?, w.quantity? with
    | some m, some n => .ok (op.onNumbers m n)
    | _, _ => .error (unordered op turned v w)

/-- Compare two sequences at the first place where they differ, or else by their lengths. -/
def itemsHold (op : Comparison) (turned : Bool) : List Value → List Value → Except HostFault Bool
  | [], [] => .ok false
  | [], _ :: _ => .ok (op == less)
  | _ :: _, [] => .ok (op == greater)
  | v :: vs, w :: ws =>
    if v.alike w then itemsHold op turned vs ws else holds op turned v w

end

/-- The first of several items that no other one exceeds in the sense of the comparison. -/
def extreme (op : Comparison) : (best : Value) → List Value → Except HostFault Value
  | best, [] => .ok best
  | best, item :: rest => do
    if ← holds op false item best then extreme op item rest else extreme op best rest

/-- The greatest or least argument; a single argument yields the items to choose from. -/
def choose (op : Comparison) (function : String) (args : List Value) : Except HostFault Value :=
  match args with
  | [] => .error (.counts (.expected function "at least " 1 0))
  | [v] => do
    match ← v.toItems with
    | [] => .error (.emptyArgument function)
    | item :: rest => extreme op item rest
  | item :: rest => extreme op item rest

end Comparison

end SmallLisp
