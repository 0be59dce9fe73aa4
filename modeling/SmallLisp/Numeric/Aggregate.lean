import SmallLisp.Numeric.Arguments

/-!
# Sums, products and lengths

Sums and lengths are exact before they are rounded once. A product goes from left to right and
may also repeat a string or a list.
-/

namespace SmallLisp.Aggregate

/-- What was added up so far: finite flonums in units, and the infinities and NaNs apart. -/
structure Total where
  units : Int
  top : Bool
  bottom : Bool
  nan : Bool

/-- Add a double to a total. The finite part may not leave the range of the doubles on the way,
and starts anew behind an infinity or NaN. -/
def Total.add (t : Total) : Double → Except HostFault Total
  | none => .ok { t with units := 0, nan := true }
  | some x =>
    if x.isInfinite then
      .ok { t with units := 0, top := t.top || !x.neg, bottom := t.bottom || x.neg }
    else
      let units := t.units + x.signedUnits
      if (Flonum.ofSignedUnits units).isInfinite then .error .sumOverflow
      else .ok { t with units }

def Total.result (t : Total) : Except HostFault Double :=
  if t.top && t.bottom then .error .oppositeInfinities
  else if t.nan then .ok none
  else if t.top then .ok (some (.infinity false))
  else if t.bottom then .ok (some (.infinity true))
  else .ok (some (.ofSignedUnits t.units))

def fsum (v : Value) : Except HostFault Double := do
  let items ← v.toItems
  let total ← items.foldlM
    (fun (t : Total) item => do t.add (← item.toDouble)) ⟨0, false, false, false⟩
  total.result

/-- The elements repeated; a negative count gives none. -/
def repeated {α : Type} (count : Int) (items : List α) : List α :=
  (List.replicate count.toNat items).flatten

def repetitions (count : Int) : Except HostFault Int :=
  if Nat.pow 2 63 ≤ count then .error .indexTooLarge else .ok count

def repeatText (count : Int) (s : String) : Except HostFault Outcome := do
  return .value (.str (String.ofList (repeated (← repetitions count) s.toList)))

def repeatItems (count : Int) (vs : List Value) : Except HostFault Outcome := do
  return .items (repeated (← repetitions count) vs)

/-- Multiply a number by something that is none. Only an integer repeats strings and lists. -/
def timesOther (m : Number) (v : Value) : Except HostFault Outcome :=
  match m, v, v.sequence? with
  | .int count, .str s, _ => repeatText count s
  | .int count, _, some vs => repeatItems count vs
  | .int _, _, none => .error (.noProduct "int" v.typeName)
  | _, .str _, _ => .error (.sequenceTimes "float")
  | _, _, some _ => .error (.sequenceTimes "float")
  | _, _, none => .error (.noProduct "float" v.typeName)

def times (product : Outcome) (v : Value) : Except HostFault Outcome :=
  match product, v.quantity? with
  | .number m, some n => do return .number (← m.mul n)
  | .number m, none => timesOther m v
  | .value (.str s), some (.int count) => repeatText count s
  | .items vs, some (.int count) => repeatItems count vs
  | _, _ => .error (.sequenceTimes v.typeName)

def prod (args : List Value) : Except HostFault Outcome :=
  match args with
  | [v] => do (← v.toItems).foldlM times (.int 1)
  | [] | [_, _] => .error (.counts (.takesExactly "prod" 1 args.length))
  | _ => .error (.counts (.takesAtMost "prod" 2 args.length))

/-- The length of a vector of doubles. An infinite coordinate makes it infinite, also beside
NaN. -/
def norm (coordinates : List Double) : Double :=
  if coordinates.any fun c => c.any (·.isInfinite) then some (.infinity false)
  else (coordinates.mapM id).map Flonum.length

def hypot (args : List Value) : Except HostFault Double := do
  return norm (← args.mapM Value.toDouble)

def dist (v w : Value) : Except HostFault Double := do
  let p ← v.toItems
  let q ← w.toItems
  if p.length ≠ q.length then .error .dimensions
  else
    let differences ← (p.zip q).mapM fun (a, b) => do
      let x ← a.toDouble
      let y ← b.toDouble
      return Double.ofMachine (x.toMachine - y.toMachine).abs
    return norm differences

end SmallLisp.Aggregate
