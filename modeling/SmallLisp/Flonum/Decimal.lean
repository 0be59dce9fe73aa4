import SmallLisp.Flonum.Nearest

/-!
# Flonums as decimal text

A flonum is written with the fewest decimal digits that read back as the same flonum, and among
those with the digits nearest to its value. The text is positional for magnitudes from `1e-4` up
to below `1e16`, with at least one digit on both sides of the point, and has an exponent of at
least two digits outside that range.
-/

namespace SmallLisp.Flonum

/-- A number of decimal digits: `digits * 10 ^ exponent`. -/
structure Decimal where
  digits : Nat
  exponent : Int
  deriving DecidableEq, Repr

/-- A decimal reads back as `x` when `x` is the flonum nearest to it. -/
def Decimal.readsAs (d : Decimal) (x : Flonum) : Bool :=
  decide (ofDecimal x.neg d.digits d.exponent = x)

/-- Every finite flonum is a decimal, since one unit is `5 ^ 1074 * 10 ^ -1074`. -/
def exactDecimal (x : Flonum) : Decimal := ⟨x.units * Nat.pow 5 1074, -1074⟩

/-- The number of digits before the point, which is negative for magnitudes below a tenth. -/
def pointPlace (x : Flonum) : Int :=
  ((Nat.toDigits 10 (x.units * Nat.pow 10 400 / oneUnits)).length : Int) - 400

/-- The neighbours of a magnitude on the grid of `count` digits that read back as it, the nearer
one first and the even one first when both are equally near. -/
def candidates (x : Flonum) (count : Nat) : List Decimal :=
  let exponent := x.pointPlace - count
  let num := if exponent < 0 then x.units * Nat.pow 10 (-exponent).toNat else x.units
  let den := if exponent < 0 then oneUnits else oneUnits * Nat.pow 10 exponent.toNat
  let below := num / den
  let twice := 2 * (num % den)
  let ordered :=
    if twice < den || (twice == den && below % 2 == 0) then [below, below + 1]
    else [below + 1, below]
  (ordered.map fun digits => ⟨digits, exponent⟩).filter (·.readsAs x)

/-- The shortest decimal that reads back. Seventeen digits suffice for every double. -/
def shortest (x : Flonum) : Decimal :=
  ((List.range 17).findSome? fun i => (x.candidates (i + 1)).head?).getD x.exactDecimal

theorem readsAs_of_mem_candidates {x : Flonum} {count : Nat} {d : Decimal}
    (h : d ∈ x.candidates count) : d.readsAs x = true := by
  simp only [candidates, List.mem_filter] at h
  exact h.2

theorem readsAs_shortest {x : Flonum} (h : x.exactDecimal.readsAs x = true) :
    x.shortest.readsAs x = true := by
  unfold shortest
  cases hfind : (List.range 17).findSome? fun i => (x.candidates (i + 1)).head? with
  | none => exact h
  | some d =>
    obtain ⟨i, -, hi⟩ := List.exists_of_findSome?_eq_some hfind
    exact readsAs_of_mem_candidates (List.mem_of_head? hi)

def significantDigits (n : Nat) : List Char :=
  ((Nat.toDigits 10 n).reverse.dropWhile (· == '0')).reverse

/-- The exponent part of a text: a sign and at least two digits. -/
def exponentText (e : Int) : List Char :=
  let digits := Nat.toDigits 10 e.natAbs
  'e' :: (if e < 0 then '-' else '+') :: (if digits.length < 2 then '0' :: digits else digits)

/-- Digits with the point after the first `place` of them. -/
def positional (digits : List Char) (place : Int) : List Char :=
  if place ≤ 0 then '0' :: '.' :: (List.replicate (-place).toNat '0' ++ digits)
  else if digits.length ≤ place.toNat then
    digits ++ List.replicate (place.toNat - digits.length) '0' ++ ['.', '0']
  else digits.take place.toNat ++ '.' :: digits.drop place.toNat

def scientific (digits : List Char) (place : Int) : List Char :=
  let tail := digits.drop 1
  digits.take 1 ++ (if tail.isEmpty then [] else '.' :: tail) ++ exponentText (place - 1)

/-- The text of a magnitude that is neither zero nor infinite. -/
def decimalText (d : Decimal) : List Char :=
  let place := d.exponent + ((Nat.toDigits 10 d.digits).length : Int)
  let digits := significantDigits d.digits
  if -4 < place && place ≤ 16 then positional digits place else scientific digits place

def sign (x : Flonum) : List Char := if x.neg then ['-'] else []

/-- The text of a flonum; the infinities are spelled out. -/
def text (x : Flonum) : String :=
  String.ofList <| x.sign ++
    if x.isZero then ['0', '.', '0']
    else if x.isInfinite then ['i', 'n', 'f']
    else decimalText x.shortest

end SmallLisp.Flonum
