import SmallLisp.Datum.Key

/-!
# Data

A datum is what a text denotes before anything is evaluated: constants, symbols, keywords and
collections of data. Data carry no identity; two readings of one text are the same datum.
-/

namespace SmallLisp

inductive Datum where
  | nil
  | bool (b : Bool)
  | int (n : Int)
  | float (x : Flonum)
  | nan
  | str (s : String)
  | sym (name : String)
  | kw (name : String)
  | list (items : List Datum)
  | vec (items : List Datum)
  | map (entries : List (Datum × Datum))
  deriving Inhabited

namespace Datum

/-- The key under which a map keeps an entry of this datum. Collections are no keys, and all
NaNs of a text are one. -/
def key? : Datum → Option Key
  | nil => some .nil
  | bool b => some (.ofBool b)
  | int n => some (.int n)
  | float x => some (.ofFlonum x)
  | nan => some (.nan 0)
  | str s => some (.str s)
  | sym name => some (.sym name)
  | kw name => some (.kw name)
  | list _ | vec _ | map _ => none

/-- Consecutive data in pairs; `none` when one is left over. -/
def pairs? : List Datum → Option (List (Datum × Datum))
  | [] => some []
  | [_] => none
  | k :: v :: rest => (pairs? rest).map ((k, v) :: ·)

/-- A form wrapped by a prefix: a list of the symbol that the prefix stands for and the form. -/
def wrapped (head : String) (d : Datum) : Datum := list [sym head, d]

end Datum

end SmallLisp
