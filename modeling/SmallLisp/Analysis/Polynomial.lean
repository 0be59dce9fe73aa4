/-!
# Polynomials on doubles

Polynomials are evaluated in pairs of terms, which fixes the order of the roundings.
-/

namespace SmallLisp.Analysis

/-- The value at `x` of the polynomial with the given coefficients, lowest power first. Each pair
of neighbouring terms is added up on its own, and `power` is the power of `x` in front of the
first pair. -/
def pairwise (x square : Float) : (power total : Float) → List Float → Float
  | _, total, [] => total
  | power, total, [a] => total + power * a
  | power, total, a :: b :: rest =>
    pairwise x square (power * square) (total + power * (a + x * b)) rest

/-- The value of a polynomial at `x`, in pairs of terms. -/
def polynomial (coefficients : List Float) (x : Float) : Float :=
  match coefficients with
  | [] => 0.0
  | [a] => a
  | a :: b :: rest => pairwise x (x * x) (x * x) (a + x * b) rest

def upperBits (x : Float) : Nat := (x.toBits >>> 32).toNat

/-- The double with the lower half of its bits set to zero. -/
def upperHalf (x : Float) : Float := Float.ofBits (x.toBits &&& 0xFFFFFFFF00000000)

/-- The power of two below a positive double. -/
def binaryExponent (x : Float) : Int := ((upperBits x / Nat.pow 2 20 : Nat) : Int) - 1023

def ofInt (n : Int) : Float := Float.ofInt n

end SmallLisp.Analysis
