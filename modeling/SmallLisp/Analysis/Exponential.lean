import SmallLisp.Analysis.Polynomial

/-!
# Exponential and logarithm near one

`exp x - 1` and `log (1 + x)` without the loss of digits that the subtraction and the addition
would bring for small `x`. The argument is reduced by a multiple of the logarithm of two, held in
two parts, and the rest is approximated by a polynomial.
-/

namespace SmallLisp.Analysis

/-- The leading part of the logarithm of two. -/
def ln2High : Float := 6.93147180369123816490e-01

def ln2Low : Float := 1.90821492927058770002e-10

def expm1Coefficients : List Float :=
  [1.0, -3.33333333333331316428e-02, 1.58730158725481460165e-03, -7.93650757867487942473e-05,
    4.00821782732936239552e-06, -2.01099218183624371326e-07]

/-- The exponential less one of a reduced argument `x`, which misses the part `c`, scaled back by
`2 ^ k`. -/
def expm1Reduced (k : Int) (x c : Float) : Float :=
  let half := 0.5 * x
  let square := x * half
  let r := polynomial expm1Coefficients square
  let t := 3.0 - r * half
  let e := square * ((r - t) / (6.0 - x * t))
  if k == 0 then x - (x * e - square)
  else
    let e := (x * (e - c) - c) - square
    if k == -1 then 0.5 * (x - e) - 0.5
    else if k == 1 then
      if x < -0.25 then -2.0 * (e - (x + 0.5)) else 1.0 + 2.0 * (x - e)
    else if k ≤ -2 || 56 < k then (1.0 - (e - x)).scaleB k - 1.0
    else
      let small := (1.0 : Float).scaleB (-k)
      if k < 20 then ((1.0 - small) - (e - x)).scaleB k
      else ((x - (e + small)) + 1.0).scaleB k

def expm1 (x : Float) : Float :=
  if x.isNaN then x
  else if 709.782712893383973096 < x then 1.0 / 0.0
  else if x < -38.816242 then -1.0
  else if x.abs < 5.5511151231257827e-17 then x
  else
    let upper := upperBits x.abs
    if upper ≤ 0x3fd62e42 then expm1Reduced 0 x 0.0
    else
      let k : Int :=
        if upper < 0x3FF0A2B2 then (if x < 0.0 then -1 else 1)
        else
          (1.44269504088896338700 * x + (if x < 0.0 then -0.5 else 0.5)).toInt64.toInt
      let high := x - ofInt k * ln2High
      let low := ofInt k * ln2Low
      let reduced := high - low
      expm1Reduced k reduced ((high - reduced) - low)

def log1pCoefficients : List Float :=
  [3.999999999940941908e-01, 2.857142874366239149e-01, 2.222219843214978396e-01,
    1.818357216161805012e-01, 1.531383769920937332e-01, 1.479819860511658591e-01]

/-- The logarithm of `2 ^ k * (1 + f)`, to which the correction `c` is added. -/
def log1pReduced (k : Int) (f c : Float) (tiny : Bool) : Float :=
  let scale := ofInt k
  let half := 0.5 * f * f
  if tiny then
    if f == 0.0 then (if k == 0 then 0.0 else scale * ln2High + (c + scale * ln2Low))
    else
      let r := half * (1.0 - 0.66666666666666666 * f)
      if k == 0 then f - r else scale * ln2High - ((r - (scale * ln2Low + c)) - f)
  else
    let s := f / (2.0 + f)
    let z := s * s
    let r := pairwise z (z * z) (z * z) (z * 6.666666666666735130e-01) log1pCoefficients
    if k == 0 then f - (half - s * (half + r))
    else scale * ln2High - ((half - (s * (half + r) + (scale * ln2Low + c))) - f)

def log1p (x : Float) : Float :=
  if x.isNaN || x < -1.0 then 0.0 / 0.0
  else if x == -1.0 then -1.0 / 0.0
  else if x == 1.0 / 0.0 then x
  else if x.abs < 5.5511151231257827e-17 then x
  else if x.abs < 1.862645149230957e-09 then x - x * x * 0.5
  else
    let upper := upperBits x.abs
    if (0.0 < x && upper < 0x3FDA827A) || (x < 0.0 && upper ≤ 0x3fd2bec3) then
      log1pReduced 0 x 0.0 false
    else
      let u := if x < 9007199254740992.0 then 1.0 + x else x
      let k := binaryExponent u
      let c :=
        if x < 9007199254740992.0 then (if 0 < k then 1.0 - (u - x) else x - (u - 1.0)) / u
        else 0.0
      let digits := upperBits u % Nat.pow 2 20
      let normal := u.scaleB (-k)
      if digits < 0x6a09e then log1pReduced k (normal - 1.0) c (digits == 0)
      else
        log1pReduced (k + 1) (normal * 0.5 - 1.0) c ((Nat.pow 2 20 - digits) / 4 == 0)

end SmallLisp.Analysis
