import SmallLisp.Analysis.Polynomial

/-!
# The gamma function

The gamma function and the logarithm of its magnitude, by Lanczos' approximation. Negative
arguments are reflected.
-/

namespace SmallLisp.Analysis

def pi : Float := 3.141592653589793238462643383279502884197

inductive GammaFault where
  | pole
  | overflow

def lanczosShift : Float := 6.024680040776729583740234375

def lanczosShiftLessHalf : Float := 5.524680040776729583740234375

def lanczosNumerator : List Float :=
  [23531376880.410759688572007674451636754734846804940,
    42919803642.649098768957899047001988850926355848959,
    35711959237.355668049440185451547166705960488635843,
    17921034426.037209699919755754458931112671403265390,
    6039542586.3520280050642916443072979210699388420708,
    1439720407.3117216736632230727949123939715485786372,
    248874557.86205415651146038641322942321632125127801,
    31426415.585400194380614231628318205362874684987640,
    2876370.6289353724412254090516208496135991145378768,
    186056.26539522349504029498971604569928220784236328,
    8071.6720023658162106380029022722506138218516325024,
    210.82427775157934587250973392071336271166969580291,
    2.5066282746310002701649081771338373386264310793408]

/-- The coefficients of `x * (x + 1) * ... * (x + 11)`. -/
def lanczosDenominator : List Float :=
  [0.0, 39916800.0, 120543840.0, 150917976.0, 105258076.0, 45995730.0, 13339535.0, 2637558.0,
    357423.0, 32670.0, 1925.0, 66.0, 1.0]

/-- The rational function of Lanczos' approximation at a positive argument. Large arguments go
through their inverse, so that no power overflows. -/
def lanczosSum (x : Float) : Float :=
  let (num, den) :=
    if x < 5.0 then
      (lanczosNumerator.foldr (fun a total => total * x + a) 0.0,
        lanczosDenominator.foldr (fun a total => total * x + a) 0.0)
    else
      (lanczosNumerator.foldl (fun total a => total / x + a) 0.0,
        lanczosDenominator.foldl (fun total a => total / x + a) 0.0)
  num / den

/-- The remainder of a finite magnitude below `2 ^ 63` by two. -/
def modTwo (x : Float) : Float := x - 2.0 * (x * 0.5).floor

def sinPi (x : Float) : Float :=
  let y := modTwo x.abs
  let quarter := (2.0 * y).round
  let r :=
    if quarter == 0.0 then Float.sin (pi * y)
    else if quarter == 1.0 then Float.cos (pi * (y - 0.5))
    else if quarter == 2.0 then Float.sin (pi * (1.0 - y))
    else if quarter == 3.0 then -(Float.cos (pi * (y - 1.5)))
    else Float.sin (pi * (y - 2.0))
  if x < 0.0 then -1.0 * r else r

def smallFactorial (n : Nat) : Float :=
  ofInt ((List.range n).foldl (fun total i => total * (i + 1)) 1 : Nat)

/-- The gamma function at a magnitude from `1e-20` to 200 that is no small integer. -/
def gammaByLanczos (x : Float) : Float :=
  let a := x.abs
  let y := a + lanczosShiftLessHalf
  let z :=
    if lanczosShiftLessHalf < a then (y - a) - lanczosShiftLessHalf
    else (y - lanczosShiftLessHalf) - a
  let z := z * lanczosShift / y
  if x < 0.0 then
    let r := -pi / sinPi a / a * Float.exp y / lanczosSum a
    let r := r - z * r
    if a < 140.0 then r / Float.pow y (a - 0.5)
    else
      let root := Float.pow y (a / 2.0 - 0.25)
      r / root / root
  else
    let r := lanczosSum a / Float.exp y
    let r := r + z * r
    if a < 140.0 then r * Float.pow y (a - 0.5)
    else
      let root := Float.pow y (a / 2.0 - 0.25)
      r * root * root

/-- The gamma function, which has poles at zero and at the negative integers. -/
def gamma (x : Float) : Except GammaFault Float :=
  if x.isNaN then .ok x
  else if x.isInf then (if 0.0 < x then .ok x else .error .pole)
  else if x == 0.0 then .error .pole
  else if x == x.floor && x < 0.0 then .error .pole
  else if x == x.floor && x ≤ 23.0 then .ok (smallFactorial (x.toUInt64.toNat - 1))
  else
    let r :=
      if x.abs < 1e-20 then 1.0 / x
      else if 200.0 < x.abs then (if x < 0.0 then 0.0 / sinPi x else 1.0 / 0.0)
      else gammaByLanczos x
    if r.isInf then .error .overflow else .ok r

def lgamma (x : Float) : Except GammaFault Float :=
  if x.isNaN then .ok x
  else if x.isInf then .ok (1.0 / 0.0)
  else if x == x.floor && x ≤ 0.0 then .error .pole
  else if x == 1.0 || x == 2.0 then .ok 0.0
  else
    let a := x.abs
    if a < 1e-20 then .ok (-Float.log a)
    else
      let r := Float.log (lanczosSum a) - lanczosShift
      let r := r + (a - 0.5) * (Float.log (a + lanczosShift - 0.5) - 1.0)
      let r :=
        if x < 0.0 then
          1.144729885849400174143427351353058711647 - Float.log (sinPi a).abs - Float.log a - r
        else r
      if r.isInf then .error .overflow else .ok r

end SmallLisp.Analysis
