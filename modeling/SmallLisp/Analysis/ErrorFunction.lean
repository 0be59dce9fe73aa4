import SmallLisp.Analysis.Polynomial

/-!
# The error function

The error function and its complement, by rational approximations on intervals. Far out the
complement is the product of two exponentials whose exponents together are exact.
-/

namespace SmallLisp.Analysis

/-- A quotient of polynomials. -/
def rational (numerator denominator : List Float) (x : Float) : Float :=
  polynomial numerator x / polynomial denominator x

/-- The approximation for magnitudes below 0.84375. -/
def nearZeroRatio (square : Float) : Float :=
  rational
    [1.28379167095512558561e-01, -3.25042107247001499370e-01, -2.84817495755985104766e-02,
      -5.77027029648944159157e-03, -2.37630166566501626084e-05]
    [1.0, 3.97917223959155352819e-01, 6.50222499887672944485e-02, 5.08130628187576562776e-03,
      1.32494738004321644526e-04, -3.96022827877536812320e-06]
    square

/-- The approximation around one, for the distance from one. -/
def nearOneRatio (distance : Float) : Float :=
  rational
    [-2.36211856075265944077e-03, 4.14856118683748331666e-01, -3.72207876035701323847e-01,
      3.18346619901161753674e-01, -1.10894694282396677476e-01, 3.54783043256182359371e-02,
      -2.16637559486879084300e-03]
    [1.0, 1.06420880400844228286e-01, 5.40397917702171048937e-01, 7.18286544141962662868e-02,
      1.26171219808761642112e-01, 1.36370839120290507362e-02, 1.19844998467991074170e-02]
    distance

/-- The approximation between 1.25 and about 2.857, for the inverse square. -/
def middleRatio (inverse : Float) : Float :=
  rational
    [-9.86494403484714822705e-03, -6.93858572707181764372e-01, -1.05586262253232909814e+01,
      -6.23753324503260060396e+01, -1.62396669462573470355e+02, -1.84605092906711035994e+02,
      -8.12874355063065934246e+01, -9.81432934416914548592e+00]
    [1.0, 1.96512716674392571292e+01, 1.37657754143519042600e+02, 4.34565877475229228821e+02,
      6.45387271733267880336e+02, 4.29008140027567833386e+02, 1.08635005541779435134e+02,
      6.57024977031928170135e+00, -6.04244152148580987438e-02]
    inverse

/-- The approximation beyond, for the inverse square. -/
def farRatio (inverse : Float) : Float :=
  rational
    [-9.86494292470009928597e-03, -7.99283237680523006574e-01, -1.77579549177547519889e+01,
      -1.60636384855821916062e+02, -6.37566443368389627722e+02, -1.02509513161107724954e+03,
      -4.83519191608651397019e+02]
    [1.0, 3.03380607434824582924e+01, 3.25792512996573918826e+02, 1.53672958608443695994e+03,
      3.19985821950859553908e+03, 2.55305040643316442583e+03, 4.74528541206955367215e+02,
      -2.24409524465858183362e+01]
    inverse

/-- The error function at one, to a few digits; the approximation around one corrects it. -/
def erfOne : Float := 8.45062911510467529297e-01

/-- The complement of the error function at a magnitude of 1.25 or more. -/
def farComplement (x : Float) : Float :=
  let inverse := 1.0 / (x * x)
  let ratio := if x < 1.0 / 0.35 then middleRatio inverse else farRatio inverse
  let z := upperHalf x
  Float.exp (-z * z - 0.5625) * Float.exp ((z - x) * (z + x) + ratio) / x

def erf (x : Float) : Float :=
  let a := x.abs
  let signed (y : Float) : Float := if x < 0.0 then -y else y
  if x.isNaN then x
  else if a < 0.84375 then
    if a < 3.7252902984e-09 then
      if a < 2.848094538889218e-306 then
        0.0625 * (16.0 * x + 16.0 * 1.28379167095512586316e-01 * x)
      else x + 1.28379167095512586316e-01 * x
    else x + x * nearZeroRatio (x * x)
  else if a < 1.25 then signed (erfOne + nearOneRatio (a - 1.0))
  else if 6.0 ≤ a then signed 1.0
  else signed (1.0 - farComplement a)

def erfc (x : Float) : Float :=
  let a := x.abs
  if x.isNaN then x
  else if a < 0.84375 then
    if a < 1.3877787807814457e-17 then 1.0 - x
    else
      let y := nearZeroRatio (x * x)
      if x < 0.25 then 1.0 - (x + x * y) else 0.5 - ((x - 0.5) + x * y)
  else if a < 1.25 then
    let y := nearOneRatio (a - 1.0)
    if x < 0.0 then 1.0 + (erfOne + y) else (1.0 - erfOne) - y
  else if a < 28.0 then
    if x < -6.0 then 2.0 else if x < 0.0 then 2.0 - farComplement a else farComplement a
  else if x < 0.0 then 2.0 else 0.0

end SmallLisp.Analysis
