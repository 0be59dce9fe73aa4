import SmallLisp.Datum.Basic
import SmallLisp.Flonum.Nearest
import SmallLisp.Reader.Fault
import SmallLisp.Text.Blank

/-!
# What a bare token denotes

A bare token is one of a few constants, a number, a keyword or, when it is none of these, a
symbol. A token that begins like a number has to be one.
-/

namespace SmallLisp

/-- A number as it is written: digits before and after the point and an exponent. A number with
neither point nor exponent is an integer. -/
structure NumberText where
  neg : Bool
  whole : List Char
  fraction : Option (List Char)
  exponent : Option (Bool × List Char)
  deriving DecidableEq

namespace NumberText

/-- A sign in front of a text, true for minus, and the text behind it. -/
def splitSign : List Char → Bool × List Char
  | '-' :: cs => (true, cs)
  | '+' :: cs => (false, cs)
  | cs => (false, cs)

def exponent? : List Char → Option (Option (Bool × List Char))
  | [] => some none
  | c :: cs =>
    let (neg, digits) := splitSign cs
    if (c == 'e' || c == 'E') && !digits.isEmpty && digits.all Text.isDigit then
      some (some (neg, digits))
    else none

/-- The number that makes up the whole of a text, if it does. A point needs a digit on one of
its sides. -/
def ofChars? (cs : List Char) : Option NumberText :=
  let (neg, cs) := splitSign cs
  let whole := cs.takeWhile Text.isDigit
  let (fraction, rest) :=
    match cs.dropWhile Text.isDigit with
    | '.' :: cs => (some (cs.takeWhile Text.isDigit), cs.dropWhile Text.isDigit)
    | cs => (none, cs)
  if whole.isEmpty && (fraction.getD []).isEmpty then none
  else (exponent? rest).map fun exponent => { neg, whole, fraction, exponent }

/-- Whether a text begins like a number: with a digit, after a sign and a point if need be. -/
def begins (cs : List Char) : Bool :=
  match (splitSign cs).2 with
  | '.' :: c :: _ => Text.isDigit c
  | c :: _ => Text.isDigit c
  | [] => false

def isInteger (t : NumberText) : Bool := t.fraction.isNone && t.exponent.isNone

/-- The value of the exponent part, zero where there is none. -/
def exponentValue (t : NumberText) : Int :=
  match t.exponent with
  | none => 0
  | some (neg, digits) =>
    if neg then -(Text.digitsValue digits : Int) else Text.digitsValue digits

def flonum (t : NumberText) : Flonum :=
  let fraction := t.fraction.getD []
  Flonum.ofDecimal t.neg (Text.digitsValue (t.whole ++ fraction))
    (t.exponentValue - fraction.length)

def integer (t : NumberText) : Int :=
  if t.neg then -(Text.digitsValue t.whole : Int) else Text.digitsValue t.whole

def datum (t : NumberText) : Except ReadFault Datum :=
  if t.isInteger then
    if maxDigits < t.whole.length then .error (.digitLimit t.whole.length)
    else .ok (.int t.integer)
  else .ok (.float t.flonum)

end NumberText

namespace Datum

def constant? (token : String) : Option Datum :=
  match token with
  | "nil" => some nil
  | "true" => some (bool true)
  | "false" => some (bool false)
  | "##Inf" => some (float (.infinity false))
  | "##-Inf" => some (float (.infinity true))
  | "##NaN" => some nan
  | _ => none

/-- What a bare token denotes. -/
def ofBare (chars : List Char) : Except ReadFault Datum :=
  match constant? (String.ofList chars) with
  | some d => .ok d
  | none =>
    match NumberText.ofChars? chars with
    | some t => t.datum
    | none =>
      if NumberText.begins chars then
        .error (.malformed (.malformedNumber (String.ofList chars)))
      else
        match chars with
        | ':' :: c :: cs => .ok (kw (String.ofList (c :: cs)))
        | _ => .ok (sym (String.ofList chars))

/-- The characters that the inside of a string token stands for. A backslash stands for the
character behind it, except that `n` behind it is a line feed. -/
def unescape : List Char → List Char
  | '\\' :: c :: cs => (if c == 'n' then '\n' else c) :: unescape cs
  | c :: cs => c :: unescape cs
  | [] => []

def ofStringToken (chars : List Char) : Datum :=
  str (String.ofList (unescape (chars.drop 1).dropLast))

end Datum

end SmallLisp
