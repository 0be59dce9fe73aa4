import SmallLisp.Text.Quoted

/-!
# Faults of reading

What can be wrong with a text, as causes. The wording of each cause is in one place.
-/

namespace SmallLisp

inductive SyntaxFault where
  | noForm
  | unclosed (closer : Char)
  | wrongCloser (closer got : Char)
  | strayCloser (closer : Char)
  | unterminatedString
  | malformedNumber (token : String)
  | oddMap
  | collectionKey
  | nothingAfter (mark : String)
  | unknownMark (mark : String)
  deriving DecidableEq

def apostrophed (c : Char) : String :=
  String.ofList [Text.apostrophe, c, Text.apostrophe]

def SyntaxFault.message : SyntaxFault → String
  | noForm => "Unexpected EOF, expected a form"
  | unclosed closer => "Expected " ++ apostrophed closer ++ ", got EOF"
  | wrongCloser closer got => "Expected " ++ apostrophed closer ++ ", got " ++ apostrophed got
  | strayCloser closer => "Unexpected " ++ apostrophed closer
  | unterminatedString => "Expected " ++ apostrophed Text.doubleQuote ++ ", got EOF"
  | malformedNumber token => "Malformed number: " ++ token
  | oddMap => "Map literal requires an even number of forms"
  | collectionKey => "Map literal keys must be atoms"
  | nothingAfter mark => "Expected a form after " ++ Text.quoted mark ++ ", got EOF"
  | unknownMark mark => "No reader macro defined for " ++ Text.quoted mark

/-- Why reading stops: a fault of the text, or an integer with more digits than are converted. -/
inductive ReadFault where
  | malformed (fault : SyntaxFault)
  | digitLimit (digits : Nat)
  deriving DecidableEq

/-- Integers of more decimal digits are neither read nor written. -/
def maxDigits : Nat := 4300

end SmallLisp
