import SmallLisp.Reader.Fault
import SmallLisp.Reader.Literal

/-!
# Settings

The console is set up by variables of its environment. A variable that is missing or makes no
sense leaves its setting at the default.
-/

namespace SmallLisp

abbrev Environment := List (String × String)

structure Settings where
  logLevel : Nat
  recursionLimit : Int
  prompt : String
  deriving DecidableEq

namespace Settings

/-- Digits of which neighbours may have one underscore between them; `none` if anything else
stands in the text. -/
def separatedDigits? : List Char → Option (List Char)
  | [] => none
  | [c] => if Text.isDigit c then some [c] else none
  | c :: '_' :: cs => if Text.isDigit c then (separatedDigits? cs).map (c :: ·) else none
  | c :: cs => if Text.isDigit c then (separatedDigits? cs).map (c :: ·) else none

/-- The integer that a text writes, with blanks around it and underscores inside it allowed. -/
def integer? (text : String) : Option Int :=
  let (neg, cs) := NumberText.splitSign (Text.trim text.toList)
  match separatedDigits? cs with
  | none => none
  | some digits =>
    if maxDigits < digits.length then none
    else
      let n : Int := Text.digitsValue digits
      some (if neg then -n else n)

def integerOr (default : Int) : Option String → Int
  | none => default
  | some text => (integer? text).getD default

def levelNames : List (String × Nat) :=
  [("CRITICAL", 50), ("FATAL", 50), ("ERROR", 40), ("WARN", 30), ("WARNING", 30), ("INFO", 20),
    ("DEBUG", 10), ("NOTSET", 0)]

def defaultLevel : Nat := 30

/-- The capital of a letter, as far as ASCII capitals go. The dotless i and the long s have ASCII
capitals too. -/
def capital (c : Char) : Char :=
  if c == 'ı' then 'I' else if c == 'ſ' then 'S' else c.toUpper

def level (name : String) : Nat :=
  let capitals := String.ofList ((Text.trim name.toList).map capital)
  (levelNames.lookup capitals).getD defaultLevel

def levelVariable : String := "TAU_LOG_LEVEL"

def limitVariable : String := "TAU_RECURSION_LIMIT"

def promptVariable : String := "TAU_PROMPT"

def defaultLimit : Int := 10000

def defaultPrompt : String := "user> "

def ofEnvironment (env : Environment) : Settings where
  logLevel := ((env.lookup levelVariable).map level).getD defaultLevel
  recursionLimit := integerOr defaultLimit (env.lookup limitVariable)
  prompt := (env.lookup promptVariable).getD defaultPrompt

end Settings

end SmallLisp
