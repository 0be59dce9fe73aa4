import SmallLisp.Core.Arguments

/-!
# Text of the core namespace

Functions that make strings, symbols and keywords, that read a form from a string and that write
to the output.
-/

namespace SmallLisp.TextFunction

open Eval

/-- One string of the display texts of all arguments. -/
def concatenate (args : List Value) : Eval Value := return .str (← printJoined .display "" args)

def writeLine (mode : PrintMode) (args : List Value) : Eval Value := do
  let text ← printJoined mode " " args
  modify fun s => s.write (text ++ "\n")
  return .nil

def symbol (args : List Value) : Eval Value := do
  return .sym (← characters "symbol" (← single "symbol" args))

/-- The keyword of a name; a keyword is its own keyword. -/
def keyword (args : List Value) : Eval Value := do
  match ← single "keyword" args with
  | .kw name => return .kw name
  | v => return .kw (← characters "keyword" v)

def read (args : List Value) : Eval Value := do
  Eval.readForm (← characters "read-string" (← single "read-string" args))

end SmallLisp.TextFunction
