import SmallLisp.Interpreter
import SmallLisp.Settings

/-!
# The console

The console reads lines, evaluates the first form of each and writes its value. Faults are logged
and the next line is read; at the end of the input the console writes a last prompt and a line
end.
-/

namespace SmallLisp.Console

def logger : String := "tau.repl"

def errorLevel : Nat := 40

def exhaustedMessage : String := "Host stack exhausted; is a non-tail recursion unbounded?"

/-- Evaluate one line. Blank lines and lines that fail have no text; a failure is logged. A limit
below the language is not handled. -/
def evalLine (line : String) : Eval (Option String) := fun s =>
  if (Text.trim line.toList).isEmpty then .ok none s
  else
    match Interpreter.rep line s with
    | .ok text s' => .ok (some text) s'
    | .error (.fault cause) s' =>
      .ok none (s'.record errorLevel logger (cause.kind ++ ": " ++ cause.message))
    | .error .stackExhausted s' => .ok none (s'.record errorLevel logger exhaustedMessage)
    | .error stop s' => .error stop s'

/-- The lines of a text with their line ends. -/
def linesOf (cs : List Char) : List (List Char) :=
  cs.foldr
    (fun c lines =>
      match lines with
      | line :: rest => if c == '\n' then [c] :: lines else (c :: line) :: rest
      | [] => [[c]])
    []

def write (text : String) : Eval Unit := modify fun s => s.write text

/-- Prompt for each line and write the text of its value. -/
def loop (prompt : String) : List String → Eval Unit
  | [] => do
    write prompt
    write "\n"
  | line :: lines => do
    write prompt
    match ← evalLine line with
    | some text => write (text ++ "\n")
    | none => pure ()
    loop prompt lines

def maxRecursionLimit : Int := Int.pow 2 31 - 1

/-- What a console leaves behind: its output, its log and, if it did not come to the end of its
input, why. -/
structure Transcript where
  output : String
  log : List LogRecord
  stop : Option Stop

def transcript (env : Environment) (input : String) : Transcript :=
  let settings := Settings.ofEnvironment env
  if maxRecursionLimit < settings.recursionLimit then ⟨"", [], some (.host .limitTooLarge)⟩
  else
    let lines := (linesOf input.toList).map String.ofList
    match loop settings.prompt lines (Interpreter.create settings.logLevel) with
    | .ok _ s => ⟨s.output, s.log.toList, none⟩
    | .error stop s => ⟨s.output, s.log.toList, some stop⟩

end SmallLisp.Console
