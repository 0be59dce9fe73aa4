import SmallLisp.Console

/-!
# The program

The console on the standard streams. Output is written and the log is sent to the error stream
as soon as a line is done.
-/

open SmallLisp

def consoleEnvironment : IO Environment := do
  let names := [Settings.levelVariable, Settings.limitVariable, Settings.promptVariable]
  names.filterMapM fun name => do return (← IO.getEnv name).map fun value => (name, value)

def flush (s : Store) : IO Store := do
  (← IO.getStdout).putStr s.output
  (← IO.getStdout).flush
  for r in s.log do
    (← IO.getStderr).putStrLn r.text
  return { s with output := "", log := #[] }

/-- Prompt, read and evaluate until the input ends or a limit below the language is met. -/
partial def converse (prompt : String) (s : Store) : IO UInt32 := do
  let s ← flush (s.write prompt)
  let line ← (← IO.getStdin).getLine
  if line.isEmpty then
    discard (flush (s.write "\n"))
    return 0
  match Console.evalLine line s with
  | .ok (some text) s => converse prompt (s.write (text ++ "\n"))
  | .ok none s => converse prompt s
  | .error (.host limit) s => do
    discard (flush s)
    (← IO.getStderr).putStrLn limit.message
    return 1
  | .error _ s => do
    discard (flush s)
    return 1

def main : IO UInt32 := do
  let settings := Settings.ofEnvironment (← consoleEnvironment)
  converse settings.prompt (Interpreter.create settings.logLevel)
