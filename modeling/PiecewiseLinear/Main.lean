import PiecewiseLinear.Command.Run

/-!
# The program

Reads the files that the arguments name and runs the command on them.
-/

open PiecewiseLinear

/-- The text of a file, if it can be read. -/
def readText? (path : String) : IO (Option String) := do
  try
    return some (← IO.FS.readFile path)
  catch _ =>
    return none

/-- Runs the command on the arguments of the program. -/
def main (args : List String) : IO UInt32 := do
  let files ← (Command.paths args).filterMapM fun path => do
    return (← readText? path).map fun text => (path, text)
  let outcome := Command.run (fun path => files.lookup path) args
  (← IO.getStdout).putStr outcome.output
  (← IO.getStderr).putStr outcome.error
  return UInt32.ofNat outcome.exit
