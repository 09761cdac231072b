import Clausal.CommandLine

/-!
# The program

Prints what a run of the command line comes to.
-/

/-- Runs the program on its arguments. -/
def main (args : List String) : IO UInt32 := do
  match Clausal.CommandLine.run args with
  | .ok outcome =>
    IO.print outcome.output
    for message in outcome.messages do
      IO.eprintln message
    return outcome.exitCode.toUInt32
  | .error fault =>
    IO.eprintln (fault.message?.getD "internal compiler error")
    return 101
