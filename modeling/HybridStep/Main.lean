import HybridStep.Command.Run
import HybridStep.Text.Regex.Plain

/-! # The command line

Lists the modifiers of model files in order, or encodes one step of them into constraints. Each
input is the path of a model file. -/

open HybridStep

/-- The contents of a file, if it can be read. -/
def readInput (path : String) : IO (String × Option String) := do
  try
    return (path, some (← IO.FS.readFile path))
  catch _ =>
    return (path, none)

/-- The source of the models in files that were read. -/
def sourceOf (inputs : List (String × Option String)) : ModelSource := fun path =>
  (inputs.lookup path).join.map fun contents => [(path, contents)]

/-- Runs the program: the exit code is 0 with output, 1 after a failure, and 2 for arguments that
make no request. -/
def main (args : List String) : IO UInt32 := do
  let inputs := ((Arguments.request? args).map Request.inputs).getD []
  match runCommand .plain (sourceOf (← inputs.mapM readInput)) args with
  | .output text =>
    IO.print text
    return 0
  | .failure e =>
    IO.eprintln e.message
    return 1
  | .usage =>
    IO.eprintln "usage: order|translate MODEL... [--entity PATH] [--format human|json|smtlib]"
    return 2
