import VisualEncoding.Command.Run

/-!
# The command

Reads the command line and the files it names, runs the task, and prints or writes its text. The exit
code is 1 if the task fails and 2 if the command line cannot be understood.
-/

namespace VisualEncoding.Command

/-- The text of a file, if it can be read. -/
def textOf? (path : String) : IO (Option String) :=
  try
    return some (← IO.FS.readFile path)
  catch _ => return none

/-- Reports a failure. -/
def fail (failure : Failure) : IO UInt32 := do
  IO.eprintln ("Error: " ++ failure.message)
  return 1

/-- Prints a text, or writes it to a file. -/
def emit (output : Output) : IO UInt32 := do
  match output.path with
  | none => do
    IO.println output.text
    return 0
  | some path =>
    try
      IO.FS.writeFile path output.text
      return 0
    catch _ => fail (.unwritableFile path)

end VisualEncoding.Command

open VisualEncoding.Command in
/-- The command. -/
def main (words : List String) : IO UInt32 := do
  match Invocation.read words with
  | .error fault => do
    IO.eprintln ("error: " ++ fault.message)
    return 2
  | .ok invocation => do
    let texts ← invocation.inputs.mapM fun path => return (path, ← textOf? path)
    match run (fun path => (texts.lookup path).join) invocation with
    | .ok output => emit output
    | .error failure => fail failure
