import Parlance.Command.Run

/-!
# The program

Reads the files that a call names, carries the call out, and prints what it gives.
-/

open Parlance Command

/-- Read a file. -/
def readPath (path : String) : IO (Except ReadError String) := do
  try
    return .ok (← IO.FS.readFile path)
  catch error =>
    match error with
    | .noFileOrDirectory .. => return .error .missing
    | other => return .error (.other (toString other))

/-- The paths of the files that a request reads. -/
def requestPaths : Request → List String
  | .lex input | .tree input | .expr input | .reconstruct input => [input.grammar, input.file]
  | .explain _ => []

/-- Read the files that the request names, carry it out, and print what comes of it. -/
def main (arguments : List String) : IO UInt32 := do
  let paths := match Invocation.ofArguments arguments with
    | .ok invocation => requestPaths invocation.request
    | .error _ => []
  let contents ← paths.mapM fun path => return (path, ← readPath path)
  let files : Files := fun path => (contents.lookup path).getD (.error .missing)
  let outcome := runArguments files arguments
  IO.print outcome.stdout
  if let some failure := outcome.failure then
    IO.eprint failure.message
  IO.eprint outcome.diagnostics
  if let some summary := outcome.summary then
    IO.eprintln summary
  if outcome.code = 2 then
    IO.eprint help
  return outcome.code.toUInt32
