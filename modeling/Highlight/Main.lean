import Highlight.Command.Run

/-!
# The program

Reads the files that the command needs and runs it.
-/

open Highlight

/-- What is at a place of the file system. A place with nothing is left out. -/
def readPlace (path : String) : IO Files := do
  try
    let text ← IO.FS.readFile path
    return [(path, .text text)]
  catch e =>
    match e with
    | .noFileOrDirectory _ _ _ => return []
    | e => return [(path, .failure (toString e))]

/-- What is at several places. -/
def readPlaces (paths : List String) : IO Files := do
  return (← paths.mapM readPlace).flatten

/-- Runs the command with the arguments of the command line. -/
def main (args : List String) : IO UInt32 := do
  let files ← readPlaces (Command.firstPlaces args)
  let files := files ++ (← readPlaces (Command.furtherPlaces files args))
  let outcome := Command.run files args
  IO.print outcome.output
  return UInt32.ofNat outcome.status
