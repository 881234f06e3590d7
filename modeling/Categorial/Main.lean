/-
  Categorial.Main

  The program: reads its arguments and files, then answers sentences from standard input.
-/

import Categorial.CommandLine.Session

namespace Categorial.Main

open Categorial.CommandLine

/-- The name that messages give the program. -/
def programName : String := "cli"

/-- The content of a file, if it can be read. -/
def readFile? (name : String) : IO (Option String) := do
  try
    return some (← IO.FS.readFile name)
  catch _ => return none

/-- Answers lines until the input ends. -/
partial def loop (parser : Parser) (showChart : Bool) (input output : IO.FS.Stream) : IO Unit := do
  output.putStr prompt
  output.flush
  let line ← input.getLine
  unless line.isEmpty do
    output.putStr (answer parser showChart line)
    loop parser showChart input output

/-- Loads the grammar and answers sentences; the result is the exit code. -/
def serve (options : Options) : IO UInt32 := do
  let lexicon? ← readFile? options.lexicon
  let rules? ← match options.rules? with
    | some file => readFile? file
    | none => pure none
  -- The lexicon and the rules may be one file; then both have been read from it.
  let files := fun name =>
    if name = options.lexicon then lexicon? else if options.rules? = some name then rules? else none
  match load files options with
  | .error fault =>
    (← IO.getStderr).putStr ("Error: " ++ fault.report ++ "\n")
    return 1
  | .ok parser =>
    loop parser options.showChart (← IO.getStdin) (← IO.getStdout)
    return 0

end Categorial.Main

def main (arguments : List String) : IO UInt32 := do
  match Categorial.CommandLine.read arguments with
  | .error fault =>
    (← IO.getStderr).putStr (fault.message Categorial.Main.programName ++ "\n")
    return 255
  | .ok .help =>
    (← IO.getStdout).putStr (Categorial.CommandLine.usage Categorial.Main.programName ++ "\n")
    return 0
  | .ok (.run options) => Categorial.Main.serve options
