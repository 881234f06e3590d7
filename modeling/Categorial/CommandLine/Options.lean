/-
  Categorial.CommandLine.Options

  The arguments of the command line.
-/

import Categorial.Parser

namespace Categorial.CommandLine

/-- What the command line asks for. -/
structure Options where
  lexicon : String
  rules? : Option String
  showChart : Bool
  config : Config
  deriving DecidableEq, Repr

/-- What can be wrong with the arguments. -/
inductive ArgumentFault where
  | notEnough
  | missingRules
  | missingNumber (option : String)
  | tooMany
  | missingLexicon
  deriving DecidableEq, Repr

def usage (program : String) : String :=
  "Usage: " ++ program ++ " LEXICON [options]\n" ++
  "\n" ++
  "Each input line is a sentence. Tokens may be tagged as word/POS, in which case\n" ++
  "unknown words back off to the lexicon's UNK-<POS> entries.\n" ++
  "\n" ++
  "Options:\n" ++
  "  -h, --help          Print this message\n" ++
  "  -r, --rules FILE    Read unary rules from FILE\n" ++
  "  -b, --beam SIZE     Keep at most SIZE entries per chart cell (defaults to exact)\n" ++
  "  -n, --max N         Print at most N parses\n" ++
  "  -B, --composition   Allow harmonic composition\n" ++
  "  -c, --chart         Print the parse chart (defaults to not printing)"

def ArgumentFault.reason : ArgumentFault → String
  | .notEnough => "not enough arguments"
  | .missingRules => "missing rules file"
  | .missingNumber option => option ++ " needs a number"
  | .tooMany => "invalid arguments"
  | .missingLexicon => "missing lexicon file"

/-- The message for wrong arguments, with the usage after it. -/
def ArgumentFault.message (program : String) (fault : ArgumentFault) : String :=
  "argument error: " ++ fault.reason ++ ".\n\n" ++ usage program

/-- What the arguments come to. -/
inductive Request where
  | help
  | run (options : Options)
  deriving DecidableEq, Repr

/-- Options while the arguments are read: the lexicon may still be missing. -/
structure Draft where
  lexicon? : Option String
  rules? : Option String
  showChart : Bool
  config : Config
  deriving DecidableEq, Repr

def Draft.empty : Draft := ⟨none, none, false, .default⟩

/-- Reads the number of an option. -/
def readNumber (option : String) (argument : String) : Except ArgumentFault Nat :=
  match Text.readNumeral Text.wordBound argument.toList with
  | some n => .ok n
  | none => .error (.missingNumber option)

/-- The options of a finished draft. -/
def Draft.finish (d : Draft) : Except ArgumentFault Request :=
  match d.lexicon? with
  | some lexicon => .ok (.run ⟨lexicon, d.rules?, d.showChart, d.config⟩)
  | none => .error .missingLexicon

/-- Reads arguments from left to right. A call for help ends the reading. -/
def readFrom (d : Draft) : List String → Except ArgumentFault Request
  | [] => d.finish
  | option :: rest =>
    if option = "-h" ∨ option = "--help" then .ok .help
    else if option = "-c" ∨ option = "--chart" then readFrom { d with showChart := true } rest
    else if option = "-B" ∨ option = "--composition" then
      readFrom { d with config := { d.config with composition := true } } rest
    else if option = "-r" ∨ option = "--rules" then
      match rest with
      | file :: rest => readFrom { d with rules? := some file } rest
      | [] => .error .missingRules
    else if option = "-b" ∨ option = "--beam" then
      match rest with
      | number :: rest => do
        let n ← readNumber option number
        readFrom { d with config := { d.config with inference := .beam n } } rest
      | [] => .error (.missingNumber option)
    else if option = "-n" ∨ option = "--max" then
      match rest with
      | number :: rest => do
        let n ← readNumber option number
        readFrom { d with config := { d.config with maxParses? := some n } } rest
      | [] => .error (.missingNumber option)
    else if d.lexicon?.isNone then readFrom { d with lexicon? := some option } rest
    else .error .tooMany

/-- Reads the arguments. -/
def read : List String → Except ArgumentFault Request
  | [] => .error .notEnough
  | arguments => readFrom .empty arguments

end Categorial.CommandLine
