/-
  Categorial.CommandLine.Session

  A session of the command line: it loads a grammar and answers each line of the input with the
  analyses of a sentence.  Everything here is a function of the arguments, the files and the input.
-/

import Categorial.CommandLine.Options
import Categorial.Text.Escape

namespace Categorial.CommandLine

/-! ## Loading -/

/-- Why a grammar could not be loaded. -/
inductive LoadFault where
  | noLexicon
  | noRules
  | malformed (cause : Error)
  deriving DecidableEq, Repr

/-- The report of a file that does not exist. -/
def noFileReport : String :=
  r#"Os { code: 2, kind: NotFound, message: "No such file or directory" }"#

/-- The report of a load fault, as it is printed after `Error: `. Errors in a grammar file always
    have a line number. -/
def LoadFault.report : LoadFault → String
  | .noLexicon => "Io(" ++ noFileReport ++ ")"
  | .noRules => noFileReport
  | .malformed cause =>
    r"MalformedGrammar { line: " ++ toString (cause.lineNumber?.getD 0) ++ ", message: " ++
      Text.quoted cause.detail ++ r" }"

/-- Loads the lexicon, then the rules. -/
def load (files : String → Option String) (options : Options) : Except LoadFault Parser := do
  let some lexicon := files options.lexicon | throw .noLexicon
  let lexicon ← (Lexicon.parse lexicon).mapError .malformed
  match options.rules? with
  | none => return ⟨lexicon, [], options.config⟩
  | some file =>
    let some rules := files file | throw .noRules
    return ⟨lexicon, ← (UnaryRule.parseAll rules).mapError .malformed, options.config⟩

/-! ## Sentences -/

/-- Splits a token at its last slash into a word and its tag. -/
def splitTag? (token : String) : Option (String × String) :=
  let backwards := token.toList.reverse
  match backwards.dropWhile (· != '/') with
  | [] => none
  | _ :: word =>
    some (String.ofList word.reverse, String.ofList (backwards.takeWhile (· != '/')).reverse)

/-- The sentence of a line. Tokens are split into words and tags if all of them can be. -/
def readSentence (line : String) : Sentence :=
  let tokens := Text.wordsOf line
  match tokens.mapM splitTag? with
  | some (tagged@(_ :: _)) => ⟨tagged.map (·.1), some (tagged.map (·.2))⟩
  | _ => .ofWords tokens

/-! ## Answers -/

/-- An analysis, its dependencies, and an empty line. -/
def renderParse (parse : Parse) : String :=
  parse.entry.render ++ " (" ++ Decimal.renderProbability parse.probability ++ ")\n" ++
    String.join (parse.entry.dependencies.map fun d => "  " ++ d.render ++ "\n") ++
    String.join (parse.entry.unfilled.map fun d => "  unfilled: " ++ d.render ++ "\n") ++ "\n"

/-- The answer to a line. -/
def answer (parser : Parser) (showChart : Bool) (line : String) : String :=
  let sentence := readSentence line
  let chart :=
    if showChart then
      "chart:\n" ++ (parser.parseChart .uniform sentence .none).render ++ "\n"
    else ""
  let parses := parser.parse .uniform sentence .none
  chart ++ "Parsed " ++ toString parses.length ++ (if parses.length = 1 then " tree" else " trees") ++
    "\n" ++ String.join (parses.map renderParse)

/-- What is printed before each line is read. -/
def prompt : String := "> "

/-- The lines of the input; what stands after the last line feed is a line if it is not empty. -/
def inputLines (input : String) : List String :=
  let pieces := Text.lines input.toList
  (if pieces.getLast? = some [] then pieces.dropLast else pieces).map String.ofList

/-! ## Whole runs -/

/-- What a run of the program leaves behind. -/
structure Outcome where
  code : Nat
  output : String
  errors : String
  deriving DecidableEq, Repr

/-- A run of the program. -/
def run (program : String) (arguments : List String) (files : String → Option String)
    (input : String) : Outcome :=
  match read arguments with
  | .error fault => ⟨255, "", fault.message program ++ "\n"⟩
  | .ok .help => ⟨0, usage program ++ "\n", ""⟩
  | .ok (.run options) =>
    match load files options with
    | .error fault => ⟨1, "", "Error: " ++ fault.report ++ "\n"⟩
    | .ok parser =>
      let answers := (inputLines input).map fun line =>
        prompt ++ answer parser options.showChart line
      ⟨0, String.join answers ++ prompt, ""⟩

end Categorial.CommandLine
