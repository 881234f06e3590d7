/-
  Categorial.Error

  What can be wrong with a grammar or with the input of a parse, as causes, and the wording of each
  cause.  A sentence without an analysis and two categories that do not unify are not errors.
-/

namespace Categorial

/-- Encloses a text in grave accents. -/
def accented (s : String) : String := "`" ++ s ++ "`"

/-! ## Causes -/

/-- Why a text is no category. `rest` is what is left of the text at the fault. -/
inductive CategoryFault where
  /-- An atom was expected. -/
  | noAtom (rest : String)
  /-- A closing parenthesis was expected. -/
  | notClosed (rest : String)
  /-- The category ends before the text does. -/
  | trailing (rest : String)
  /-- The number of a head annotation is out of bounds. -/
  | headTooLarge (head : String)
  /-- An atom of a headed category has no head. -/
  | headMissing (atom : String)
  deriving DecidableEq, Repr

/-- Why a line of a lexicon or of a rule file is malformed. -/
inductive LineFault where
  /-- The line ends right after an escaping tilde. -/
  | danglingEscape
  /-- The line ends inside a quotation. -/
  | unterminatedQuote (line : String)
  /-- A head variable was expected. -/
  | noVariable (text : String)
  /-- The argument number of a dependency is no number. -/
  | badArgument (argument part : String)
  /-- A part is neither an assignment nor a dependency. -/
  | badPart (part : String)
  /-- A lexicon line needs words and a category. -/
  | tooFewFields (line : String)
  /-- The first field of a lexicon line is blank. -/
  | noWords
  /-- The first field of a rule line is not a pair of categories. -/
  | notTwoCategories (field : String)
  /-- A part of a rule line is no dependency between variables. -/
  | badRulePart (part : String)
  /-- A dependency of a rule has a predicate for its subject. -/
  | predicateSubject (dependency : String)
  deriving DecidableEq, Repr

/-- Why a text is no gold tree. `rest` is what is left of the text at the fault. -/
inductive TreeFault where
  /-- A node was expected. -/
  | noNode (rest : String)
  /-- The label of a node was expected. -/
  | noLabel (rest : String)
  /-- A half of a label is no category. -/
  | badLabel (input : String) (fault : CategoryFault)
  /-- A label carries heads, but they do not make it a headed category. -/
  | badLabelHeads (fault : CategoryFault)
  /-- The end of a branch was expected. -/
  | branchNotClosed (label rest : String)
  /-- The part of speech of a leaf was expected. -/
  | noTag (rest : String)
  /-- A word or the end of a leaf was expected. -/
  | noWord (label rest : String)
  /-- A leaf has no words. -/
  | emptyLeaf (label : String)
  /-- The tree ends before the text does. -/
  | trailing (rest : String)
  deriving DecidableEq, Repr

/-- What can be wrong with a grammar or with the input of a parse. -/
inductive Error where
  /-- A text is no category. -/
  | category (input : String) (fault : CategoryFault)
  /-- A line of a grammar file is malformed. -/
  | line (fault : LineFault)
  /-- A text is no gold tree. -/
  | tree (input : String) (fault : TreeFault)
  /-- A part of the semantics refers to a variable that its category does not have. -/
  | undeclaredVariable (part : String) (v : Nat) (category : String)
  /-- The number of name sets is not the number of variables. -/
  | assignmentArity (category : String) (expected actual : Nat)
  /-- A unary rule drops a variable of its input. -/
  | droppedVariable (input result : String) (v : Nat)
  /-- Two arguments of a category are headed by one variable. -/
  | ambiguousArguments (category : String) (v : Nat)
  /-- A sentence has more or fewer tags than words. -/
  | tagCount (words tags : Nat)
  /-- An error in the line of a file with this number, counted from one. -/
  | atLine (number : Nat) (cause : Error)
  deriving DecidableEq, Repr

/-! ## Wording -/

/-- The pattern of an atom, as messages quote it. -/
def atomPattern : String := "[^\\s/\\\\()\\[\\]{}<>_]+"

/-- The pattern of a label, tag or word of a gold tree, as messages quote it. -/
def tokenPattern : String := "[^\\s<>]+"

/-- A pattern that was expected in front of `rest`. -/
def unmatched (pattern rest : String) : String :=
  "couldn't match " ++ pattern ++ " at " ++ accented rest

/-- A text that was expected in front of `rest`. -/
def missing (expected rest : String) : String :=
  "expected " ++ accented expected ++ " at " ++ accented rest

def CategoryFault.message : CategoryFault → String
  | .noAtom rest => "atom: " ++ unmatched atomPattern rest
  | .notClosed rest => missing ")" rest
  | .trailing rest => "unexpected trailing input " ++ accented rest
  | .headTooLarge head =>
    "head variable " ++ head ++ ": number too large to fit in target type"
  | .headMissing atom => "atom " ++ atom ++ " has no head variable"

def LineFault.message : LineFault → String
  | .danglingEscape => "dangling escape at end of line"
  | .unterminatedQuote line => "unterminated quote in " ++ accented line
  | .noVariable text => "expected a variable, got " ++ accented text
  | .badArgument argument part =>
    "argument number " ++ accented argument ++ " in " ++ accented part
  | .badPart part =>
    accented part ++ " is neither `var predicate` nor `subject argument var`"
  | .tooFewFields line => "expected `words, syntax, ...` but got " ++ accented line
  | .noWords => "lexicon entry has no words"
  | .notTwoCategories field =>
    "unary rule needs an input and a result category, got " ++ accented field
  | .badRulePart part =>
    "unary rule part " ++ accented part ++ " must be `{subject} argument var`"
  | .predicateSubject dependency =>
    "unary rule dependency " ++ accented dependency ++ " needs a variable subject"

/-- The message of a text that is no category. -/
def malformedCategory (input : String) (fault : CategoryFault) : String :=
  "malformed category " ++ accented input ++ ": " ++ fault.message

def TreeFault.message : TreeFault → String
  | .noNode rest => missing "<" rest
  | .noLabel rest => "node label: " ++ unmatched tokenPattern rest
  | .badLabel input fault => malformedCategory input fault
  | .badLabelHeads fault => fault.message
  | .branchNotClosed label rest => "nonterminal " ++ label ++ ": " ++ missing ">" rest
  | .noTag rest => "part of speech: " ++ unmatched tokenPattern rest
  | .noWord label rest => "terminal " ++ label ++ ": " ++ unmatched tokenPattern rest
  | .emptyLeaf label => "terminal " ++ label ++ " has no words"
  | .trailing rest => "unexpected trailing input " ++ accented rest

/-- The message of an error without the number of its line. -/
def Error.detail : Error → String
  | .category input fault => malformedCategory input fault
  | .line fault => fault.message
  | .tree input fault => "malformed syntax tree " ++ accented input ++ ": " ++ fault.message
  | .undeclaredVariable part v c =>
    accented part ++ " refers to variable " ++ toString v ++ ", which does not occur in " ++ c
  | .assignmentArity c expected actual =>
    c ++ " has " ++ toString expected ++ " variables but " ++ toString actual ++
      " assignment slots"
  | .droppedVariable input result v =>
    "unary rule " ++ input ++ " => " ++ result ++ ": variable " ++ toString v ++
      " is missing from the result"
  | .ambiguousArguments c v =>
    c ++ ": multiple arguments bind variable " ++ toString v
  | .tagCount words tags =>
    "sentence has " ++ toString words ++ " words but " ++ toString tags ++ " part-of-speech tags"
  | .atLine _ cause => cause.detail

/-- The number of the line that an error names: a malformed line that was not read from a file has
    the number zero, and errors that are not about a line have none. -/
def Error.lineNumber? : Error → Option Nat
  | .line _ => some 0
  | .atLine number _ => some number
  | _ => none

/-- The message of an error. -/
def Error.message (e : Error) : String :=
  match e.lineNumber? with
  | some number => "line " ++ toString number ++ ": " ++ e.detail
  | none => e.detail

end Categorial
