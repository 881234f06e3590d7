/-
  Categorial.Category.Basic

  Categories: atoms such as `N` or `S[dcl]`, and functions that look for an argument on their right
  (`X/Y`) or on their left (`X\Y`).  Every node carries a label.  Plain categories have none, headed
  categories carry a head variable at each node, and categories as they are written carry a head
  variable at some nodes.  So the three share one type.
-/

namespace Categorial

/-! ## Directions and features -/

/-- The side on which a function looks for its argument. -/
inductive Direction where
  /-- To the right, written `/`. -/
  | forward
  /-- To the left, written `\`. -/
  | backward
  deriving DecidableEq, Repr

def Direction.slash : Direction → Char
  | .forward => '/'
  | .backward => '\\'

def Direction.ofSlash? : Char → Option Direction
  | '/' => some .forward
  | '\\' => some .backward
  | _ => none

@[simp] theorem Direction.ofSlash?_slash (d : Direction) : ofSlash? d.slash = some d := by
  cases d <;> rfl

/-- The feature of an atom. A numbered feature is a variable: it takes the value it meets. -/
inductive Feature where
  | unspecified
  | value (name : String)
  | var (number : Nat)
  deriving DecidableEq, Repr

/-- Two features disagree only if both are values and they differ. -/
def Feature.compatible : Feature → Feature → Bool
  | .value a, .value b => a == b
  | _, _ => true

/-- An expected value has to be met; any other expectation is met by every feature. -/
def Feature.accepts : (expected actual : Feature) → Bool
  | .value a, actual => actual == .value a
  | _, _ => true

def Feature.render : Feature → String
  | .unspecified => ""
  | .value name => "[" ++ name ++ "]"
  | .var number => "[" ++ toString number ++ "]"

/-! ## Categories -/

/-- A category whose nodes are labelled by `α`. -/
inductive Category (α : Type) where
  | atom (name : String) (feature : Feature) (label : α)
  | func (dir : Direction) (result argument : Category α) (label : α)
  deriving DecidableEq, Repr

/-- A head variable. -/
abbrev Var := Nat

/-- A category without labels. -/
abbrev Plain := Category Unit

/-- A category with a head variable at every node. Nodes that share a variable are headed by the
    same word: applying `(N{1}/N{1}){0}` gives a constituent headed by the argument's head. -/
abbrev Headed := Category Var

/-- A category as it is written, with a head variable at some nodes. -/
abbrev Written := Category (Option Var)

namespace Category

variable {α β : Type}

/-- The label at the root. -/
def label : Category α → α
  | .atom _ _ l => l
  | .func _ _ _ l => l

def isAtom : Category α → Bool
  | .atom .. => true
  | .func .. => false

def name? : Category α → Option String
  | .atom name _ _ => some name
  | .func .. => none

def direction? : Category α → Option Direction
  | .atom .. => none
  | .func d _ _ _ => some d

def result? : Category α → Option (Category α)
  | .atom .. => none
  | .func _ r _ _ => some r

def argument? : Category α → Option (Category α)
  | .atom .. => none
  | .func _ _ a _ => some a

/-- Replaces every label. -/
def map (f : α → β) : Category α → Category β
  | .atom name feature l => .atom name feature (f l)
  | .func d r a l => .func d (r.map f) (a.map f) (f l)

/-- The labels in reading order: the node itself, then its result, then its argument. -/
def labels : Category α → List α
  | .atom _ _ l => [l]
  | .func _ r a l => l :: (r.labels ++ a.labels)

/-- The arguments along the result spine, outermost first. -/
def arguments : Category α → List (Category α)
  | .atom .. => []
  | .func _ r a _ => a :: r.arguments

/-- The atom that is left when every argument has been consumed. -/
def target : Category α → Category α
  | .atom name feature l => .atom name feature l
  | .func _ r _ _ => r.target

/-- The number of arguments along the result spine. -/
def arity (c : Category α) : Nat := c.arguments.length

/-- The category without its labels. -/
def plain (c : Category α) : Plain := c.map fun _ => ()

/-- The category with every feature left unspecified. -/
def withoutFeatures : Category α → Category α
  | .atom name _ l => .atom name .unspecified l
  | .func d r a l => .func d r.withoutFeatures a.withoutFeatures l

/-- The same shape and the same atoms, with compatible features throughout. -/
def unifiable : Category α → Category β → Bool
  | .atom name feature _, .atom name' feature' _ => name == name' && feature.compatible feature'
  | .func d r a _, .func d' r' a' _ => d == d' && r.unifiable r' && a.unifiable a'
  | _, _ => false

/-- The same shape and the same atoms, with each expected feature accepting the actual one. -/
def accepts : (expected : Category α) → (actual : Category β) → Bool
  | .atom name feature _, .atom name' feature' _ => name == name' && feature.accepts feature'
  | .func d r a _, .func d' r' a' _ => d == d' && r.accepts r' && a.accepts a'
  | _, _ => false

/-- The text of a category, with `note` for the label of each node. Functions are enclosed in
    parentheses, the outermost one too. -/
def renderWith (note : α → String) : Category α → String
  | .atom name feature l => name ++ feature.render ++ note l
  | .func d r a l =>
    "(" ++ r.renderWith note ++ d.slash.toString ++ a.renderWith note ++ ")" ++ note l

@[simp] theorem label_map (f : α → β) (c : Category α) : (c.map f).label = f c.label := by
  cases c <;> rfl

@[simp] theorem labels_map (f : α → β) (c : Category α) : (c.map f).labels = c.labels.map f := by
  induction c with
  | atom => rfl
  | func d r a l ihr iha => simp [map, labels, ihr, iha]

theorem label_mem_labels (c : Category α) : c.label ∈ c.labels := by
  cases c <;> exact List.mem_cons_self

theorem map_map {γ : Type} (g : β → γ) (f : α → β) (c : Category α) :
    (c.map f).map g = c.map (g ∘ f) := by
  induction c with
  | atom => rfl
  | func d r a l ihr iha => simp [map, ihr, iha]

end Category

/-- The text of a head annotation. -/
def renderHead (v : Var) : String := r"{" ++ toString v ++ r"}"

theorem toList_renderHead (v : Var) :
    (renderHead v).toList = '{' :: ((toString v).toList ++ ['}']) := by
  rw [renderHead, String.toList_append, String.toList_append]
  rfl

def Plain.render (c : Plain) : String := c.renderWith fun _ => ""

def Headed.render (c : Headed) : String := c.renderWith renderHead

end Categorial
