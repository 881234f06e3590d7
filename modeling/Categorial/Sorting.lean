/-
  Categorial.Sorting

  Sorting by insertion, which keeps the order of elements that the comparison does not tell apart,
  and finite sets as strictly ascending lists.
-/

namespace Categorial

/-! ## Sorting by a comparison -/

variable {α : Type}

/-- Inserts an element in front of the first one that it may precede. -/
def insertBy (le : α → α → Bool) (a : α) : List α → List α
  | [] => [a]
  | b :: bs => if le a b then a :: b :: bs else b :: insertBy le a bs

/-- Sorts a list; elements that may precede each other stay in their order. -/
def sortBy (le : α → α → Bool) (as : List α) : List α := as.foldr (insertBy le) []

theorem insertBy_perm (le : α → α → Bool) (a : α) (bs : List α) :
    (insertBy le a bs).Perm (a :: bs) := by
  induction bs with
  | nil => exact .refl _
  | cons b bs ih =>
    simp only [insertBy]
    split
    · exact .refl _
    · exact (ih.cons b).trans (.swap a b bs)

theorem sortBy_perm (le : α → α → Bool) (as : List α) : (sortBy le as).Perm as := by
  induction as with
  | nil => exact .refl _
  | cons a as ih => exact (insertBy_perm le a (sortBy le as)).trans (ih.cons a)

/-! ## Lists over an order -/

variable [Ord α]

/-- The elements of a list in ascending order, with their repetitions. -/
def sorted (as : List α) : List α := sortBy (fun a b => (compare a b).isLE) as

/-- Inserts an element into an ascending list, unless it is there already. -/
def insertSorted (a : α) : List α → List α
  | [] => [a]
  | b :: bs =>
    match compare a b with
    | .lt => a :: b :: bs
    | .eq => b :: bs
    | .gt => b :: insertSorted a bs

/-- The elements of a list in ascending order, each once. -/
def sortedSet (as : List α) : List α := as.foldl (fun set a => insertSorted a set) []

end Categorial
