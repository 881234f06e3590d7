/-
  Categorial.Category.Renaming

  Renamings of head variables and the canonical form of a headed category, in which the variables
  are numbered from zero in the order of their first occurrence.
-/

import Categorial.Category.Basic
import Categorial.Sorting

namespace Categorial

/-- A partial map on head variables, as pairs of a variable and its image. The first pair of a
    variable counts. -/
abbrev Renaming := List (Var × Var)

namespace Renaming

/-- The image of a variable, if it has one. -/
def image? (m : Renaming) (v : Var) : Option Var := m.lookup v

/-- The image of a variable; a variable without one stays as it is. -/
def apply (m : Renaming) (v : Var) : Var := (m.image? v).getD v

end Renaming

namespace Headed

/-- The head variable of the whole category. -/
def head (c : Headed) : Var := c.label

/-- The variables of a category, ascending. -/
def vars (c : Headed) : List Var := sortedSet c.labels

/-- The largest variable of a category. -/
def maxVar (c : Headed) : Var := c.labels.foldl max 0

/-- Renames the variables; those without an image stay as they are. -/
def rename (m : Renaming) (c : Headed) : Headed := c.map m.apply

/-- Numbers the variables from zero in the order of their first occurrence. -/
def numbering (c : Headed) : Renaming := c.labels.eraseDups.zipIdx

/-- The category with its variables numbered in the order of their first occurrence. -/
def canonical (c : Headed) : Headed := c.rename c.numbering

/-- Whether the variables are numbered in the order of their first occurrence already. -/
def isCanonical (c : Headed) : Bool := c.numbering.all fun pair => pair.1 == pair.2

end Headed

end Categorial
