/-
  Categorial.Weight

  Weights of the steps of a derivation.  A weight is the number that someone put into a table, so it
  is held by its bits: also one that is not a number comes out of the table as it was put in.
-/

namespace Categorial

/-- A weight, as the bits of a double-precision number. -/
structure Weight where
  bits : UInt64
  deriving DecidableEq, Repr

namespace Weight

def ofFloat (x : Float) : Weight := ⟨x.toBits⟩

/-- The factor that a weight is in a product. -/
def toFloat (w : Weight) : Float := .ofBits w.bits

/-- The weight that changes no product. -/
def one : Weight := .ofFloat 1.0

end Weight

end Categorial
