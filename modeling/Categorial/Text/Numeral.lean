/-
  Categorial.Text.Numeral

  Unsigned decimal numerals with an upper bound.  A numeral is a non-empty run of ASCII digits, with
  a plus sign in front of it or not; leading zeros are read over.
-/

namespace Categorial.Text

/-- Variables, word positions and argument numbers are below this bound, the 64th power of two. -/
def wordBound : Nat := 18446744073709551616

/-- Feature variables are below this bound, the 32nd power of two. -/
def featureBound : Nat := 4294967296

/-- The value of a run of digits, most significant first. -/
def digitsValue (ds : List Char) : Nat := ds.foldl (fun n d => 10 * n + (d.toNat - '0'.toNat)) 0

/-- Reads a non-empty run of digits with a value below `bound`. -/
def readDigits (bound : Nat) (ds : List Char) : Option Nat :=
  if ds.isEmpty || !ds.all Char.isDigit then none
  else if digitsValue ds < bound then some (digitsValue ds)
  else none

/-- Reads a numeral with a value below `bound`. -/
def readNumeral (bound : Nat) : List Char → Option Nat
  | '+' :: ds => readDigits bound ds
  | ds => readDigits bound ds

theorem readDigits_lt {bound n : Nat} {ds : List Char} (h : readDigits bound ds = some n) :
    n < bound := by
  grind [readDigits]

theorem readNumeral_lt {bound n : Nat} {cs : List Char} (h : readNumeral bound cs = some n) :
    n < bound := by
  unfold readNumeral at h
  split at h <;> exact readDigits_lt h

end Categorial.Text
