/-
  Categorial.Decimal

  Probabilities as decimals with a fixed number of places.  The decimal is the exact value of the
  floating-point number, rounded to the nearest one with that many places; a tie goes to the even
  neighbour.
-/

namespace Categorial.Decimal

/-- The quotient rounded to the nearest natural number, a tie to the even one. -/
def roundDiv (num den : Nat) : Nat :=
  let q := num / den
  let r := num % den
  if 2 * r < den then q
  else if den < 2 * r then q + 1
  else if q % 2 = 0 then q else q + 1

/-- The magnitude of a finite floating-point number times `scale`, rounded. The number is given by
    the two fields of its bits: the biased exponent and the fraction. -/
def scaledMagnitude (exponent fraction scale : Nat) : Nat :=
  -- Subnormal numbers have the exponent one and no leading bit.
  let significand := if exponent = 0 then fraction else Nat.pow 2 52 + fraction
  let e := max exponent 1
  if 1075 ≤ e then significand * Nat.pow 2 (e - 1075) * scale
  else roundDiv (significand * scale) (Nat.pow 2 (1075 - e))

/-- The text of a number of parts, `scale` of which make a whole; `scale` is the power of ten with
    the exponent `places`. -/
def renderParts (places scale parts : Nat) : String :=
  let digits := toString (parts % scale)
  toString (parts / scale) ++ "." ++ "".pushn '0' (places - digits.length) ++ digits

/-- The text of a floating-point number with `places` decimal places. -/
def render (places : Nat) (x : Float) : String :=
  let bits := x.toBits.toNat
  let exponent := bits / Nat.pow 2 52 % Nat.pow 2 11
  let fraction := bits % Nat.pow 2 52
  let scale := Nat.pow 10 places
  let sign := if bits / Nat.pow 2 63 = 0 then "" else "-"
  if exponent = 2047 then if fraction = 0 then sign ++ "inf" else "NaN"
  else sign ++ renderParts places scale (scaledMagnitude exponent fraction scale)

/-- The text of a probability: four decimal places. -/
def renderProbability (x : Float) : String := render 4 x

end Categorial.Decimal
