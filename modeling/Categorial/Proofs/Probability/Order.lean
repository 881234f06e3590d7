/-
  Categorial.Proofs.Probability.Order

  The order of probabilities.  Numbers that are not negative are ordered as their bits are when
  these are read as natural numbers, so that a question about the order of positive numbers becomes
  one about natural numbers.

    * `bitsOf`, `infinityBits` -- the bits of a number, and those of infinity, which bound the bits
      of the numbers that are not negative.
    * `mantissaOf`, `exponentOf` -- the parts of a number, from its bits.
    * `lt_iff_bits`, `le_iff_bits`, `pos_iff_bits` -- the order in terms of bits.

  The order on all numbers is not total, and not even reflexive: what is no number is not below
  itself.  The laws at the end are therefore stated for positive numbers.
-/

import Mathlib

namespace Categorial.Probability

open Float.Model Float.Model.UnpackedFloat

/-! ## Bits -/

/-- The bits of a number, read as a natural number. -/
def bitsOf (x : Float) : Nat := x.toBits.toNat

/-- The bits of infinity: all bits of the exponent are set. -/
def infinityBits : Nat := 2047 * 2 ^ 52

/-- The 52 bits of the mantissa. -/
abbrev mantissaField (b : BitVec 64) : BitVec 52 := @unpackMantissa Format.binary64 b

/-- The eleven bits of the exponent. -/
abbrev exponentField (b : BitVec 64) : BitVec 11 := @unpackExponent Format.binary64 b

/-- The bit of the sign. -/
abbrev signField (b : BitVec 64) : BitVec 1 := @unpackSign Format.binary64 b

/-- A number in parts, from its bits. -/
abbrev decode (b : BitVec 64) : UnpackedFloat := UnpackedFloat.unpack Format.binary64 b

theorem mantissaField_toNat (b : BitVec 64) : (mantissaField b).toNat = b.toNat % 2 ^ 52 := by
  simp [unpackMantissa, BitVec.extractLsb]

theorem exponentField_toNat (b : BitVec 64) :
    (exponentField b).toNat = b.toNat / 2 ^ 52 % 2 ^ 11 := by
  simp [unpackExponent, BitVec.extractLsb, Nat.shiftRight_eq_div_pow]

theorem signField_toNat (b : BitVec 64) : (signField b).toNat = b.toNat / 2 ^ 63 % 2 := by
  simp [unpackSign, BitVec.extractLsb, Nat.shiftRight_eq_div_pow]

theorem exponentField_eq_ones_iff (b : BitVec 64) :
    exponentField b = -1#11 ↔ b.toNat / 2 ^ 52 % 2 ^ 11 = 2047 := by
  rw [← BitVec.toNat_inj, exponentField_toNat]
  rfl

theorem exponentField_eq_zero_iff (b : BitVec 64) :
    exponentField b = 0#11 ↔ b.toNat / 2 ^ 52 % 2 ^ 11 = 0 := by
  rw [← BitVec.toNat_inj, exponentField_toNat]
  rfl

theorem mantissaField_eq_zero_iff (b : BitVec 64) :
    mantissaField b = 0#52 ↔ b.toNat % 2 ^ 52 = 0 := by
  rw [← BitVec.toNat_inj, mantissaField_toNat]
  rfl

theorem sign_eq_positive_iff (b : BitVec 64) :
    Sign.ofBitVec (signField b) = .positive ↔ b.toNat < 2 ^ 63 := by
  have hb := b.isLt
  have hzero : signField b = 0#1 ↔ b.toNat / 2 ^ 63 % 2 = 0 := by
    rw [← BitVec.toNat_inj, signField_toNat]
    rfl
  by_cases h : signField b = 0#1
  · rw [Sign.ofBitVec, if_pos h]
    rw [hzero] at h
    simp only [true_iff]
    omega
  · rw [Sign.ofBitVec, if_neg h]
    rw [hzero] at h
    simp only [reduceCtorEq, false_iff]
    omega

/-- The bit that a mantissa of a normal number does not store. -/
theorem append_one_toNat (m : BitVec 52) : (1#1 ++ m).toNat = 2 ^ 52 + m.toNat := by
  have h := Nat.two_pow_add_eq_or_of_lt m.isLt 1
  rw [Nat.mul_one] at h
  exact h.symm

/-! ## Numbers that are not negative -/

/-- The mantissa of a finite number that is not negative, from its bits. -/
def mantissaOf (n : Nat) : Nat := if n < 2 ^ 52 then n else 2 ^ 52 + n % 2 ^ 52

/-- The exponent of a finite number that is not negative, from its bits. -/
def exponentOf (n : Nat) : Int := if n < 2 ^ 52 then -1074 else n / 2 ^ 52 - 1075

theorem mantissaOf_pos {n : Nat} (h : 0 < n) : 0 < mantissaOf n := by
  unfold mantissaOf
  split <;> omega

theorem exponentOf_ge (n : Nat) : -1074 ≤ exponentOf n := by
  unfold exponentOf
  split <;> omega

/-- The bits put the exponent before the mantissa. -/
theorem parts_lt_of_lt {n n' : Nat} (h : n < n') :
    exponentOf n < exponentOf n' ∨
      exponentOf n = exponentOf n' ∧ mantissaOf n < mantissaOf n' := by
  unfold exponentOf mantissaOf
  by_cases hn : n < 2 ^ 52
  · by_cases hn' : n' < 2 ^ 52
    · rw [if_pos hn, if_pos hn', if_pos hn, if_pos hn']
      omega
    · rw [if_pos hn, if_neg hn', if_pos hn, if_neg hn']
      omega
  · have hn' : ¬ n' < 2 ^ 52 := by omega
    rw [if_neg hn, if_neg hn', if_neg hn, if_neg hn']
    omega

theorem decode_finite (b : BitVec 64) (hpos : 0 < b.toNat) (h : b.toNat < infinityBits) :
    decode b =
      .finite .positive (mantissaOf b.toNat) (exponentOf b.toNat) (mantissaOf_pos hpos) := by
  simp only [infinityBits] at h
  have hsign := (sign_eq_positive_iff b).2 (by omega)
  have hinf : ¬ exponentField b = -1#11 := by
    rw [exponentField_eq_ones_iff]
    omega
  simp only [decode, UnpackedFloat.unpack, hsign]
  rw [if_neg hinf]
  by_cases hsub : b.toNat < 2 ^ 52
  · -- The exponent field of a subnormal number is zero, and it has no further bit.
    have hzero : exponentField b = 0#11 := by
      rw [exponentField_eq_zero_iff]
      omega
    have hm : ¬ mantissaField b = 0#52 := by
      rw [mantissaField_eq_zero_iff]
      omega
    rw [if_pos hzero, dif_neg hm]
    congr 1
    · rw [mantissaField_toNat, mantissaOf, if_pos hsub]
      omega
    · rw [exponentField_toNat, exponentOf, if_pos hsub]
      simp only [Format.exponentBias]
      omega
  · -- A normal number has one more bit than its mantissa field.
    have hzero : ¬ exponentField b = 0#11 := by
      rw [exponentField_eq_zero_iff]
      omega
    rw [if_neg hzero]
    congr 1
    · rw [append_one_toNat, mantissaField_toNat, mantissaOf, if_neg hsub]
    · rw [exponentField_toNat, exponentOf, if_neg hsub]
      simp only [Format.exponentBias]
      omega

theorem decode_infinity (b : BitVec 64) (h : b.toNat = infinityBits) :
    decode b = .infinity .positive := by
  have hb : b = BitVec.ofNat 64 infinityBits := BitVec.eq_of_toNat_eq h
  rw [hb]
  rfl

theorem decode_zero (b : BitVec 64) (h : b.toNat = 0) : decode b = .zero .positive := by
  have hb : b = 0#64 := BitVec.eq_of_toNat_eq h
  rw [hb]
  rfl

theorem decode_notANumber (b : BitVec 64) (h : infinityBits < b.toNat) (hs : b.toNat < 2 ^ 63) :
    decode b = .notANumber := by
  simp only [infinityBits] at h
  -- All bits of the exponent are set, as for infinity, but some bit of the mantissa is set too.
  have hinf : exponentField b = -1#11 := by
    rw [exponentField_eq_ones_iff]
    omega
  have hm : ¬ mantissaField b = 0#52 := by
    rw [mantissaField_eq_zero_iff]
    omega
  simp only [decode, UnpackedFloat.unpack]
  rw [if_pos hinf, if_neg hm]

/-- The bits above those of infinity belong to what is no number or has the negative sign. -/
theorem decode_above (b : BitVec 64) (h : infinityBits < b.toNat) :
    decode b = .notANumber ∨ decode b = .infinity .negative ∨ decode b = .zero .negative ∨
      ∃ m e hm, decode b = .finite .negative m e hm := by
  by_cases hs : b.toNat < 2 ^ 63
  · exact .inl (decode_notANumber b h hs)
  have hsign : Sign.ofBitVec (signField b) = .negative := by
    have hnot := mt (sign_eq_positive_iff b).1 hs
    revert hnot
    cases Sign.ofBitVec (signField b) <;> simp
  simp only [decode, UnpackedFloat.unpack, hsign]
  -- Of the five ways to read the fields, only the one for what is no number forgets the sign.
  split_ifs with hinf hm hzero hm
  · exact .inr (.inl rfl)
  · exact .inl rfl
  · exact .inr (.inr (.inl rfl))
  · have hpos : 0 < (mantissaField b).toNat :=
      Nat.pos_of_ne_zero fun h0 => hm (BitVec.eq_of_toNat_eq h0)
    exact .inr (.inr (.inr ⟨_, _, hpos, rfl⟩))
  · have hpos : 0 < (1#1 ++ mantissaField b).toNat := by
      rw [append_one_toNat]
      omega
    exact .inr (.inr (.inr ⟨_, _, hpos, rfl⟩))

/-! ## Comparing -/

theorem compare_parts (n n' : Nat) :
    (compare (exponentOf n) (exponentOf n')).then (compare (mantissaOf n) (mantissaOf n')) =
      compare n n' := by
  rcases Nat.lt_trichotomy n n' with h | h | h
  · rw [Nat.compare_eq_lt.2 h]
    rcases parts_lt_of_lt h with he | ⟨he, hm⟩
    · rw [Int.compare_eq_lt.2 he]
      rfl
    · rw [Int.compare_eq_eq.2 he, Nat.compare_eq_lt.2 hm]
      rfl
  · subst h
    rw [Nat.compare_eq_eq.2 rfl, Int.compare_eq_eq.2 rfl, Nat.compare_eq_eq.2 rfl]
    rfl
  · rw [Nat.compare_eq_gt.2 h]
    rcases parts_lt_of_lt h with he | ⟨he, hm⟩
    · rw [Int.compare_eq_gt.2 he]
      rfl
    · rw [Int.compare_eq_eq.2 he.symm, Nat.compare_eq_gt.2 hm]
      rfl

/-- Numbers that are not negative compare as their bits do. -/
theorem compare_decode (b b' : BitVec 64) (h : b.toNat ≤ infinityBits)
    (h' : b'.toNat ≤ infinityBits) :
    (decode b).compare (decode b') = some (compare b.toNat b'.toNat) := by
  -- Infinity and zero are read apart from the other numbers, so each needs its own comparison.
  rcases Nat.eq_or_lt_of_le h with hi | hi <;> rcases Nat.eq_or_lt_of_le h' with hi' | hi'
  · rw [decode_infinity b hi, decode_infinity b' hi', hi, hi', Nat.compare_eq_eq.2 rfl]
    rfl
  · rw [decode_infinity b hi, Nat.compare_eq_gt.2 (by omega)]
    rcases Nat.eq_zero_or_pos b'.toNat with hz | hpos
    · rw [decode_zero b' hz]
      rfl
    · rw [decode_finite b' hpos hi']
      rfl
  · rw [decode_infinity b' hi', Nat.compare_eq_lt.2 (by omega)]
    rcases Nat.eq_zero_or_pos b.toNat with hz | hpos
    · rw [decode_zero b hz]
      rfl
    · rw [decode_finite b hpos hi]
      rfl
  · rcases Nat.eq_zero_or_pos b.toNat with hz | hpos <;>
      rcases Nat.eq_zero_or_pos b'.toNat with hz' | hpos'
    · rw [decode_zero b hz, decode_zero b' hz', hz, hz', Nat.compare_eq_eq.2 rfl]
      rfl
    · rw [decode_zero b hz, decode_finite b' hpos' hi', Nat.compare_eq_lt.2 (by omega)]
      rfl
    · rw [decode_zero b' hz', decode_finite b hpos hi, Nat.compare_eq_gt.2 (by omega)]
      rfl
    · rw [decode_finite b hpos hi, decode_finite b' hpos' hi', ← compare_parts]
      rfl

/-- A number in parts. -/
abbrev partsOf (x : Float) : UnpackedFloat := decode x.toModel.toBits.toBitVec

theorem lt_iff_parts (x y : Float) : x < y ↔ (partsOf x).lt (partsOf y) = true := by
  exact decide_eq_true_iff

theorem le_iff_parts (x y : Float) : x ≤ y ↔ (partsOf x).le (partsOf y) = true := by
  exact decide_eq_true_iff

theorem lt_iff_bits {x y : Float} (hx : bitsOf x ≤ infinityBits) (hy : bitsOf y ≤ infinityBits) :
    x < y ↔ bitsOf x < bitsOf y := by
  have h := compare_decode x.toModel.toBits.toBitVec y.toModel.toBits.toBitVec hx hy
  rw [lt_iff_parts, UnpackedFloat.lt, h, beq_iff_eq, Option.some_inj, Nat.compare_eq_lt]
  rfl

theorem le_iff_bits {x y : Float} (hx : bitsOf x ≤ infinityBits) (hy : bitsOf y ≤ infinityBits) :
    x ≤ y ↔ bitsOf x ≤ bitsOf y := by
  have h := compare_decode x.toModel.toBits.toBitVec y.toModel.toBits.toBitVec hx hy
  rw [le_iff_parts, UnpackedFloat.le, h, Option.any_some, Nat.isLE_compare]
  rfl

/-! ## Positive numbers -/

theorem bitsOf_zero : bitsOf 0 = 0 := by decide +kernel

theorem partsOf_finite {x : Float} (hpos : 0 < bitsOf x) (h : bitsOf x < infinityBits) :
    partsOf x =
      .finite .positive (mantissaOf (bitsOf x)) (exponentOf (bitsOf x)) (mantissaOf_pos hpos) :=
  decode_finite x.toModel.toBits.toBitVec hpos h

theorem partsOf_infinity {x : Float} (h : bitsOf x = infinityBits) :
    partsOf x = .infinity .positive :=
  decode_infinity x.toModel.toBits.toBitVec h

theorem partsOf_zero {x : Float} (h : bitsOf x = 0) : partsOf x = .zero .positive :=
  decode_zero x.toModel.toBits.toBitVec h

theorem partsOf_above {x : Float} (h : infinityBits < bitsOf x) :
    partsOf x = .notANumber ∨ partsOf x = .infinity .negative ∨ partsOf x = .zero .negative ∨
      ∃ m e hm, partsOf x = .finite .negative m e hm :=
  decode_above x.toModel.toBits.toBitVec h

theorem pos_iff_bits (x : Float) : 0 < x ↔ 0 < bitsOf x ∧ bitsOf x ≤ infinityBits := by
  constructor
  · intro h
    have hle : bitsOf x ≤ infinityBits := by
      by_contra hlt
      rw [lt_iff_parts, partsOf_zero bitsOf_zero] at h
      rcases partsOf_above (Nat.lt_of_not_le hlt) with hu | hu | hu | ⟨m, e, hm, hu⟩ <;>
        rw [hu] at h <;> cases h
    rw [lt_iff_bits (by rw [bitsOf_zero]; exact Nat.zero_le _) hle, bitsOf_zero] at h
    exact ⟨h, hle⟩
  · rintro ⟨hpos, hle⟩
    rw [lt_iff_bits (by rw [bitsOf_zero]; omega) hle, bitsOf_zero]
    exact hpos

/-- A positive number is a number. -/
theorem isNaN_of_pos {x : Float} (h : 0 < x) : x.isNaN = false := by
  obtain ⟨hpos, hle⟩ := (pos_iff_bits x).1 h
  show (partsOf x).isNaN = false
  rcases Nat.lt_or_eq_of_le hle with hlt | heq
  · rw [partsOf_finite hpos hlt]
    rfl
  · rw [partsOf_infinity heq]
    rfl

theorem pos_of_pos_of_le {x y : Float} (hx : 0 < x) (h : x ≤ y) : 0 < y := by
  obtain ⟨hx0, hxi⟩ := (pos_iff_bits x).1 hx
  have hle : bitsOf y ≤ infinityBits := by
    by_contra hlt
    have hu := partsOf_above (Nat.lt_of_not_le hlt)
    rw [le_iff_parts] at h
    rcases Nat.lt_or_eq_of_le hxi with hxf | hxf
    · rw [partsOf_finite hx0 hxf] at h
      rcases hu with hu | hu | hu | ⟨m, e, hm, hu⟩ <;> rw [hu] at h <;> cases h
    · rw [partsOf_infinity hxf] at h
      rcases hu with hu | hu | hu | ⟨m, e, hm, hu⟩ <;> rw [hu] at h <;> cases h
  rw [le_iff_bits hxi hle] at h
  exact (pos_iff_bits y).2 ⟨by omega, hle⟩

theorem le_iff_of_pos {x y : Float} (hx : 0 < x) (hy : 0 < y) : x ≤ y ↔ bitsOf x ≤ bitsOf y :=
  le_iff_bits ((pos_iff_bits x).1 hx).2 ((pos_iff_bits y).1 hy).2

theorem lt_iff_of_pos {x y : Float} (hx : 0 < x) (hy : 0 < y) : x < y ↔ bitsOf x < bitsOf y :=
  lt_iff_bits ((pos_iff_bits x).1 hx).2 ((pos_iff_bits y).1 hy).2

theorem le_refl_of_pos {x : Float} (hx : 0 < x) : x ≤ x :=
  (le_iff_of_pos hx hx).2 (Nat.le_refl _)

theorem le_trans_of_pos {x y z : Float} (hx : 0 < x) (hxy : x ≤ y) (hyz : y ≤ z) : x ≤ z := by
  have hy := pos_of_pos_of_le hx hxy
  have hz := pos_of_pos_of_le hy hyz
  rw [le_iff_of_pos hx hy] at hxy
  rw [le_iff_of_pos hy hz] at hyz
  rw [le_iff_of_pos hx hz]
  exact Nat.le_trans hxy hyz

theorem not_lt_of_pos {x y : Float} (hx : 0 < x) (hy : 0 < y) : ¬ x < y ↔ y ≤ x := by
  rw [lt_iff_of_pos hx hy, le_iff_of_pos hy hx, Nat.not_lt]

theorem le_of_lt_of_pos {x y : Float} (hx : 0 < x) (hy : 0 < y) (h : x < y) : x ≤ y := by
  rw [lt_iff_of_pos hx hy] at h
  rw [le_iff_of_pos hx hy]
  exact Nat.le_of_lt h

theorem lt_of_le_of_lt_of_pos {x y z : Float} (hx : 0 < x) (hz : 0 < z) (hxy : x ≤ y)
    (hyz : y < z) : x < z := by
  have hy := pos_of_pos_of_le hx hxy
  rw [le_iff_of_pos hx hy] at hxy
  rw [lt_iff_of_pos hy hz] at hyz
  rw [lt_iff_of_pos hx hz]
  omega

end Categorial.Probability
