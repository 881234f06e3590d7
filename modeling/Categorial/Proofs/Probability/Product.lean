/-
  Categorial.Proofs.Probability.Product

  Products of probabilities.  An exact product is rounded to the nearest number.  In terms of bits
  the rounding of the mantissa and the carry into the exponent are one addition (`roundedBits`),
  and what is too large is cut off at the bits of infinity; both are monotone, hence so is the
  product of positive numbers (`mul_le_mul`).

  A product can be too small to be positive, and infinity times zero is no number.  So products of
  weights are looked at as numbers without a sign (`Unsigned`), and a positive product has positive
  factors (`pos_of_mul_pos`).
-/

import Categorial.Proofs.Probability.Order

namespace Categorial.Probability

open Float.Model Float.Model.UnpackedFloat

/-! ## Rounding to the nearest -/

/-- The natural number nearest to `n / d`; of two that are equally near, the even one. -/
def nearestEven (n d : Nat) : Nat :=
  if 2 * (n % d) < d then n / d
  else if 2 * (n % d) = d then n / d + n / d % 2
  else n / d + 1

theorem nearestEven_ge (n d : Nat) : n / d ≤ nearestEven n d := by
  unfold nearestEven
  split_ifs <;> omega

theorem nearestEven_le (n d : Nat) : nearestEven n d ≤ n / d + 1 := by
  unfold nearestEven
  split_ifs <;> omega

theorem nearestEven_mono {n n' d : Nat} (h : n ≤ n') : nearestEven n d ≤ nearestEven n' d := by
  rcases Nat.lt_or_eq_of_le (Nat.div_le_div_right h) with hq | hq
  · have hle := nearestEven_le n d
    have hge := nearestEven_ge n' d
    exact Nat.le_trans hle (Nat.le_trans hq hge)
  · -- With one quotient the rests decide, and the way of rounding is monotone in them.
    have hn := Nat.div_add_mod n d
    have hn' := Nat.div_add_mod n' d
    rw [← hq] at hn'
    have hr : n % d ≤ n' % d := by omega
    unfold nearestEven
    rw [← hq]
    split_ifs <;> omega

theorem nearestEven_mul (n d c : Nat) (hc : 0 < c) :
    nearestEven (n * c) (d * c) = nearestEven n d := by
  have hlt : 2 * (n % d * c) < d * c ↔ 2 * (n % d) < d := by
    rw [← Nat.mul_assoc]
    exact Nat.mul_lt_mul_right hc
  have heq : 2 * (n % d * c) = d * c ↔ 2 * (n % d) = d := by
    rw [← Nat.mul_assoc]
    exact Nat.mul_left_inj (Nat.ne_of_gt hc)
  unfold nearestEven
  rw [Nat.mul_mod_mul_right, Nat.mul_div_mul_right n d hc]
  simp only [hlt, heq]

/-- A shift keeps, beside the quotient, whether the rest reaches half of the divisor and whether
    there is more to it. -/
theorem shiftRight_exact (m k : Nat) :
    ExtendedMantissa.ofMantissaAndAccuracy m .exact >>> k =
      ⟨m / 2 ^ k, decide (2 ^ k ≤ 2 * (m % 2 ^ k)), decide (2 * (m % 2 ^ k) % 2 ^ k ≠ 0)⟩ := by
  induction k with
  | zero =>
    change ExtendedMantissa.mk m false false = _
    simp [Nat.mod_one]
  | succ k ih =>
    -- One more step moves the last bit of the quotient into the rest.
    change (ExtendedMantissa.ofMantissaAndAccuracy m .exact >>> k).shiftRightOne = _
    rw [ih]
    have hlt : m % 2 ^ k < 2 ^ k := Nat.mod_lt m (Nat.two_pow_pos k)
    have hmod : m % 2 ^ (k + 1) = m % 2 ^ k + 2 ^ k * (m / 2 ^ k % 2) := by
      rw [Nat.pow_succ, Nat.mod_mul]
    have hround : 2 ^ (k + 1) ≤ 2 * (m % 2 ^ (k + 1)) ↔ m / 2 ^ k % 2 ≠ 0 := by
      rw [hmod, Nat.pow_succ]
      rcases Nat.mod_two_eq_zero_or_one (m / 2 ^ k) with h | h <;> rw [h] <;> omega
    have hsticky : 2 * (m % 2 ^ (k + 1)) % 2 ^ (k + 1) ≠ 0 ↔
        2 ^ k ≤ 2 * (m % 2 ^ k) ∨ 2 * (m % 2 ^ k) % 2 ^ k ≠ 0 := by
      rw [Nat.pow_succ', Nat.mul_mod_mul_left, ← Nat.pow_succ', hmod, Nat.add_mul_mod_self_left,
        Nat.mod_mod]
      rcases Nat.lt_or_ge (2 * (m % 2 ^ k)) (2 ^ k) with h | h
      · rw [Nat.mod_eq_of_lt h]
        omega
      · omega
    simp only [ExtendedMantissa.shiftRightOne, ExtendedMantissa.mk.injEq]
    refine ⟨?_, ?_, ?_⟩
    · rw [Nat.pow_succ, Nat.div_div_eq_div_mul]
    · rw [Bool.eq_iff_iff, decide_eq_true_iff, hround]
      simp
    · rw [Bool.eq_iff_iff, decide_eq_true_iff, hsticky]
      simp

theorem roundedMantissa_shiftRight (m k : Nat) :
    (ExtendedMantissa.ofMantissaAndAccuracy m .exact >>> k).roundedMantissa =
      nearestEven m (2 ^ k) := by
  rw [shiftRight_exact]
  have hlt : m % 2 ^ k < 2 ^ k := Nat.mod_lt m (Nat.two_pow_pos k)
  unfold nearestEven
  by_cases h : 2 * (m % 2 ^ k) < 2 ^ k
  · have hround : decide (2 ^ k ≤ 2 * (m % 2 ^ k)) = false := by simpa using h
    rw [if_pos h, hround]
    cases decide (2 * (m % 2 ^ k) % 2 ^ k ≠ 0) <;> rfl
  · have hround : decide (2 ^ k ≤ 2 * (m % 2 ^ k)) = true := by simpa using h
    rw [if_neg h, hround]
    by_cases heq : 2 * (m % 2 ^ k) = 2 ^ k
    · -- Just half: the last bit of the quotient decides.
      rw [if_pos heq, heq, Nat.mod_self]
      rfl
    · have hsticky : 2 * (m % 2 ^ k) % 2 ^ k ≠ 0 := by
        rw [Nat.mod_eq_sub_mod (by omega), Nat.mod_eq_of_lt (by omega)]
        omega
      rw [if_neg heq, decide_eq_true hsticky]
      rfl

/-! ## The bits of a rounded product

A product is given as a natural number `w` that stands for `w / 2 ^ 2148`: the least positive number
is `1 / 2 ^ 1074`, so that every product of two numbers has this form. -/

/-- The exponent that a product is rounded to, counted from the least one. -/
def scaleOf (w : Nat) : Nat := w.log2 - 1126

/-- The bits of a product after rounding, if no number were too large. -/
def roundedBits (w : Nat) : Nat :=
  scaleOf w * 2 ^ 52 + nearestEven w (2 ^ (scaleOf w + 1074))

theorem log2_mono {n n' : Nat} (h : n ≤ n') : n.log2 ≤ n'.log2 := by
  by_cases hn : n = 0
  · rw [hn, Nat.log2_zero]
    exact Nat.zero_le _
  · exact (Nat.le_log2 (by omega)).2 (Nat.le_trans (Nat.log2_self_le hn) h)

theorem log2_mul_two_pow {m : Nat} (hm : m ≠ 0) (j : Nat) : (m * 2 ^ j).log2 = m.log2 + j := by
  induction j with
  | zero => rw [Nat.pow_zero, Nat.mul_one, Nat.add_zero]
  | succ j ih =>
    have hne : m * 2 ^ j ≠ 0 := Nat.mul_ne_zero hm (Nat.ne_of_gt (Nat.two_pow_pos j))
    rw [Nat.pow_succ, ← Nat.mul_assoc, Nat.mul_comm _ 2, Nat.log2_two_mul hne, ih, Nat.add_assoc]

theorem lt_two_pow_scale (w : Nat) : w < 2 ^ 53 * 2 ^ (scaleOf w + 1074) := by
  rw [← Nat.pow_add]
  refine Nat.lt_of_lt_of_le Nat.lt_log2_self (Nat.pow_le_pow_right (by decide) ?_)
  unfold scaleOf
  omega

theorem two_pow_scale_le {w : Nat} (h : 0 < scaleOf w) :
    2 ^ 52 * 2 ^ (scaleOf w + 1074) ≤ w := by
  rw [← Nat.pow_add]
  unfold scaleOf at h ⊢
  have hw : w ≠ 0 := by
    intro h0
    rw [h0, Nat.log2_zero] at h
    omega
  refine Nat.le_trans (Nat.pow_le_pow_right (by decide) ?_) (Nat.log2_self_le hw)
  omega

/-- The rounded mantissa has 53 bits at most, or is the next power of two. -/
theorem nearestEven_scale_le (w : Nat) : nearestEven w (2 ^ (scaleOf w + 1074)) ≤ 2 ^ 53 := by
  have hlt := (Nat.div_lt_iff_lt_mul (Nat.two_pow_pos (scaleOf w + 1074))).2 (lt_two_pow_scale w)
  exact Nat.le_trans (nearestEven_le w _) hlt

theorem le_nearestEven_scale {w : Nat} (h : 0 < scaleOf w) :
    2 ^ 52 ≤ nearestEven w (2 ^ (scaleOf w + 1074)) := by
  have hle := (Nat.le_div_iff_mul_le (Nat.two_pow_pos (scaleOf w + 1074))).2 (two_pow_scale_le h)
  exact Nat.le_trans hle (nearestEven_ge w _)

theorem roundedBits_mono {w w' : Nat} (h : w ≤ w') : roundedBits w ≤ roundedBits w' := by
  have hs : scaleOf w ≤ scaleOf w' := by
    have hlog := log2_mono h
    unfold scaleOf
    omega
  unfold roundedBits
  rcases Nat.lt_or_eq_of_le hs with hlt | heq
  · -- A larger scale outweighs any mantissa at the smaller one.
    have hm := nearestEven_scale_le w
    have hm' := le_nearestEven_scale (Nat.lt_of_le_of_lt (Nat.zero_le _) hlt)
    have hscale : (scaleOf w + 1) * 2 ^ 52 ≤ scaleOf w' * 2 ^ 52 := Nat.mul_le_mul_right _ hlt
    omega
  · rw [← heq]
    exact Nat.add_le_add_left (nearestEven_mono h) _

/-! ## Packing -/

theorem packComponents_toNat (e : BitVec 11) (m : BitVec 52) :
    (packComponents Format.binary64 .positive e m).toNat = e.toNat * 2 ^ 52 + m.toNat := by
  change ((0#1 ++ e) ++ m).toNat = _
  rw [BitVec.toNat_append, ← Nat.shiftLeft_add_eq_or_of_lt m.isLt, Nat.shiftLeft_eq,
    BitVec.toNat_append]
  simp

theorem packedInfinity_toNat :
    (packedInfinity Format.binary64 .positive).toNat = infinityBits := by
  decide +kernel

/-- Packing puts the exponent before the mantissa; what is too large becomes infinity. -/
theorem pack_finite_toNat {m : Nat} {e : Int} (hpos : 0 < m) (hm : m < 2 ^ 53) (he : -1074 ≤ e)
    (hc : 2 ^ 52 ≤ m ∨ e = -1074) :
    (UnpackedFloat.pack Format.binary64 (.finite .positive m e hpos)).toNat =
      min ((e + 1074).toNat * 2 ^ 52 + m) infinityBits := by
  have hbias : (e + (Format.binary64.exponentBias : Int) +
      (Format.binary64.mantissaBitsWithoutImplicit : Int)).toNat = (e + 1074).toNat + 1 := by
    simp only [Format.exponentBias]
    omega
  simp only [UnpackedFloat.pack, hbias]
  by_cases hbig : 2 ^ 11 ≤ (e + 1074).toNat + 1 + 1
  · rw [if_pos hbig, packedInfinity_toNat]
    unfold infinityBits
    omega
  rw [if_neg hbig]
  -- The stored exponent is one higher for normal numbers, which makes up for the bit not stored.
  have hlog : m.log2 + 1 = Format.binary64.mantissaBits ↔ 2 ^ 52 ≤ m := by
    have hle := Nat.le_log2 (k := 52) (Nat.ne_of_gt hpos)
    have hlt := (Nat.log2_lt (Nat.ne_of_gt hpos)).2 hm
    simp only [Format.mantissaBits]
    omega
  by_cases hnormal : 2 ^ 52 ≤ m
  · rw [if_pos (hlog.2 hnormal), packComponents_toNat, BitVec.toNat_ofNat, BitVec.toNat_ofNat]
    unfold infinityBits
    omega
  · have hmin : e = -1074 := hc.resolve_left hnormal
    rw [if_neg (mt hlog.1 hnormal), packComponents_toNat, BitVec.toNat_ofNat, BitVec.toNat_ofNat,
      hmin]
    unfold infinityBits
    omega

/-- A mantissa of 53 bits at most is not shifted. -/
theorem shiftToTargetExponent_fits {m : Nat} {e : Int} (hm : m < 2 ^ 53) (he : -1074 ≤ e) :
    shiftToTargetExponent Format.binary64 m e .exact = (⟨m, false, false⟩, e) := by
  have hlog : m.log2 ≤ 52 := by
    by_cases h : m = 0
    · rw [h, Nat.log2_zero]
      omega
    · exact Nat.le_of_lt_succ ((Nat.log2_lt h).2 hm)
  have hshift : (Format.binary64.targetExponent (totalExponent m e) - e).toNat = 0 := by
    simp only [Format.targetExponent, totalExponent, Format.mantissaBits, Format.minExponent]
    omega
  simp only [shiftToTargetExponent, shiftToExponent, hshift, Int.natCast_zero, Int.add_zero]
  rfl

/-- A mantissa that rounding has made one bit too long loses its last bit, which is zero. -/
theorem shiftToTargetExponent_carry {e : Int} (he : -1074 ≤ e) :
    shiftToTargetExponent Format.binary64 (2 ^ 53) e .exact =
      (⟨2 ^ 52, false, false⟩, e + 1) := by
  have hshift : (Format.binary64.targetExponent (totalExponent (2 ^ 53) e) - e).toNat = 1 := by
    simp only [Format.targetExponent, totalExponent, Nat.log2_two_pow, Format.mantissaBits,
      Format.minExponent]
    omega
  simp only [shiftToTargetExponent, shiftToExponent, hshift]
  rfl

/-- Packing a mantissa after rounding. Whether it carries into the exponent makes no difference to
    the bits. -/
theorem pack_rounded_toNat {r : Nat} {t : Int} (hr : r ≤ 2 ^ 53) (ht : -1074 ≤ t)
    (hc : 2 ^ 52 ≤ r ∨ t = -1074) :
    let final := shiftToTargetExponent Format.binary64 r t .exact
    (UnpackedFloat.pack Format.binary64
      (if h : final.1.mantissa = 0 then .zero .positive
        else .finite .positive final.1.mantissa final.2 (Nat.pos_of_ne_zero h))).toNat =
      min ((t + 1074).toNat * 2 ^ 52 + r) infinityBits := by
  intro final
  rcases Nat.lt_or_eq_of_le hr with hlt | heq
  · have hfinal : final = (⟨r, false, false⟩, t) := shiftToTargetExponent_fits hlt ht
    rw [hfinal]
    by_cases hz : r = 0
    · subst hz
      have hmin : t = -1074 := by omega
      subst hmin
      decide +kernel
    · rw [dif_neg hz, pack_finite_toNat (Nat.pos_of_ne_zero hz) hlt ht hc]
  · -- The carry: the mantissa is a power of two, and halving it raises the exponent by one.
    subst heq
    have hfinal : final = (⟨2 ^ 52, false, false⟩, t + 1) := shiftToTargetExponent_carry ht
    have hne : ¬ (2 ^ 52 = 0) := by decide
    have hbits : (t + 1 + 1074).toNat * 2 ^ 52 + 2 ^ 52 = (t + 1074).toNat * 2 ^ 52 + 2 ^ 53 := by
      omega
    rw [hfinal, dif_neg hne, pack_finite_toNat (Nat.pos_of_ne_zero hne) (by decide) (by omega)
      (.inl (Nat.le_refl _)), hbits]

/-- Rounding an exact product. The exponents of both factors are `-1074` at least, and a factor has
    a mantissa of less than 53 bits only together with that exponent. -/
theorem pack_roundWithAccuracy_toNat {m : Nat} {e : Int} (hm : m ≠ 0) (he : -2148 ≤ e)
    (hc : 52 ≤ m.log2 ∨ e ≤ -1074) :
    (UnpackedFloat.pack Format.binary64
      (roundWithAccuracy Format.binary64 .positive m e .exact)).toNat =
        min (roundedBits (m * 2 ^ (e + 2148).toNat)) infinityBits := by
  have hlog := log2_mul_two_pow hm (e + 2148).toNat
  generalize hw : m * 2 ^ (e + 2148).toNat = w at hlog
  generalize ht : Format.binary64.targetExponent (totalExponent m e) = t
  have hscale : t = scaleOf w - 1074 := by
    have hs : scaleOf w = m.log2 + (e + 2148).toNat - 1126 := by
      unfold scaleOf
      rw [hlog]
    rw [← ht]
    simp only [Format.targetExponent, totalExponent, Format.mantissaBits, Format.minExponent]
    omega
  have het : e ≤ t := by
    rw [← ht]
    simp only [Format.targetExponent, totalExponent, Format.mantissaBits, Format.minExponent]
    omega
  -- The shift divides by the power of two that lies between the two exponents.
  have hround : nearestEven m (2 ^ (t - e).toNat) = nearestEven w (2 ^ (scaleOf w + 1074)) := by
    have hexp : scaleOf w + 1074 = (t - e).toNat + (e + 2148).toNat := by omega
    rw [hexp, Nat.pow_add, ← hw, nearestEven_mul _ _ _ (Nat.two_pow_pos _)]
  have hshift : shiftToTargetExponent Format.binary64 m e .exact =
      (ExtendedMantissa.ofMantissaAndAccuracy m .exact >>> (t - e).toNat, t) := by
    simp only [shiftToTargetExponent, shiftToExponent, ht]
    congr 1
    omega
  have hn : 2 ^ 52 ≤ nearestEven w (2 ^ (scaleOf w + 1074)) ∨ t = -1074 := by
    by_cases h : 0 < scaleOf w
    · exact .inl (le_nearestEven_scale h)
    · exact .inr (by omega)
  have hpack := pack_rounded_toNat (nearestEven_scale_le w) (by omega) hn
  have hnat : (t + 1074).toNat = scaleOf w := by omega
  rw [roundWithAccuracy, hshift]
  dsimp only
  rw [roundedMantissa_shiftRight, hround]
  rw [hnat] at hpack
  exact hpack

/-! ## Products of positive numbers -/

/-- A number that is not negative, as a multiple of the least positive one. -/
def valueOf (n : Nat) : Nat := mantissaOf n * 2 ^ (exponentOf n + 1074).toNat

theorem valueOf_mono {n n' : Nat} (h : n ≤ n') : valueOf n ≤ valueOf n' := by
  rcases Nat.lt_or_eq_of_le h with hlt | heq
  · rcases parts_lt_of_lt hlt with he | ⟨he, hm⟩
    · -- A larger exponent makes up for a smaller mantissa.
      have hlow := exponentOf_ge n
      have hm : mantissaOf n ≤ 2 ^ 53 := by
        unfold mantissaOf
        split <;> omega
      have hm' : 2 ^ 52 ≤ mantissaOf n' := by
        unfold exponentOf at he
        unfold mantissaOf
        split_ifs at he ⊢ <;> omega
      calc valueOf n ≤ 2 ^ 53 * 2 ^ (exponentOf n + 1074).toNat := Nat.mul_le_mul_right _ hm
        _ = 2 ^ 52 * 2 ^ ((exponentOf n + 1074).toNat + 1) := by
          rw [Nat.pow_succ _ (exponentOf n + 1074).toNat]
          omega
        _ ≤ mantissaOf n' * 2 ^ (exponentOf n' + 1074).toNat := by
          refine Nat.mul_le_mul hm' (Nat.pow_le_pow_right (by decide) ?_)
          omega
    · unfold valueOf
      rw [he]
      exact Nat.mul_le_mul_right _ (Nat.le_of_lt hm)
  · rw [heq]

theorem mantissaOf_log2 (n : Nat) : (mantissaOf n).log2 = 52 ∨ exponentOf n = -1074 := by
  unfold exponentOf mantissaOf
  split
  · exact .inr rfl
  · exact .inl ((Nat.log2_eq_iff (by omega)).2 ⟨by omega, by omega⟩)

theorem bitsOf_mul (x y : Float) :
    bitsOf (x * y) = (UnpackedFloat.pack Format.binary64
      (UnpackedFloat.mul Format.binary64 (partsOf x) (partsOf y))).toNat := rfl

theorem pack_mul_toNat {m m' : Nat} {e e' : Int} (hm : 0 < m) (hm' : 0 < m') (he : -1074 ≤ e)
    (he' : -1074 ≤ e') (hlog : m.log2 = 52 ∨ e = -1074) (hlog' : m'.log2 = 52 ∨ e' = -1074) :
    (UnpackedFloat.pack Format.binary64 (UnpackedFloat.mul Format.binary64
      (.finite .positive m e hm) (.finite .positive m' e' hm'))).toNat =
        min (roundedBits (m * 2 ^ (e + 1074).toNat * (m' * 2 ^ (e' + 1074).toNat)))
          infinityBits := by
  -- If one factor is normal, so is the product's mantissa; else both exponents are the least.
  have hc : 52 ≤ (m * m').log2 ∨ e + e' ≤ -1074 := by
    have hle : m.log2 ≤ (m * m').log2 := log2_mono (Nat.le_mul_of_pos_right _ hm')
    have hle' : m'.log2 ≤ (m * m').log2 := log2_mono (Nat.le_mul_of_pos_left _ hm)
    omega
  have hround := pack_roundWithAccuracy_toNat (Nat.mul_ne_zero (by omega) (by omega))
    (show -2148 ≤ e + e' by omega) hc
  have hexp : (e + e' + 2148).toNat = (e + 1074).toNat + (e' + 1074).toNat := by omega
  have hvalue : m * m' * 2 ^ (e + e' + 2148).toNat =
      m * 2 ^ (e + 1074).toNat * (m' * 2 ^ (e' + 1074).toNat) := by
    rw [hexp, Nat.pow_add]
    ring
  rw [hvalue] at hround
  exact hround

theorem bitsOf_mul_finite {x y : Float} (hx : 0 < bitsOf x) (hx' : bitsOf x < infinityBits)
    (hy : 0 < bitsOf y) (hy' : bitsOf y < infinityBits) :
    bitsOf (x * y) = min (roundedBits (valueOf (bitsOf x) * valueOf (bitsOf y))) infinityBits := by
  rw [bitsOf_mul, partsOf_finite hx hx', partsOf_finite hy hy']
  exact pack_mul_toNat (mantissaOf_pos hx) (mantissaOf_pos hy) (exponentOf_ge _) (exponentOf_ge _)
    (mantissaOf_log2 _) (mantissaOf_log2 _)

theorem bitsOf_mul_infinity {x y : Float} (hx : 0 < x) (hy : 0 < y)
    (h : bitsOf x = infinityBits ∨ bitsOf y = infinityBits) : bitsOf (x * y) = infinityBits := by
  obtain ⟨hx0, hxi⟩ := (pos_iff_bits x).1 hx
  obtain ⟨hy0, hyi⟩ := (pos_iff_bits y).1 hy
  rw [bitsOf_mul]
  rcases Nat.lt_or_eq_of_le hxi with hxf | hxf
  · rw [partsOf_infinity (h.resolve_left (Nat.ne_of_lt hxf)), partsOf_finite hx0 hxf]
    exact packedInfinity_toNat
  · rw [partsOf_infinity hxf]
    rcases Nat.lt_or_eq_of_le hyi with hyf | hyf
    · rw [partsOf_finite hy0 hyf]
      exact packedInfinity_toNat
    · rw [partsOf_infinity hyf]
      exact packedInfinity_toNat

/-- The product of positive numbers is a number, and not a negative one. -/
theorem bitsOf_mul_le {x y : Float} (hx : 0 < x) (hy : 0 < y) :
    bitsOf (x * y) ≤ infinityBits := by
  obtain ⟨hx0, hxi⟩ := (pos_iff_bits x).1 hx
  obtain ⟨hy0, hyi⟩ := (pos_iff_bits y).1 hy
  by_cases h : bitsOf x = infinityBits ∨ bitsOf y = infinityBits
  · rw [bitsOf_mul_infinity hx hy h]
  · rw [bitsOf_mul_finite hx0 (by omega) hy0 (by omega)]
    exact Nat.min_le_right _ _

/-- The product of positive numbers is monotone in both factors. -/
theorem mul_le_mul {x x' y y' : Float} (hx : 0 < x) (hxx' : x ≤ x') (hy : 0 < y) (hyy' : y ≤ y') :
    x * y ≤ x' * y' := by
  have hx' := pos_of_pos_of_le hx hxx'
  have hy' := pos_of_pos_of_le hy hyy'
  rw [le_iff_bits (bitsOf_mul_le hx hy) (bitsOf_mul_le hx' hy')]
  rw [le_iff_of_pos hx hx'] at hxx'
  rw [le_iff_of_pos hy hy'] at hyy'
  by_cases h : bitsOf x' = infinityBits ∨ bitsOf y' = infinityBits
  · -- Nothing is above infinity.
    rw [bitsOf_mul_infinity hx' hy' h]
    exact bitsOf_mul_le hx hy
  · obtain ⟨hx0, hxi⟩ := (pos_iff_bits x').1 hx'
    obtain ⟨hy0, hyi⟩ := (pos_iff_bits y').1 hy'
    have hx0' := ((pos_iff_bits x).1 hx).1
    have hy0' := ((pos_iff_bits y).1 hy).1
    have hround := roundedBits_mono (Nat.mul_le_mul (valueOf_mono hxx') (valueOf_mono hyy'))
    rw [bitsOf_mul_finite hx0' (by omega) hy0' (by omega),
      bitsOf_mul_finite hx0 (by omega) hy0 (by omega)]
    omega

/-! ## Products without a sign -/

/-- Not a negative number; what is no number may be meant. -/
def Unsigned (x : Float) : Prop := bitsOf x < 2 ^ 63

/-- The bits of what is no number. -/
def notANumberBits : Nat := 0x7ff8000000000000

theorem Unsigned.of_pos {x : Float} (h : 0 < x) : Unsigned x := by
  have hle := ((pos_iff_bits x).1 h).2
  unfold infinityBits at hle
  unfold Unsigned
  omega

theorem Unsigned.zero_or_notANumber_or_pos {x : Float} (h : Unsigned x) :
    partsOf x = .zero .positive ∨ partsOf x = .notANumber ∨ 0 < x := by
  by_cases hnan : infinityBits < bitsOf x
  · exact .inr (.inl (decode_notANumber x.toModel.toBits.toBitVec hnan h))
  · by_cases hz : bitsOf x = 0
    · exact .inl (partsOf_zero hz)
    · exact .inr (.inr ((pos_iff_bits x).2 ⟨by omega, by omega⟩))

theorem partsOf_of_pos {x : Float} (h : 0 < x) :
    partsOf x = .infinity .positive ∨ ∃ m e hm, partsOf x = .finite .positive m e hm := by
  obtain ⟨h0, hi⟩ := (pos_iff_bits x).1 h
  rcases Nat.lt_or_eq_of_le hi with hf | hi
  · exact .inr ⟨_, _, _, partsOf_finite h0 hf⟩
  · exact .inl (partsOf_infinity hi)

theorem bitsOf_mul_of_not_pos {x y : Float} (hx : Unsigned x) (hy : Unsigned y)
    (h : ¬ (0 < x ∧ 0 < y)) : bitsOf (x * y) = 0 ∨ bitsOf (x * y) = notANumberBits := by
  have hzero : (UnpackedFloat.pack Format.binary64 (.zero .positive)).toNat = 0 := by
    decide +kernel
  have hnan : (UnpackedFloat.pack Format.binary64 .notANumber).toNat = notANumberBits := by
    decide +kernel
  rw [bitsOf_mul]
  -- A factor that is not positive is zero or no number; infinity times zero is no number either.
  rcases hx.zero_or_notANumber_or_pos with hux | hux | hux <;>
    rcases hy.zero_or_notANumber_or_pos with huy | huy | huy
  · rw [hux, huy]
    exact .inl hzero
  · rw [hux, huy]
    exact .inr hnan
  · rcases partsOf_of_pos huy with huy | ⟨m, e, hm, huy⟩ <;> rw [hux, huy]
    · exact .inr hnan
    · exact .inl hzero
  · rw [hux, huy]
    exact .inr hnan
  · rw [hux, huy]
    exact .inr hnan
  · rw [hux]
    exact .inr hnan
  · rcases partsOf_of_pos hux with hux | ⟨m, e, hm, hux⟩ <;> rw [hux, huy]
    · exact .inr hnan
    · exact .inl hzero
  · rcases partsOf_of_pos hux with hux | ⟨m, e, hm, hux⟩ <;> rw [hux, huy]
    · exact .inr hnan
    · exact .inr hnan
  · exact absurd ⟨hux, huy⟩ h

theorem Unsigned.mul {x y : Float} (hx : Unsigned x) (hy : Unsigned y) : Unsigned (x * y) := by
  unfold Unsigned
  by_cases h : 0 < x ∧ 0 < y
  · have hle := bitsOf_mul_le h.1 h.2
    unfold infinityBits at hle
    omega
  · have hbits := bitsOf_mul_of_not_pos hx hy h
    unfold notANumberBits at hbits
    omega

theorem pos_of_mul_pos {x y : Float} (hx : Unsigned x) (hy : Unsigned y) (h : 0 < x * y) :
    0 < x ∧ 0 < y := by
  by_contra hnot
  obtain ⟨h0, hi⟩ := (pos_iff_bits _).1 h
  have hbits := bitsOf_mul_of_not_pos hx hy hnot
  unfold infinityBits at hi
  unfold notANumberBits at hbits
  omega

/-- The factors of a positive product may be replaced by larger ones. -/
theorem mul_le_mul_of_pos {x x' y y' : Float} (hx : Unsigned x) (hy : Unsigned y)
    (h : 0 < x * y) (hxx' : 0 < x → x ≤ x') (hyy' : 0 < y → y ≤ y') : x * y ≤ x' * y' := by
  obtain ⟨hx0, hy0⟩ := pos_of_mul_pos hx hy h
  exact mul_le_mul hx0 (hxx' hx0) hy0 (hyy' hy0)

end Categorial.Probability
