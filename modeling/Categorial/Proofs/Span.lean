/-
  Categorial.Proofs.Span

  The spans within a sentence and their places in a triangular table.  Different spans have
  different places (`index_inj`), all of them in the table (`index_lt_count`).  The list of the
  spans within a sentence holds each of them once, shorter ones first.
-/

import Categorial.Span
import Mathlib.Data.List.Nodup

namespace Categorial.Span

/-! ## The triangular table -/

theorem count_succ (n : Nat) : count (n + 1) = count n + (n + 1) := by
  have h : (n + 1) * (n + 1 + 1) = n * (n + 1) + (n + 1) * 2 := by
    rw [Nat.mul_add (n + 1) (n + 1) 1, Nat.add_mul n 1 (n + 1)]
    omega
  unfold count
  rw [h, Nat.add_mul_div_right _ _ (by decide)]

theorem count_mono {m n : Nat} (h : m ≤ n) : count m ≤ count n := by
  induction h with
  | refl => exact Nat.le_refl _
  | step h ih =>
    rw [Nat.succ_eq_add_one, count_succ]
    exact Nat.le_trans ih (Nat.le_add_right _ _)

/-- The spans that end at one word come after all spans that end before it. -/
theorem index_eq (s : Span) : s.index = count s.last + s.start := rfl

theorem index_lt_count_succ {s : Span} (h : s.start ≤ s.last) : s.index < count (s.last + 1) := by
  rw [index_eq, count_succ]
  omega

theorem index_lt_count {n : Nat} {s : Span} (h : s.Within n) : s.index < count n :=
  Nat.lt_of_lt_of_le (index_lt_count_succ h.1) (count_mono h.2)

theorem index_lt_of_last_lt {s t : Span} (hs : s.start ≤ s.last) (h : s.last < t.last) :
    s.index < t.index := by
  have hlt := index_lt_count_succ hs
  have hle : count (s.last + 1) ≤ count t.last := count_mono h
  rw [index_eq t]
  omega

theorem index_inj {s t : Span} (hs : s.start ≤ s.last) (ht : t.start ≤ t.last)
    (h : s.index = t.index) : s = t := by
  -- Rows do not overlap, so one place means one row.
  have hlast : s.last = t.last := by
    rcases Nat.lt_trichotomy s.last t.last with hlt | heq | hlt
    · exact absurd h (Nat.ne_of_lt (index_lt_of_last_lt hs hlt))
    · exact heq
    · exact absurd h (Nat.ne_of_gt (index_lt_of_last_lt ht hlt))
  have hstart : s.start = t.start := by
    rw [index_eq, index_eq, hlast] at h
    exact Nat.add_left_cancel h
  cases s
  cases t
  simp_all

/-- Every place in the table belongs to a span. -/
theorem exists_index_eq {n i : Nat} (h : i < count n) : ∃ s : Span, s.Within n ∧ s.index = i := by
  induction n with
  | zero => exact absurd h (Nat.not_lt_zero i)
  | succ n ih =>
    rw [count_succ] at h
    by_cases hrow : i < count n
    · obtain ⟨s, hs, hindex⟩ := ih hrow
      exact ⟨s, ⟨hs.1, Nat.lt_succ_of_lt hs.2⟩, hindex⟩
    · -- The last row starts after all the others.
      refine ⟨⟨i - count n, n⟩, ⟨?_, Nat.lt_succ_self n⟩, ?_⟩
      · show i - count n ≤ n
        omega
      · rw [index_eq]
        show count n + (i - count n) = i
        omega

/-! ## The spans of a sentence -/

/-- The number of words of a span, less one. -/
def extent (s : Span) : Nat := s.last - s.start

theorem mem_ofLength {n length : Nat} {s : Span} :
    s ∈ ofLength n length ↔ s.Within n ∧ s.extent = length := by
  simp only [ofLength, List.mem_map, List.mem_range, Within, extent]
  constructor
  · rintro ⟨start, h, rfl⟩
    dsimp only
    omega
  · rintro ⟨⟨hle, hlt⟩, rfl⟩
    refine ⟨s.start, by omega, ?_⟩
    cases s
    dsimp only at hle ⊢
    rw [Nat.add_sub_cancel' hle]

theorem mem_within {n : Nat} {s : Span} : s ∈ within n ↔ s.Within n := by
  simp only [within, List.mem_flatMap, List.mem_range, mem_ofLength]
  constructor
  · rintro ⟨length, -, h, -⟩
    exact h
  · intro h
    refine ⟨s.extent, ?_, h, rfl⟩
    have hlt := h.2
    unfold extent
    omega

theorem within_nodup (n : Nat) : (within n).Nodup := by
  refine List.nodup_flatMap.2 ⟨fun length _ => ?_, ?_⟩
  · refine List.Nodup.map ?_ List.nodup_range
    intro i j h
    exact congrArg start h
  · refine List.nodup_range.imp fun {i j} hne => ?_
    intro s hs hs'
    exact hne ((mem_ofLength.1 hs).2.symm.trans (mem_ofLength.1 hs').2)

/-- Shorter spans come first. -/
theorem within_sorted (n : Nat) : (within n).Pairwise fun s t => s.extent ≤ t.extent := by
  refine List.pairwise_flatMap.2 ⟨fun length _ => ?_, ?_⟩
  · refine List.pairwise_of_forall_mem_list fun s hs t ht => ?_
    exact Nat.le_of_eq ((mem_ofLength.1 hs).2.trans (mem_ofLength.1 ht).2.symm)
  · refine List.pairwise_lt_range.imp fun {i j} hlt s hs t ht => ?_
    rw [(mem_ofLength.1 hs).2, (mem_ofLength.1 ht).2]
    exact Nat.le_of_lt hlt

theorem mem_splits {s l r : Span} :
    (l, r) ∈ s.splits ↔ ∃ m, s.start ≤ m ∧ m < s.last ∧ l = ⟨s.start, m⟩ ∧ r = ⟨m + 1, s.last⟩ := by
  simp only [splits, List.mem_map, List.mem_range'_1, Prod.mk.injEq]
  constructor
  · rintro ⟨m, ⟨hle, hlt⟩, rfl, rfl⟩
    exact ⟨m, hle, by omega, rfl, rfl⟩
  · rintro ⟨m, hle, hlt, rfl, rfl⟩
    exact ⟨m, ⟨hle, by omega⟩, rfl, rfl⟩

/-- The parts of a span are shorter than it. -/
theorem extent_lt_of_mem_splits {s l r : Span} (h : (l, r) ∈ s.splits) :
    l.extent < s.extent ∧ r.extent < s.extent := by
  obtain ⟨m, hle, hlt, rfl, rfl⟩ := mem_splits.1 h
  dsimp only [extent]
  constructor <;> omega

end Categorial.Span
