/-
  Categorial.Proofs.GoldTree.Spans

  The spans of gold trees.  In a tree that has been read, a leaf covers its words, and a branch
  covers its children, which stand side by side (`Spanned`).  So nodes lie one inside the other or
  apart, no two of them have the same span, and looking a span up finds the node that has it
  (`find?_eq_some_iff`).  A span that is cut into the spans of two nodes is cut as the tree cuts it
  (`last_eq_of_split`).
-/

import Categorial.Proofs.GoldTree.Reading
import Mathlib.Data.Option.Basic

namespace Categorial

namespace GoldTree

/-! ## Spans -/

/-- A leaf covers its words, and a branch covers its children, which stand side by side. -/
def Spanned : GoldTree → Prop
  | .leaf _ s _ words _ => words ≠ [] ∧ s.last + 1 = s.start + words.length
  | .branch _ s l r =>
    l.Spanned ∧ r.Spanned ∧ s.start = l.span.start ∧ r.span.start = l.span.last + 1 ∧
      s.last = r.span.last

theorem Spanned.start_le_last {t : GoldTree} (h : t.Spanned) : t.span.start ≤ t.span.last := by
  induction t with
  | leaf c s tag words headed? =>
    obtain ⟨hwords, hlast⟩ := h
    have hpos := List.length_pos_iff.2 hwords
    show s.start ≤ s.last
    omega
  | branch c s l r ihl ihr =>
    obtain ⟨hl, hr, hstart, hnext, hlast⟩ := h
    have hl := ihl hl
    have hr := ihr hr
    show s.start ≤ s.last
    omega

theorem mem_nodes_self (t : GoldTree) : t ∈ t.nodes := by
  cases t <;> exact List.mem_cons_self

theorem mem_nodes_branch {c : GoldCategory} {s : Span} {l r n : GoldTree} :
    n ∈ (branch c s l r).nodes ↔ n = branch c s l r ∨ n ∈ l.nodes ∨ n ∈ r.nodes := by
  rw [nodes, List.mem_cons, List.mem_append]

theorem mem_nodes_trans {t n m : GoldTree} (hn : n ∈ t.nodes) (hm : m ∈ n.nodes) : m ∈ t.nodes := by
  induction t with
  | leaf c s tag words headed? =>
    rw [nodes, List.mem_singleton] at hn
    rwa [hn] at hm
  | branch c s l r ihl ihr =>
    rcases mem_nodes_branch.1 hn with rfl | hn | hn
    · exact hm
    · exact mem_nodes_branch.2 (.inr (.inl (ihl hn)))
    · exact mem_nodes_branch.2 (.inr (.inr (ihr hn)))

/-- A node lies inside the tree. -/
theorem Spanned.of_mem_nodes {t n : GoldTree} (h : t.Spanned) (hn : n ∈ t.nodes) :
    n.Spanned ∧ t.span.start ≤ n.span.start ∧ n.span.last ≤ t.span.last := by
  induction t with
  | leaf c s tag words headed? =>
    rw [nodes, List.mem_singleton] at hn
    subst hn
    exact ⟨h, Nat.le_refl _, Nat.le_refl _⟩
  | branch c s l r ihl ihr =>
    rcases mem_nodes_branch.1 hn with rfl | hn | hn
    · exact ⟨h, Nat.le_refl _, Nat.le_refl _⟩
    · obtain ⟨hl, hr, hstart, hnext, hlast⟩ := h
      obtain ⟨hn, hle, hge⟩ := ihl hl hn
      have hright := hr.start_le_last
      refine ⟨hn, ?_, ?_⟩
      · show s.start ≤ n.span.start
        omega
      · show n.span.last ≤ s.last
        omega
    · obtain ⟨hl, hr, hstart, hnext, hlast⟩ := h
      obtain ⟨hn, hle, hge⟩ := ihr hr hn
      have hleft := hl.start_le_last
      refine ⟨hn, ?_, ?_⟩
      · show s.start ≤ n.span.start
        omega
      · show n.span.last ≤ s.last
        omega

/-- No two nodes of a tree cross. -/
theorem Spanned.not_crossing {t a b : GoldTree} (h : t.Spanned) (ha : a ∈ t.nodes)
    (hb : b ∈ t.nodes) :
    ¬ (a.span.start < b.span.start ∧ b.span.start ≤ a.span.last ∧ a.span.last < b.span.last) := by
  rintro ⟨hstart, hmeet, hlast⟩
  induction t with
  | leaf c s tag words headed? =>
    rw [List.mem_singleton.1 ha, List.mem_singleton.1 hb] at hstart
    exact Nat.lt_irrefl _ hstart
  | branch c s l r ihl ihr =>
    have hain := h.of_mem_nodes ha
    have hbin := h.of_mem_nodes hb
    obtain ⟨hl, hr, -, hnext, -⟩ := h
    rcases mem_nodes_branch.1 ha with rfl | ha | ha
    · omega
    · rcases mem_nodes_branch.1 hb with rfl | hb | hb
      · omega
      · exact ihl hl ha hb
      · have hal := (hl.of_mem_nodes ha).2.2
        have hbr := (hr.of_mem_nodes hb).2.1
        omega
    · rcases mem_nodes_branch.1 hb with rfl | hb | hb
      · omega
      · have har := (hr.of_mem_nodes ha).2.1
        have hbl := (hl.of_mem_nodes hb).2.2
        omega
      · exact ihr hr ha hb

/-- A node of a tree with the span of the tree is the tree. -/
theorem Spanned.eq_of_span_eq {t n : GoldTree} (h : t.Spanned) (hn : n ∈ t.nodes)
    (hspan : n.span = t.span) : n = t := by
  cases t with
  | leaf c s tag words headed? => exact List.mem_singleton.1 hn
  | branch c s l r =>
    obtain ⟨hl, hr, hstart, hnext, hlast⟩ := h
    have hleft := hl.start_le_last
    have hright := hr.start_le_last
    have hspan : n.span = s := hspan
    rcases mem_nodes_branch.1 hn with hn | hn | hn
    · exact hn
    · -- A node on the left ends before the tree does.
      have hle := (hl.of_mem_nodes hn).2.2
      rw [hspan] at hle
      omega
    · have hge := (hr.of_mem_nodes hn).2.1
      rw [hspan] at hge
      omega

/-! ## Looking spans up -/

theorem mem_nodes_of_find? {t g : GoldTree} {target : Span} (h : t.find? target = some g) :
    g ∈ t.nodes ∧ g.span = target := by
  induction t with
  | leaf c s tag words headed? =>
    rw [find?] at h
    split at h
    · rename_i hspan
      cases h
      exact ⟨mem_nodes_self _, hspan⟩
    · split at h <;> cases h
  | branch c s l r ihl ihr =>
    rw [find?] at h
    split at h
    · rename_i hspan
      cases h
      exact ⟨mem_nodes_self _, hspan⟩
    · split at h
      · cases h
      · rcases Option.orElse_eq_some .. |>.1 h with h | ⟨-, h⟩
        · exact ⟨mem_nodes_branch.2 (.inr (.inl (ihl h).1)), (ihl h).2⟩
        · exact ⟨mem_nodes_branch.2 (.inr (.inr (ihr h).1)), (ihr h).2⟩

/-- A node does not stick out of the tree, so looking its span up does not pass it over. -/
theorem find?_of_mem_nodes {t g : GoldTree} (h : t.Spanned) (hg : g ∈ t.nodes) :
    t.find? g.span = some g := by
  induction t with
  | leaf c s tag words headed? => rw [List.mem_singleton.1 hg, find?, if_pos rfl]
  | branch c s l r ihl ihr =>
    by_cases hspan : (branch c s l r).span = g.span
    · rw [h.eq_of_span_eq hg hspan.symm, find?, if_pos rfl]
    · obtain ⟨hgspanned, hstart, hlast⟩ := h.of_mem_nodes hg
      have hin : ¬ (g.span.start < (branch c s l r).span.start ∨
          (branch c s l r).span.last < g.span.last) := by omega
      obtain ⟨hl, hr, -, hnext, -⟩ := h
      rw [find?, if_neg hspan, if_neg hin, Option.orElse_eq_some]
      rcases mem_nodes_branch.1 hg with rfl | hg | hg
      · exact absurd rfl hspan
      · exact .inl (ihl hl hg)
      · -- The left child has no node so far to the right.
        refine .inr ⟨Option.eq_none_iff_forall_ne_some.2 fun n hn => ?_, ihr hr hg⟩
        obtain ⟨hn, hnspan⟩ := mem_nodes_of_find? hn
        have hright := (hr.of_mem_nodes hg).2.1
        have hleft := (hl.of_mem_nodes hn).2.2
        have hle := hgspanned.start_le_last
        rw [hnspan] at hleft
        omega

theorem find?_eq_some_iff {t g : GoldTree} (h : t.Spanned) {target : Span} :
    t.find? target = some g ↔ g ∈ t.nodes ∧ g.span = target := by
  refine ⟨mem_nodes_of_find?, ?_⟩
  rintro ⟨hg, rfl⟩
  exact find?_of_mem_nodes h hg

section Children

variable {t l r : GoldTree} {c : GoldCategory} {s : Span}

/-- The children of a node that is found are found at the two parts of its span. -/
theorem find?_children (h : t.Spanned) (hfind : t.find? s = some (.branch c s l r)) :
    t.find? ⟨s.start, l.span.last⟩ = some l ∧ t.find? ⟨l.span.last + 1, s.last⟩ = some r := by
  have hmem := (mem_nodes_of_find? hfind).1
  obtain ⟨hl, hr, hstart, hnext, hlast⟩ := (h.of_mem_nodes hmem).1
  have hlmem : l ∈ t.nodes :=
    mem_nodes_trans hmem (mem_nodes_branch.2 (.inr (.inl (mem_nodes_self l))))
  have hrmem : r ∈ t.nodes :=
    mem_nodes_trans hmem (mem_nodes_branch.2 (.inr (.inr (mem_nodes_self r))))
  rw [hstart, ← hnext, hlast]
  exact ⟨find?_of_mem_nodes h hlmem, find?_of_mem_nodes h hrmem⟩

/-- If a span is cut into the spans of two nodes, it is cut as its own node is: otherwise one of the
    two would cross a child of that node. -/
theorem last_eq_of_split (h : t.Spanned) (hfind : t.find? s = some (.branch c s l r)) {m : Nat}
    {a b : GoldTree} (ha : t.find? ⟨s.start, m⟩ = some a) (hb : t.find? ⟨m + 1, s.last⟩ = some b) :
    m = l.span.last := by
  obtain ⟨hlfind, hrfind⟩ := find?_children h hfind
  obtain ⟨hl, hlspan⟩ := mem_nodes_of_find? hlfind
  obtain ⟨hr, hrspan⟩ := mem_nodes_of_find? hrfind
  obtain ⟨ha, haspan⟩ := mem_nodes_of_find? ha
  obtain ⟨hb, hbspan⟩ := mem_nodes_of_find? hb
  have hlle := (h.of_mem_nodes hl).1.start_le_last
  have hrle := (h.of_mem_nodes hr).1.start_le_last
  have hale := (h.of_mem_nodes ha).1.start_le_last
  have hble := (h.of_mem_nodes hb).1.start_le_last
  have hlb := h.not_crossing hl hb
  have har := h.not_crossing ha hr
  generalize l.span.last = k at *
  simp only [hlspan, hrspan, haspan, hbspan] at hlle hrle hale hble hlb har
  omega

end Children

/-! ## Trees that have been read -/

theorem spanned_of_readNode {fuel start : Nat} {cs rest : List Char} {t : GoldTree}
    (h : readNode fuel start cs = .ok (t, rest)) : t.Spanned ∧ t.span.start = start := by
  induction fuel generalizing start cs rest t with
  | zero => cases h
  | succ fuel ih =>
    obtain ⟨-, g, headed?, -, -, hnode⟩ := readNode_cases h
    rcases hnode with ⟨tag, words, rfl, hne, -, -⟩ | ⟨l, r, _, _, _, _, hleft, hright, rfl⟩
    · have hpos := List.length_pos_iff.2 hne
      refine ⟨⟨hne, ?_⟩, rfl⟩
      dsimp only
      omega
    · obtain ⟨hl, hlstart⟩ := ih hleft
      obtain ⟨hr, hrstart⟩ := ih hright
      exact ⟨⟨hl, hr, hlstart.symm, hrstart, rfl⟩, rfl⟩

/-- The words of a tree that has been read are counted from zero without a gap. -/
theorem spanned_of_parse {text : String} {t : GoldTree} (h : parse text = .ok t) :
    t.Spanned ∧ t.span.start = 0 := by
  obtain ⟨rest, hnode⟩ := readNode_of_parse h
  exact spanned_of_readNode hnode

end GoldTree

end Categorial
