/-
  Categorial.Proofs.GoldTree.Nodes

  Three views of the nodes of a gold tree that has been read: the list of its nodes, looking a span
  up, and the demands of the filter that the tree makes.  They agree (`views_agree_of_parse`), since
  no two nodes have one span (`Spanned.nodup_spans`).  The words of a node are as many as its span
  has places (`Spanned.length_words`), so that the spans of the tree are counted in its own words.
-/

import Categorial.Proofs.GoldTree.Agreement

namespace Categorial.GoldTree

variable {t : GoldTree}

/-- A node has one word for every place of its span. -/
theorem Spanned.length_words (h : t.Spanned) : t.span.last + 1 = t.span.start + t.words.length := by
  induction t with
  | leaf c s tag words headed? => exact h.2
  | branch c s l r ihl ihr =>
    obtain ⟨hl, hr, hstart, hnext, hlast⟩ := h
    have hleft := ihl hl
    have hright := ihr hr
    show s.last + 1 = s.start + (l.words ++ r.words).length
    rw [List.length_append]
    omega

theorem length_tags (t : GoldTree) : t.tags.length = t.words.length := by
  induction t with
  | leaf => exact List.length_map _
  | branch c s l r ihl ihr => rw [tags, words, List.length_append, List.length_append, ihl, ihr]

/-- No two nodes have one span: what lies on the left ends before the tree and before all that lies
    on the right, which begins after the tree does. -/
theorem Spanned.nodup_spans (h : t.Spanned) : (t.nodes.map span).Nodup := by
  induction t with
  | leaf => exact List.nodup_singleton _
  | branch c s l r ihl ihr =>
    obtain ⟨hl, hr, hstart, hnext, hlast⟩ := h
    have hleft := hl.start_le_last
    have hright := hr.start_le_last
    have hmap : (branch c s l r).nodes.map span = s :: (l.nodes.map span ++ r.nodes.map span) := by
      rw [nodes, List.map_cons, List.map_append]
      rfl
    rw [hmap, List.nodup_cons, List.nodup_append]
    refine ⟨?_, ihl hl, ihr hr, ?_⟩
    · intro hmem
      rcases List.mem_append.1 hmem with hmem | hmem
      · obtain ⟨n, hn, rfl⟩ := List.mem_map.1 hmem
        have hin := (hl.of_mem_nodes hn).2.2
        omega
      · obtain ⟨n, hn, rfl⟩ := List.mem_map.1 hmem
        have hin := (hr.of_mem_nodes hn).2.1
        omega
    · rintro a ha b hb rfl
      obtain ⟨n, hn, hna⟩ := List.mem_map.1 ha
      obtain ⟨m, hm, rfl⟩ := List.mem_map.1 hb
      obtain ⟨hnspanned, -, hnlast⟩ := hl.of_mem_nodes hn
      have hmstart := (hr.of_mem_nodes hm).2.1
      have hnle := hnspanned.start_le_last
      rw [hna] at hnlast hnle
      omega

theorem find?_eq_none_iff (h : t.Spanned) {target : Span} :
    t.find? target = none ↔ ∀ n ∈ t.nodes, n.span ≠ target := by
  rw [Option.eq_none_iff_forall_ne_some]
  refine forall_congr' fun n => ?_
  rw [ne_eq, find?_eq_some_iff h, not_and]

/-- A tree that has been read covers its words from the first to the last one, a leaf covers one
    place for each of its words, and a branch covers its two children, which stand side by side. It
    has a tag for every word. Its nodes have different spans; looking any span up finds the node
    that has it, and nothing if there is none; and the filter that the tree makes has a demand just
    at the spans that are found, for the category that is found there. -/
theorem views_agree_of_parse (text : String) (t : GoldTree) (ht : parse text = .ok t) :
    t.words ≠ [] ∧ t.span = ⟨0, t.words.length - 1⟩ ∧
    (∀ c s tag words headed?, leaf c s tag words headed? ∈ t.nodes →
      words ≠ [] ∧ s.last + 1 - s.start = words.length) ∧
    (∀ c s l r, branch c s l r ∈ t.nodes →
      s = ⟨l.span.start, r.span.last⟩ ∧ r.span.start = l.span.last + 1) ∧
    t.tags.length = t.words.length ∧
    (t.nodes.map span).Nodup ∧
    ∀ target : Span,
      (∀ n, t.find? target = some n ↔ n ∈ t.nodes ∧ n.span = target) ∧
      (t.find? target = none ↔ ∀ n ∈ t.nodes, n.span ≠ target) ∧
      ((Filter.demands t).lookup target).map Filter.Demand.category =
        (t.find? target).map category ∧
      ∀ e, Filter.gold t e target = true ↔
        ∃ n, t.find? target = some n ∧ (Filter.demandOf n).metBy e = true := by
  obtain ⟨hspanned, hstart⟩ := spanned_of_parse ht
  have hlength := hspanned.length_words
  have hle := hspanned.start_le_last
  have hpos : 0 < t.words.length := by omega
  have hlast : t.words.length - 1 = t.span.last := by omega
  have hspan : t.span = ⟨0, t.words.length - 1⟩ := by rw [← hstart, hlast]
  refine ⟨List.length_pos_iff.1 hpos, hspan, fun c s tag words headed? hmem => ?_,
    fun c s l r hmem => ?_, length_tags t, hspanned.nodup_spans, fun target =>
      ⟨fun n => find?_eq_some_iff hspanned, find?_eq_none_iff hspanned, ?_,
        fun e => Filter.gold_eq_true_iff hspanned⟩⟩
  · obtain ⟨hwords, hlast⟩ := (hspanned.of_mem_nodes hmem).1
    exact ⟨hwords, by omega⟩
  · obtain ⟨-, -, hfirst, hnext, hlast⟩ := (hspanned.of_mem_nodes hmem).1
    exact ⟨by rw [← hfirst, ← hlast], hnext⟩
  · rw [Filter.lookup_demands hspanned, Option.map_map]
    exact congrArg (Option.map · _) (funext Filter.category_demandOf)

/-- A name of two words under a unary rule, and a verb. -/
def sampleName : GoldTree :=
  .branch ⟨.atom "S" .unspecified (), none⟩ ⟨0, 2⟩
    (.leaf ⟨.atom "NP" .unspecified (), some (.atom "N" .unspecified ())⟩ ⟨0, 1⟩ "NNP"
      ["New", "York"] none)
    (.leaf ⟨.func .backward (.atom "S" .unspecified ()) (.atom "NP" .unspecified ()) (), none⟩
      ⟨2, 2⟩ "VB" ["sleeps"] none)

theorem views_agree_of_parse_sample :
    parse "<S <NP_N NNP New York> <(S\\NP) VB sleeps>>" = .ok sampleName ∧
      sampleName.span = ⟨0, sampleName.words.length - 1⟩ ∧
      (sampleName.nodes.map span).Nodup ∧
      (sampleName.find? ⟨2, 1⟩ = none ↔ ∀ n ∈ sampleName.nodes, n.span ≠ ⟨2, 1⟩) ∧
      ((Filter.demands sampleName).lookup ⟨0, 1⟩).map Filter.Demand.category =
        (sampleName.find? ⟨0, 1⟩).map category := by
  have hread : parse "<S <NP_N NNP New York> <(S\\NP) VB sleeps>>" = .ok sampleName := by
    decide +kernel
  obtain ⟨-, hspan, -, -, -, hnodup, hviews⟩ := views_agree_of_parse _ _ hread
  exact ⟨hread, hspan, hnodup, (hviews ⟨2, 1⟩).2.1, (hviews ⟨0, 1⟩).2.2.1⟩

end Categorial.GoldTree
