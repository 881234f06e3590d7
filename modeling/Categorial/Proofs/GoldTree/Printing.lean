/-
  Categorial.Proofs.GoldTree.Printing

  Printed gold trees.  A label is cut at the first low line, and it ends at a blank or an angle
  bracket.  Names of atoms have none of these characters, but names of features may.  What the
  reader gives as a category after a unary rule has none of them in its names, and what it gives as
  a category before one has no angle brackets (`printable_of_readLabel`).  So a tree that has been
  read is printed as a text that is read as the tree again, but for the heads of its leaves, which
  are not printed (`readNode_render`).

  Another category as a label is cut inside one of its brackets and cannot be read
  (`letters_of_readLabel`).
-/

import Categorial.Proofs.Category.Characters
import Categorial.Proofs.GoldTree.Agreement

namespace Categorial

open Text Written

/-! ## Labels -/

/-- A label is read back from what it is printed as: the grammar has texts for its categories, and
    their names have none of the characters that would cut the label. -/
structure GoldCategory.Printable (g : GoldCategory) : Prop where
  legible : g.category.Legible
  letters : ∀ c ∈ g.category.letters, c ∉ ['_', '<', '>']
  legibleBefore : ∀ p ∈ g.beforeUnary?, p.Legible
  lettersBefore : ∀ p ∈ g.beforeUnary?, ∀ c ∈ p.letters, c ∉ ['<', '>']

namespace GoldTree

theorem isTokenChar_iff {c : Char} :
    isTokenChar c = true ↔ isBlank c = false ∧ c ∉ ['<', '>'] := by
  simp [isTokenChar, and_assoc]

theorem isTokenChar_of_isMark {c : Char} (h : isMark c = true) : isTokenChar c = true := by
  refine isTokenChar_iff.2 ⟨not_isBlank_of_isMark h, fun hmem => ?_⟩
  simp only [List.mem_cons, List.not_mem_nil, or_false] at hmem
  rcases hmem with rfl | rfl
  · exact absurd h (by decide)
  · exact absurd h (by decide)

theorem isTokenChar_of_mem_render {p : Plain} (hp : p.Legible)
    (hletters : ∀ c ∈ p.letters, c ∉ ['<', '>']) {c : Char} (hc : c ∈ p.render.toList) :
    isTokenChar c = true := by
  rcases p.mem_render hc with hmark | hletter
  · exact isTokenChar_of_isMark hmark
  · exact isTokenChar_iff.2 ⟨hp.not_isBlank hletter, hletters c hletter⟩

theorem readCategory_render {p : Plain} (hp : p.Legible) :
    readCategory p.render.toList = .ok (p.map fun _ => none) := by
  have hderives := derives_plain_render hp
  unfold readCategory
  dsimp only
  rw [hderives.trimmed.trim_eq, readAll_iff.2 (.single hderives)]

theorem headedForm_map_none (p : Plain) : headedForm (p.map fun _ => none) = .ok none := by
  have hheads : hasHeads (p.map fun _ => none) = false := by
    simp [hasHeads, Category.labels_map]
  rw [headedForm, hheads]
  rfl

theorem plain_map_none (p : Plain) : (p.map fun _ => (none : Option Var)).plain = p :=
  (Category.map_map _ _ p).trans p.map_id

theorem ne_lowLine_of_mem_render {g : GoldCategory} (hg : g.Printable) {c : Char}
    (hc : c ∈ g.category.render.toList) : (c != '_') = true := by
  rw [bne_iff_ne]
  rintro rfl
  rcases g.category.mem_render hc with hmark | hletter
  · exact absurd hmark (by decide)
  · exact hg.letters _ hletter (by decide)

/-- Without heads in print there is no headed form. -/
theorem readLabel_render {g : GoldCategory} (hg : g.Printable) :
    readLabel g.render.toList = .ok (g, none) := by
  have hafter : ∀ c ∈ g.category.render.toList, (c != '_') = true :=
    fun c hc => ne_lowLine_of_mem_render hg hc
  have hread := readCategory_render hg.legible
  have hbefore := hg.legibleBefore
  obtain ⟨category, before?⟩ := g
  unfold readLabel
  cases before? with
  | none =>
    have htext : (GoldCategory.mk category none).render.toList = category.render.toList ++ [] := by
      simp [GoldCategory.render]
    have hstops : Stops (· != '_') [] := nofun
    rw [htext, takeWhile_run hafter hstops, dropWhile_run hafter hstops]
    refine bind_eq_ok_iff.2 ⟨_, hread, bind_eq_ok_iff.2 ⟨_, headedForm_map_none category, ?_⟩⟩
    exact congrArg (fun p => Except.ok (GoldCategory.mk p none, none)) (plain_map_none category)
  | some before =>
    have htext : (GoldCategory.mk category (some before)).render.toList =
        category.render.toList ++ '_' :: before.render.toList := by
      simp [GoldCategory.render]
    have hstops : Stops (· != '_') ('_' :: before.render.toList) := stops_cons.2 (by decide)
    rw [htext, takeWhile_run hafter hstops, dropWhile_run hafter hstops]
    refine bind_eq_ok_iff.2 ⟨_, hread, ?_⟩
    refine bind_eq_ok_iff.2 ⟨_, readCategory_render (hbefore before rfl), ?_⟩
    refine bind_eq_ok_iff.2 ⟨_, headedForm_map_none before, ?_⟩
    exact congrArg₂ (fun p q => Except.ok (GoldCategory.mk p (some q), none))
      (plain_map_none category) (plain_map_none before)

theorem isToken_render {g : GoldCategory} (hg : g.Printable) : IsToken g.render := by
  have hletters : ∀ c ∈ g.category.letters, c ∉ ['<', '>'] := fun c hc hmem =>
    hg.letters c hc (List.mem_cons_of_mem _ hmem)
  have hpos := (derives_plain_render hg.legible).length_pos
  rw [IsToken, GoldCategory.render, String.toList_append]
  refine ⟨List.append_ne_nil_of_left_ne_nil (List.length_pos_iff.1 hpos) _, fun c hc => ?_⟩
  rcases List.mem_append.1 hc with hc | hc
  · exact isTokenChar_of_mem_render hg.legible hletters hc
  · cases hbefore : g.beforeUnary? with
    | none => simp [hbefore] at hc
    | some before =>
      simp only [hbefore, String.toList_append, List.mem_append] at hc
      rcases hc with hc | hc
      · rw [List.mem_singleton.1 hc]
        decide
      · exact isTokenChar_of_mem_render (hg.legibleBefore before hbefore)
          (hg.lettersBefore before hbefore) hc

/-! ## Words -/

theorem IsToken.isWord {s : String} (h : IsToken s) : IsWord s.toList :=
  ⟨h.1, fun c hc => (isTokenChar_iff.1 (h.2 c hc)).1⟩

theorem skipBlanks_blank {cs : List Char} (h : Stops isBlank cs) : skipBlanks (' ' :: cs) = cs := by
  rw [skipBlanks, List.dropWhile_cons_of_pos (by decide), dropWhile_of_stops h]

/-- The words of a leaf in print, each after a blank. -/
def spaced (words : List String) : List Char := words.flatMap fun w => ' ' :: w.toList

theorem length_le_spaced (words : List String) : words.length ≤ (spaced words).length := by
  induction words with
  | nil => exact Nat.le_refl _
  | cons w words ih =>
    show words.length + 1 ≤ (' ' :: w.toList ++ spaced words).length
    rw [List.length_append, List.length_cons]
    omega

theorem stops_spaced (words : List String) (rest : List Char) :
    Stops isTokenChar (spaced words ++ '>' :: rest) := by
  cases words with
  | nil => exact stops_cons.2 (by decide)
  | cons w words => exact stops_cons.2 (by decide)

theorem readWords_spaced {label rest : List Char} {words : List String} {fuel : Nat}
    (hwords : ∀ w ∈ words, IsToken w) (hfuel : words.length < fuel) :
    readWords label fuel (spaced words ++ '>' :: rest) = .ok (words, rest) := by
  induction words generalizing fuel with
  | nil =>
    obtain ⟨fuel, rfl⟩ := Nat.exists_eq_succ_of_ne_zero (Nat.ne_zero_of_lt hfuel)
    have hskip : skipBlanks (spaced [] ++ '>' :: rest) = '>' :: rest :=
      dropWhile_of_stops (stops_cons.2 (by decide))
    unfold readWords
    rw [hskip]
    rfl
  | cons w words ih =>
    obtain ⟨hw, hwords⟩ := List.forall_mem_cons.1 hwords
    rw [List.length_cons] at hfuel
    obtain ⟨fuel, rfl⟩ := Nat.exists_eq_succ_of_ne_zero (Nat.ne_zero_of_lt hfuel)
    have hskip : skipBlanks (spaced (w :: words) ++ '>' :: rest) =
        w.toList ++ (spaced words ++ '>' :: rest) := by
      have htext : spaced (w :: words) ++ '>' :: rest =
          ' ' :: (w.toList ++ (spaced words ++ '>' :: rest)) := by
        simp [spaced]
      rw [htext, skipBlanks_blank (hw.isWord.stops _)]
    obtain ⟨hne, htoken⟩ := hw
    obtain ⟨c, cs, hcs⟩ := List.exists_cons_of_ne_nil hne
    unfold readWords
    rw [hskip]
    split
    · -- A word does not begin with the end of the leaf.
      rename_i heq
      rw [hcs] at heq
      cases heq
      exact absurd (htoken '>' (hcs ▸ List.mem_cons_self)) (by decide)
    · rw [takeWhile_run htoken (stops_spaced words rest),
        dropWhile_run htoken (stops_spaced words rest), hcs]
      dsimp only
      rw [ih hwords (by omega), ← hcs, String.ofList_toList]
      rfl

/-! ## Nodes -/

/-- Every label of a tree can be printed, and its tags and words are tokens. -/
def Printable : GoldTree → Prop
  | .leaf c _ tag words _ => c.Printable ∧ IsToken tag ∧ ∀ w ∈ words, IsToken w
  | .branch c _ l r => c.Printable ∧ l.Printable ∧ r.Printable

/-- The tree without the exact categories of its leaves, which are not printed. -/
def withoutHeads : GoldTree → GoldTree
  | .leaf c s tag words _ => .leaf c s tag words none
  | .branch c s l r => .branch c s l.withoutHeads r.withoutHeads

@[simp] theorem span_withoutHeads (t : GoldTree) : t.withoutHeads.span = t.span := by
  cases t <;> rfl

theorem toList_render_leaf (c : GoldCategory) (s : Span) (tag : String) (words : List String)
    (headed? : Option Headed) (rest : List Char) :
    (render (.leaf c s tag words headed?)).toList ++ rest =
      '<' :: (c.render.toList ++ ' ' :: (tag.toList ++ (spaced words ++ '>' :: rest))) := by
  simp [render, spaced, String.toList_join, List.flatMap_map]

theorem toList_render_branch (c : GoldCategory) (s : Span) (l r : GoldTree) (rest : List Char) :
    (render (.branch c s l r)).toList ++ rest =
      '<' :: (c.render.toList ++
        ' ' :: (l.render.toList ++ ' ' :: (r.render.toList ++ '>' :: rest))) := by
  simp [render]

theorem exists_toList_render (t : GoldTree) : ∃ cs, t.render.toList = '<' :: (cs ++ ['>']) := by
  cases t with
  | leaf c s tag words headed? =>
    exact ⟨c.render.toList ++ ' ' :: (tag.toList ++ spaced words), by
      simp [render, spaced, String.toList_join, List.flatMap_map]⟩
  | branch c s l r =>
    exact ⟨c.render.toList ++ ' ' :: (l.render.toList ++ ' ' :: r.render.toList), by
      simp [render]⟩

/-- A label in print is read whole, since a blank follows it. -/
theorem readNode_of_isToken {fuel start : Nat} {label : String} {g : GoldCategory}
    {headed? : Option Headed} (hlabel : IsToken label)
    (hread : readLabel label.toList = .ok (g, headed?)) (cs : List Char) :
    readNode (fuel + 1) start ('<' :: (label.toList ++ ' ' :: cs)) =
      readBody fuel start label.toList g headed? (' ' :: cs) := by
  have hstops : Stops isTokenChar (' ' :: cs) := stops_cons.2 (by decide)
  have hskip : skipBlanks (label.toList ++ ' ' :: cs) = label.toList ++ ' ' :: cs :=
    dropWhile_of_stops (hlabel.isWord.stops _)
  obtain ⟨c, token, htoken⟩ := List.exists_cons_of_ne_nil hlabel.1
  rw [readNode_succ, hskip, takeWhile_run hlabel.2 hstops, dropWhile_run hlabel.2 hstops, htoken]
  dsimp only
  rw [← htoken, hread]
  rfl

theorem readLeaf_spaced {label : List Char} {g : GoldCategory} {headed? : Option Headed}
    {start : Nat} {tag : String} {words : List String} (htag : IsToken tag)
    (hwords : ∀ w ∈ words, IsToken w) (hne : words ≠ []) (rest : List Char) :
    readLeaf label g headed? start (tag.toList ++ (spaced words ++ '>' :: rest)) =
      .ok (.leaf g ⟨start, start + words.length - 1⟩ tag words headed?, rest) := by
  have hstops := stops_spaced words rest
  have hlength : words.length < (tag.toList ++ (spaced words ++ '>' :: rest)).length + 1 := by
    have hle := length_le_spaced words
    rw [List.length_append, List.length_append]
    omega
  obtain ⟨c, token, htoken⟩ := List.exists_cons_of_ne_nil htag.1
  have hempty : words.isEmpty = false := by simpa using hne
  unfold readLeaf
  rw [takeWhile_run htag.2 hstops, dropWhile_run htag.2 hstops, readWords_spaced hwords hlength,
    htoken]
  dsimp only
  rw [← htoken, String.ofList_toList]
  show (if words.isEmpty then _ else _) = _
  rw [hempty]
  rfl

theorem readBody_leaf {fuel start : Nat} {label : List Char} {g : GoldCategory}
    {headed? : Option Headed} {tag : String} (htag : IsToken tag) (rest : List Char) :
    readBody fuel start label g headed? (' ' :: (tag.toList ++ rest)) =
      readLeaf label g headed? start (tag.toList ++ rest) := by
  unfold readBody
  rw [skipBlanks_blank (htag.isWord.stops rest)]
  split
  · -- A tag does not begin as a node does.
    rename_i heq
    obtain ⟨c, token, htoken⟩ := List.exists_cons_of_ne_nil htag.1
    rw [htoken] at heq
    cases heq
    exact absurd (htag.2 '<' (htoken ▸ List.mem_cons_self)) (by decide)
  · rfl

theorem readBody_branch {fuel start : Nat} {label left right rest : List Char} {g : GoldCategory}
    {headed? : Option Headed} {l r : GoldTree}
    (hleft : readNode fuel start ('<' :: left) = .ok (l, ' ' :: '<' :: right))
    (hright : readNode fuel (l.span.last + 1) ('<' :: right) = .ok (r, '>' :: rest)) :
    readBody fuel start label g headed? (' ' :: '<' :: left) =
      .ok (.branch g ⟨start, r.span.last⟩ l r, rest) := by
  have hopen : ∀ cs, Stops isBlank ('<' :: cs) := fun cs => stops_cons.2 (by decide)
  have hclose : skipBlanks ('>' :: rest) = '>' :: rest :=
    dropWhile_of_stops (stops_cons.2 (by decide))
  unfold readBody
  rw [skipBlanks_blank (hopen left)]
  refine bind_eq_ok_iff.2 ⟨_, hleft, ?_⟩
  dsimp only
  rw [skipBlanks_blank (hopen right)]
  refine bind_eq_ok_iff.2 ⟨_, hright, ?_⟩
  dsimp only
  rw [hclose]
  rfl

/-- The text of a tree is read as the tree without the heads of its leaves, and no further. -/
theorem readNode_render {t : GoldTree} (hprintable : t.Printable) (hspanned : t.Spanned)
    {fuel : Nat} (hfuel : t.render.toList.length ≤ fuel) (rest : List Char) :
    readNode fuel t.span.start (t.render.toList ++ rest) = .ok (t.withoutHeads, rest) := by
  induction t generalizing fuel rest with
  | leaf c s tag words headed? =>
    obtain ⟨hc, htag, hwords⟩ := hprintable
    obtain ⟨hne, hlast⟩ := hspanned
    obtain ⟨cs, hcs⟩ := exists_toList_render (.leaf c s tag words headed?)
    rw [hcs] at hfuel
    obtain ⟨fuel, rfl⟩ := Nat.exists_eq_succ_of_ne_zero (Nat.ne_zero_of_lt hfuel)
    rw [toList_render_leaf, readNode_of_isToken (isToken_render hc) (readLabel_render hc),
      readBody_leaf htag, readLeaf_spaced htag hwords hne]
    have hspan : Span.mk s.start (s.start + words.length - 1) = s := by
      rw [← hlast]
      rfl
    exact congrArg (fun s => Except.ok (leaf c s tag words none, rest)) hspan
  | branch c s l r ihl ihr =>
    obtain ⟨hc, hlprintable, hrprintable⟩ := hprintable
    obtain ⟨hl, hr, hstart, hnext, hlast⟩ := hspanned
    have hlength : (render (.branch c s l r)).toList.length =
        c.render.toList.length + l.render.toList.length + r.render.toList.length + 4 := by
      have htext := congrArg List.length (toList_render_branch c s l r [])
      simp only [List.append_nil, List.length_append, List.length_cons, List.length_nil] at htext
      omega
    obtain ⟨fuel, rfl⟩ : ∃ n, fuel = n + 1 := ⟨fuel - 1, by omega⟩
    have hfuelLeft : l.render.toList.length ≤ fuel := by omega
    have hfuelRight : r.render.toList.length ≤ fuel := by omega
    have hleft := ihl hlprintable hl hfuelLeft (' ' :: (r.render.toList ++ '>' :: rest))
    have hright := ihr hrprintable hr hfuelRight ('>' :: rest)
    rw [toList_render_branch, readNode_of_isToken (isToken_render hc) (readLabel_render hc)]
    -- Both children begin as nodes do.
    obtain ⟨left, hl'⟩ := exists_toList_render l
    obtain ⟨right, hr'⟩ := exists_toList_render r
    rw [hl', hr'] at hleft
    rw [hr', hnext, ← span_withoutHeads l] at hright
    rw [hl', hr']
    refine (readBody_branch (hstart ▸ hleft) hright).trans ?_
    have hspan : Span.mk s.start r.withoutHeads.span.last = s := by
      rw [span_withoutHeads, ← hlast]
    exact congrArg (fun s => Except.ok (branch c s l.withoutHeads r.withoutHeads, rest)) hspan

theorem parse_render_of_printable {t : GoldTree} (hprintable : t.Printable) (hspanned : t.Spanned)
    (hstart : t.span.start = 0) : parse t.render = .ok t.withoutHeads := by
  obtain ⟨cs, hcs⟩ := exists_toList_render t
  have htrim : trim t.render.toList = t.render.toList := by
    rw [hcs]
    exact (Trimmed.bracketed cs (by decide) (by decide)).trim_eq
  -- The fuel is the length of the text and one more.
  have hnode := readNode_render hprintable hspanned (Nat.le_succ _) []
  rw [hstart, List.append_nil] at hnode
  have hall : readAll t.render.toList = .ok t.withoutHeads := bind_eq_ok_iff.2 ⟨_, hnode, rfl⟩
  unfold parse
  dsimp only
  rw [htrim, hall]
  rfl

/-! ## What has been read -/

theorem derives_of_readCategory {cs : List Char} {w : Written} (h : readCategory cs = .ok w) :
    Derives .category (trim cs) w := by
  unfold readCategory at h
  dsimp only at h
  split at h
  · cases h
    exact readAll_iff.1 ‹_›
  · cases h

theorem legible_of_readCategory {cs : List Char} {w : Written} (h : readCategory cs = .ok w) :
    w.plain.Legible :=
  Category.legible_plain_iff.2 (derives_of_readCategory h).legible

theorem mem_of_readCategory {cs : List Char} {w : Written} (h : readCategory cs = .ok w) {c : Char}
    (hc : c ∈ w.plain.letters) : c ∈ cs := by
  rw [Category.plain, Category.letters_map] at hc
  exact mem_of_mem_trim ((derives_of_readCategory h).mem_of_mem_letters hc)

theorem readLabel_cases {label : List Char} {g : GoldCategory} {headed? : Option Headed}
    (h : readLabel label = .ok (g, headed?)) :
    ∃ after, readCategory (label.takeWhile (· != '_')) = .ok after ∧ g.category = after.plain ∧
      (g.beforeUnary? = none ∨ ∃ c rest before, label.dropWhile (· != '_') = c :: rest ∧
        readCategory rest = .ok before ∧ g.beforeUnary? = some before.plain) := by
  unfold readLabel at h
  obtain ⟨after, hafter, h⟩ := bind_eq_ok_iff.1 h
  split at h
  · rename_i c rest hrest
    obtain ⟨before, hbefore, h⟩ := bind_eq_ok_iff.1 h
    obtain ⟨form, -, h⟩ := bind_eq_ok_iff.1 h
    cases h
    exact ⟨after, hafter, rfl, .inr ⟨c, rest, before, hrest, hbefore, rfl⟩⟩
  · obtain ⟨form, -, h⟩ := bind_eq_ok_iff.1 h
    cases h
    exact ⟨after, hafter, rfl, .inl rfl⟩

/-- What stands in front of the first low line has none, and the whole label has no angle
    brackets. -/
theorem printable_of_readLabel {label : List Char} {g : GoldCategory} {headed? : Option Headed}
    (hlabel : ∀ c ∈ label, isTokenChar c = true) (h : readLabel label = .ok (g, headed?)) :
    g.Printable := by
  obtain ⟨after, hafter, hcategory, hbefore⟩ := readLabel_cases h
  obtain ⟨category, before?⟩ := g
  dsimp only at hcategory hbefore
  subst hcategory
  have hletters : ∀ c ∈ after.plain.letters, c ∉ ['_', '<', '>'] := by
    intro c hc hmem
    have hmem' := mem_of_readCategory hafter hc
    rcases List.mem_cons.1 hmem with rfl | hmem
    · exact absurd (List.mem_takeWhile_imp hmem') (by decide)
    · exact (isTokenChar_iff.1 (hlabel c (List.takeWhile_subset _ hmem'))).2 hmem
  rcases hbefore with rfl | ⟨c, rest, before, hrest, hbefore, rfl⟩
  · exact ⟨legible_of_readCategory hafter, hletters, nofun, nofun⟩
  · have hsubset : ∀ ch ∈ rest, ch ∈ label := fun ch hch =>
      List.dropWhile_subset (· != '_') (hrest ▸ List.mem_cons_of_mem c hch)
    refine ⟨legible_of_readCategory hafter, hletters, ?_, ?_⟩
    · rintro _ ⟨⟩
      exact legible_of_readCategory hbefore
    · rintro _ ⟨⟩ ch hch
      exact (isTokenChar_iff.1 (hlabel ch (hsubset ch (mem_of_readCategory hbefore hch)))).2

theorem printable_of_readNode {fuel start : Nat} {cs rest : List Char} {t : GoldTree}
    (h : readNode fuel start cs = .ok (t, rest)) : t.Printable := by
  induction fuel generalizing start cs rest t with
  | zero => cases h
  | succ fuel ih =>
    obtain ⟨cs', g, headed?, -, hlabel, hnode⟩ := readNode_cases h
    have hg := printable_of_readLabel (forall_mem_of_takeWhile_eq rfl) hlabel
    rcases hnode with ⟨tag, words, rfl, -, htag, hwords⟩ |
      ⟨l, r, _, _, _, _, hleft, hright, rfl⟩
    · exact ⟨hg, htag, hwords⟩
    · exact ⟨hg, ih hleft, ih hright⟩

theorem withoutHeads_eq_self {t : GoldTree}
    (h : ∀ c s tag words headed?, leaf c s tag words headed? ∈ t.nodes → headed? = none) :
    t.withoutHeads = t := by
  induction t with
  | leaf c s tag words headed? => rw [withoutHeads, h _ _ _ _ _ (List.mem_singleton_self _)]
  | branch c s l r ihl ihr =>
    rw [withoutHeads,
      ihl fun c' s' tag words headed? hn => h _ _ _ _ _ (mem_nodes_branch.2 (.inr (.inl hn))),
      ihr fun c' s' tag words headed? hn => h _ _ _ _ _ (mem_nodes_branch.2 (.inr (.inr hn)))]

/-- A tree that has been read is printed as a text that is read as the tree without the heads of its
    leaves, and as the tree itself if no leaf has heads. -/
theorem parse_render_of_parse (text : String) (t : GoldTree) (ht : parse text = .ok t) :
    parse t.render = .ok t.withoutHeads ∧
      ((∀ c s tag words headed?, leaf c s tag words headed? ∈ t.nodes → headed? = none) →
        parse t.render = .ok t) := by
  obtain ⟨rest, hread⟩ := readNode_of_parse ht
  obtain ⟨hspanned, hstart⟩ := spanned_of_parse ht
  have hrender := parse_render_of_printable (printable_of_readNode hread) hspanned hstart
  refine ⟨hrender, fun hheads => ?_⟩
  rw [hrender, withoutHeads_eq_self hheads]

/-- A name of two words whose exact category is given, under a unary rule. -/
def sampleHeadedLeaf : GoldTree :=
  .branch ⟨.atom "S" (.var 2) (), none⟩ ⟨0, 2⟩
    (.leaf ⟨.atom "NP" .unspecified (), some (.atom "N" (.value "a_b") ())⟩ ⟨0, 1⟩ "NNP"
      ["New", "York"] (some (.atom "N" (.value "a_b") 0)))
    (.leaf ⟨.func .backward (.atom "S" .unspecified ()) (.atom "NP" .unspecified ()) (), none⟩
      ⟨2, 2⟩ "VB" ["sleeps"] none)

theorem parse_render_of_parse_sample :
    parse "< S[+2] <NP_N[a_b]{1} NNP New  York><(S\\NP) VB sleeps> >" =
        .ok sampleHeadedLeaf ∧
      sampleHeadedLeaf.render = "<S[2] <NP_N[a_b] NNP New York> <(S\\NP) VB sleeps>>" ∧
      parse sampleHeadedLeaf.render = .ok sampleHeadedLeaf.withoutHeads ∧
      sampleHeadedLeaf.withoutHeads ≠ sampleHeadedLeaf ∧
      parse sampleHeadedLeaf.withoutHeads.render = .ok sampleHeadedLeaf.withoutHeads := by
  have hread : parse "< S[+2] <NP_N[a_b]{1} NNP New  York><(S\\NP) VB sleeps> >" =
      .ok sampleHeadedLeaf := by decide +kernel
  have hagain := (parse_render_of_parse _ _ hread).1
  refine ⟨hread, by decide +kernel, hagain, by decide,
    (parse_render_of_parse _ _ hagain).2 fun c s tag words headed? hmem => ?_⟩
  simp only [sampleHeadedLeaf, withoutHeads, nodes, List.cons_append, List.nil_append,
    List.mem_cons, reduceCtorEq, leaf.injEq, List.not_mem_nil, or_false, false_or] at hmem
  rcases hmem with ⟨-, -, -, -, rfl⟩ | ⟨-, -, -, -, rfl⟩ <;> rfl

/-! ## Categories as labels -/

/-- The characters that do not cut a label. -/
def isLabelChar (c : Char) : Bool := c != '_' && isTokenChar c

theorem isLabelChar_iff {c : Char} :
    isLabelChar c = true ↔ isBlank c = false ∧ c ∉ ['_', '<', '>'] := by
  simp only [isLabelChar, Bool.and_eq_true, bne_iff_ne, isTokenChar_iff, List.mem_cons, not_or]
  exact and_left_comm

theorem isLabelChar_of_isMark (c : Char) (h : isMark c = true) : isLabelChar c = true := by
  rw [isLabelChar, isTokenChar_of_isMark h, Bool.and_true, bne_iff_ne]
  rintro rfl
  exact absurd h (by decide)

theorem isLabelChar_of_isAtomLetter (c : Char) (h : IsAtomLetter c) : isLabelChar c = true := by
  refine isLabelChar_iff.2 ⟨h.not_isBlank, ?_⟩
  simp only [List.mem_cons, List.not_mem_nil, or_false, not_or]
  exact ⟨h.ne_underscore, h.ne_angle⟩

theorem takeWhile_label (cs : List Char) :
    (cs.takeWhile isTokenChar).takeWhile (· != '_') = cs.takeWhile isLabelChar := by
  rw [List.takeWhile_takeWhile]
  simp only [Bool.decide_and, Bool.decide_eq_true]
  rfl

/-- A category that has one of the characters that cut a label is cut inside a bracket, and what is
    left is no category. -/
theorem letters_of_readLabel {p : Plain} (hp : p.Legible) {rest : List Char} {g : GoldCategory}
    {headed? : Option Headed}
    (h : readLabel ((p.render.toList ++ rest).takeWhile isTokenChar) = .ok (g, headed?)) :
    ∀ c ∈ p.letters, c ∉ ['_', '<', '>'] := by
  intro c hc hmem
  have hcut : ∃ c ∈ p.render.toList, isLabelChar c = false := by
    refine ⟨c, (derives_plain_render hp).mem_of_mem_letters ?_, ?_⟩
    · rwa [Category.letters_map]
    · rw [← Bool.not_eq_true, isLabelChar_iff]
      exact fun h => h.2 hmem
  -- What is read first is the text in front of the cut. A bracket is open there, but in what can be
  -- read the brackets are in balance.
  obtain ⟨after, hafter, -, -⟩ := readLabel_cases h
  have hnotBlank : ∀ c ∈ p.render.toList.takeWhile isLabelChar, isBlank c = false :=
    fun c hc => (isLabelChar_iff.1 (List.mem_takeWhile_imp hc)).1
  have hbalanced := (derives_of_readCategory hafter).inBalance
  rw [takeWhile_label, takeWhile_append_of_exists hcut, (Trimmed.of_forall hnotBlank).trim_eq,
    InBalance, Plain.count_takeWhile_render isLabelChar_of_isMark isLabelChar_of_isAtomLetter hp
      hcut] at hbalanced
  exact Nat.succ_ne_self _ hbalanced

theorem toList_render_oneWord (p : Plain) :
    ("<" ++ p.render ++ " P w>").toList = '<' :: (p.render.toList ++ " P w>".toList) := by
  simp

theorem letters_of_parse_oneWord {p : Plain} (hp : p.Legible) {t : GoldTree}
    (h : parse ("<" ++ p.render ++ " P w>") = .ok t) : ∀ c ∈ p.letters, c ∉ ['_', '<', '>'] := by
  have hstops : Stops isBlank (p.render.toList ++ " P w>".toList) := by
    have hfirst := (derives_plain_render hp).trimmed.first
    obtain ⟨c, cs, hcs⟩ := List.exists_cons_of_length_pos (derives_plain_render hp).length_pos
    rw [hcs] at hfirst ⊢
    exact stops_cons.2 (stops_cons.1 hfirst)
  have htrim : trim ("<" ++ p.render ++ " P w>").toList =
      '<' :: (p.render.toList ++ " P w>".toList) := by
    rw [toList_render_oneWord]
    have htext : p.render.toList ++ " P w>".toList = p.render.toList ++ " P w".toList ++ ['>'] := by
      simp
    rw [htext]
    exact (Trimmed.bracketed _ (by decide) (by decide)).trim_eq
  obtain ⟨rest, hnode⟩ := readNode_of_parse h
  rw [htrim] at hnode
  obtain ⟨cs, g, headed?, hcs, hlabel, -⟩ := readNode_cases hnode
  cases hcs
  rw [skipBlanks, dropWhile_of_stops hstops] at hlabel
  exact letters_of_readLabel hp hlabel

/-- A category labels a leaf just if no name in it has one of the characters that cut a label. -/
theorem parse_oneWord_iff (s : String) (p : Plain) (hp : Plain.parse s = .ok p) :
    ((∃ t, parse ("<" ++ p.render ++ " P w>") = .ok t) ↔ ∀ c ∈ p.letters, c ∉ ['_', '<', '>']) ∧
    (parse ("<" ++ p.render ++ " P w>") = .ok (.leaf ⟨p, none⟩ ⟨0, 0⟩ "P" ["w"] none) ↔
      ∀ c ∈ p.letters, c ∉ ['_', '<', '>']) := by
  have hlegible := legible_of_plain_parse hp
  have hread : (∀ c ∈ p.letters, c ∉ ['_', '<', '>']) →
      parse ("<" ++ p.render ++ " P w>") = .ok (.leaf ⟨p, none⟩ ⟨0, 0⟩ "P" ["w"] none) := by
    intro hletters
    have hprintable : Printable (.leaf ⟨p, none⟩ ⟨0, 0⟩ "P" ["w"] none) :=
      ⟨⟨hlegible, hletters, nofun, nofun⟩, by decide, by decide⟩
    have hspanned : Spanned (.leaf ⟨p, none⟩ ⟨0, 0⟩ "P" ["w"] none) :=
      ⟨List.cons_ne_nil _ _, rfl⟩
    have htext : render (.leaf ⟨p, none⟩ ⟨0, 0⟩ "P" ["w"] none) = "<" ++ p.render ++ " P w>" := by
      rw [← String.toList_inj, toList_render_oneWord, ← List.append_nil (render _).toList,
        toList_render_leaf]
      simp [GoldCategory.render, spaced]
    rw [← htext]
    exact parse_render_of_printable hprintable hspanned rfl
  exact ⟨⟨fun ⟨t, ht⟩ => letters_of_parse_oneWord hlegible ht, fun h => ⟨_, hread h⟩⟩,
    fun ht => letters_of_parse_oneWord hlegible ht, hread⟩

theorem parse_oneWord_iff_sample :
    Plain.parse "S[dcl]\\NP[+2]" = .ok (.func .backward (.atom "S" (.value "dcl") ())
        (.atom "NP" (.var 2) ()) ()) ∧
      parse "<(S[dcl]\\NP[2]) P w>" = .ok (.leaf ⟨.func .backward (.atom "S" (.value "dcl") ())
        (.atom "NP" (.var 2) ()) (), none⟩ ⟨0, 0⟩ "P" ["w"] none) := by
  have hread : Plain.parse "S[dcl]\\NP[+2]" = .ok (.func .backward (.atom "S" (.value "dcl") ())
      (.atom "NP" (.var 2) ()) ()) := by decide +kernel
  exact ⟨hread, (parse_oneWord_iff _ _ hread).2.2 (by simp [Category.letters, Feature.letters])⟩

/-- A low line in the name of a feature divides a label, although it may stand there after the one
    that does. -/
theorem parse_lowLine_in_feature :
    Plain.parse "S[a_b]" = .ok (.atom "S" (.value "a_b") ()) ∧
      Plain.render (.atom "S" (.value "a_b") ()) = "S[a_b]" ∧
      (∀ t, parse "<S[a_b] P w>" ≠ .ok t) ∧
      parse "<N_S[a_b] P w>" = .ok (.leaf ⟨.atom "N" .unspecified (),
        some (.atom "S" (.value "a_b") ())⟩ ⟨0, 0⟩ "P" ["w"] none) := by
  have hread : parse "<S[a_b] P w>" =
      .error (.tree "<S[a_b] P w>" (.badLabel "S[a" (.trailing "[a"))) := by decide +kernel
  refine ⟨by decide +kernel, by decide +kernel, fun t ht => ?_, by decide +kernel⟩
  rw [hread] at ht
  cases ht

end GoldTree

end Categorial
