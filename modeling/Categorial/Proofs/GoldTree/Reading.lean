/-
  Categorial.Proofs.GoldTree.Reading

  What the reader of gold trees gives.  Tags and words are tokens (`isToken_of_readWords`).  A node
  is a leaf with the tokens up to its end, or a branch over two nodes that are read one after the
  other; this is said once for all, with the label that stands in front (`readNode_cases`).
-/

import Categorial.GoldTree.Reader
import Categorial.Proofs.Outcome
import Categorial.Proofs.Text

namespace Categorial

namespace GoldTree

open Text

/-! ## Tokens -/

/-- A text that can stand as a tag or as a word. -/
def IsToken (s : String) : Prop := s.toList ≠ [] ∧ ∀ c ∈ s.toList, isTokenChar c = true

instance (s : String) : Decidable (IsToken s) :=
  decidable_of_iff (s.toList ≠ [] ∧ s.toList.all isTokenChar = true)
    (and_congr_right fun _ => List.all_eq_true)

theorem isToken_of_takeWhile_eq {cs token : List Char} {c : Char}
    (h : cs.takeWhile isTokenChar = c :: token) : IsToken (String.ofList (c :: token)) := by
  rw [IsToken, String.toList_ofList]
  exact ⟨List.cons_ne_nil _ _, forall_mem_of_takeWhile_eq h⟩

theorem isToken_of_readWords {label cs rest : List Char} {fuel : Nat} {words : List String}
    (h : readWords label fuel cs = .ok (words, rest)) : ∀ w ∈ words, IsToken w := by
  induction fuel generalizing cs words with
  | zero => cases h
  | succ fuel ih =>
    unfold readWords at h
    split at h
    · cases h
      exact nofun
    · split at h
      · cases h
      · rename_i htoken
        obtain ⟨⟨others, rest'⟩, hothers, h⟩ := bind_eq_ok_iff.1 h
        cases h
        exact List.forall_mem_cons.2 ⟨isToken_of_takeWhile_eq htoken, ih hothers⟩

/-! ## Nodes -/

theorem readLeaf_eq_ok {label cs rest : List Char} {g : GoldCategory} {headed? : Option Headed}
    {start : Nat} {t : GoldTree} (h : readLeaf label g headed? start cs = .ok (t, rest)) :
    ∃ tag words, t = .leaf g ⟨start, start + words.length - 1⟩ tag words headed? ∧ words ≠ [] ∧
      IsToken tag ∧ ∀ w ∈ words, IsToken w := by
  unfold readLeaf at h
  split at h
  · cases h
  · rename_i c tag htag
    obtain ⟨⟨words, rest'⟩, hwords, h⟩ := bind_eq_ok_iff.1 h
    dsimp only at h
    split at h
    · cases h
    · rename_i hne
      cases h
      exact ⟨_, words, rfl, fun heq => hne (by rw [heq]; rfl), isToken_of_takeWhile_eq htag,
        isToken_of_readWords hwords⟩

/-- Reads what follows the label of a node. -/
def readBody (fuel start : Nat) (label : List Char) (g : GoldCategory) (headed? : Option Headed)
    (cs : List Char) : Except TreeFault (GoldTree × List Char) :=
  match skipBlanks cs with
  | '<' :: rest => do
    let (left, rest) ← readNode fuel start ('<' :: rest)
    let (right, rest) ← readNode fuel (left.span.last + 1) (skipBlanks rest)
    match skipBlanks rest with
    | '>' :: rest => return (.branch g ⟨start, right.span.last⟩ left right, rest)
    | rest => throw (.branchNotClosed (String.ofList label) (String.ofList rest))
  | rest => readLeaf label g headed? start rest

theorem readNode_succ (fuel start : Nat) (cs : List Char) :
    readNode (fuel + 1) start ('<' :: cs) =
      match (skipBlanks cs).takeWhile isTokenChar with
      | [] => .error (.noLabel (String.ofList (skipBlanks cs)))
      | c :: label => readLabel (c :: label) >>= fun (g, headed?) =>
        readBody fuel start (c :: label) g headed? ((skipBlanks cs).dropWhile isTokenChar) := by
  rw [readNode]
  rfl

theorem readBody_cases {fuel start : Nat} {label cs rest : List Char} {g : GoldCategory}
    {headed? : Option Headed} {t : GoldTree}
    (h : readBody fuel start label g headed? cs = .ok (t, rest)) :
    (∃ tag words, t = .leaf g ⟨start, start + words.length - 1⟩ tag words headed? ∧
      words ≠ [] ∧ IsToken tag ∧ ∀ w ∈ words, IsToken w) ∨
    ∃ l r cs₁ rest₁ cs₂ rest₂, readNode fuel start cs₁ = .ok (l, rest₁) ∧
      readNode fuel (l.span.last + 1) cs₂ = .ok (r, rest₂) ∧
      t = .branch g ⟨start, r.span.last⟩ l r := by
  unfold readBody at h
  split at h
  · obtain ⟨⟨left, afterLeft⟩, hleft, h⟩ := bind_eq_ok_iff.1 h
    obtain ⟨⟨right, afterRight⟩, hright, h⟩ := bind_eq_ok_iff.1 h
    dsimp only at h hright
    split at h
    · cases h
      exact .inr ⟨left, right, _, _, _, _, hleft, hright, rfl⟩
    · cases h
  · exact .inl (readLeaf_eq_ok h)

/-- A node begins with its label. It is a leaf or a branch over two nodes. -/
theorem readNode_cases {fuel start : Nat} {cs rest : List Char} {t : GoldTree}
    (h : readNode (fuel + 1) start cs = .ok (t, rest)) :
    ∃ cs' g headed?, cs = '<' :: cs' ∧
      readLabel ((skipBlanks cs').takeWhile isTokenChar) = .ok (g, headed?) ∧
      ((∃ tag words, t = .leaf g ⟨start, start + words.length - 1⟩ tag words headed? ∧
          words ≠ [] ∧ IsToken tag ∧ ∀ w ∈ words, IsToken w) ∨
        ∃ l r cs₁ rest₁ cs₂ rest₂, readNode fuel start cs₁ = .ok (l, rest₁) ∧
          readNode fuel (l.span.last + 1) cs₂ = .ok (r, rest₂) ∧
          t = .branch g ⟨start, r.span.last⟩ l r) := by
  have hopen : ∃ cs', cs = '<' :: cs' := by
    unfold readNode at h
    split at h
    · cases h
    · exact ⟨_, rfl⟩
    · cases h
  obtain ⟨cs', rfl⟩ := hopen
  rw [readNode_succ] at h
  split at h
  · cases h
  · rename_i c label hlabel
    obtain ⟨⟨g, headed?⟩, hread, h⟩ := bind_eq_ok_iff.1 h
    exact ⟨cs', g, headed?, rfl, hlabel ▸ hread, readBody_cases h⟩

theorem readNode_of_parse {text : String} {t : GoldTree} (h : parse text = .ok t) :
    ∃ rest, readNode ((trim text.toList).length + 1) 0 (trim text.toList) = .ok (t, rest) := by
  unfold parse at h
  dsimp only at h
  cases hread : readAll (trim text.toList) with
  | error fault =>
    rw [hread] at h
    cases h
  | ok tree =>
    rw [hread] at h
    cases h
    obtain ⟨⟨tree', rest⟩, hnode, hend⟩ := bind_eq_ok_iff.1 hread
    dsimp only at hend
    split at hend
    · cases hend
      exact ⟨rest, hnode⟩
    · cases hend

end GoldTree

end Categorial
