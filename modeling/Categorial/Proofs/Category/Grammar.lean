/-
  Categorial.Proofs.Category.Grammar

  The grammar of categories as a relation between texts and what they write, whoever reads them:

      category ::= term | category slash term
      term     ::= '(' category ')' head? | atom feature? head?

  `Derives` says which category a text writes, with the heads that are written there, and
  `Completes` which headed category is meant by it.  One is meant just if every atom has a head
  (`exists_completes_iff`).  Nothing here refers to a reader: which characters a name may have and
  what a head after a parenthesis does are said in terms of texts and categories alone.
-/

import Categorial.Category.Basic
import Categorial.Proofs.Text
import Mathlib.Algebra.Group.Nat.Defs

namespace Categorial.Written

open Text

/-! ## Letters -/

/-- A letter of a feature's name: neither a blank nor a square bracket. -/
structure IsFeatureLetter (c : Char) : Prop where
  not_isBlank : isBlank c = false
  ne_bracket : c ≠ '[' ∧ c ≠ ']'

/-- A letter of an atom's name: in addition, none of the marks that categories are written with and
    none of the delimiters that labels of a tree have. -/
structure IsAtomLetter (c : Char) : Prop extends IsFeatureLetter c where
  ne_slash : c ≠ '/' ∧ c ≠ '\\'
  ne_parenthesis : c ≠ '(' ∧ c ≠ ')'
  ne_brace : c ≠ '{' ∧ c ≠ '}'
  ne_angle : c ≠ '<' ∧ c ≠ '>'
  ne_underscore : c ≠ '_'

/-! ## Texts of categories -/

/-- The head after a term, where there may be none. -/
inductive IsHead : List Char → Option Var → Prop
  | absent : IsHead [] none
  | present {before ds after : List Char} {v : Var}
      (hbefore : ∀ c ∈ before, isBlank c = true) (hds : IsDigits (2 ^ 64) ds v)
      (hafter : ∀ c ∈ after, isBlank c = true) :
      IsHead ('{' :: (before ++ (ds ++ (after ++ ['}'])))) (some v)

/-- A feature with this name is a variable if the name is a numeral, and a value otherwise. -/
inductive IsNameOf : List Char → Feature → Prop
  | var {name : List Char} {n : Nat} (h : IsNumeral (2 ^ 32) name n) : IsNameOf name (.var n)
  | value {name : List Char} (h : ∀ n, ¬ IsNumeral (2 ^ 32) name n) :
      IsNameOf name (.value (String.ofList name))

/-- The feature after an atom's name, where there may be none. -/
inductive IsFeature : List Char → Feature → Prop
  | absent : IsFeature [] .unspecified
  | present {name : List Char} {feature : Feature} (hne : name ≠ [])
      (hname : ∀ c ∈ name, IsFeatureLetter c) (h : IsNameOf name feature) :
      IsFeature ('[' :: (name ++ [']'])) feature

/-- What a category in parentheses becomes with the head after them. Without a head there it stays
    as it is, and otherwise that head takes the place of its own. -/
inductive TakesHead : Option Var → Written → Written → Prop
  | absent {c : Written} : TakesHead none c c
  | atom {name : String} {feature : Feature} {head : Option Var} {v : Var} :
      TakesHead (some v) (.atom name feature head) (.atom name feature (some v))
  | func {d : Direction} {r a : Written} {head : Option Var} {v : Var} :
      TakesHead (some v) (.func d r a head) (.func d r a (some v))

/-- What a text can be derived as. -/
inductive Nonterminal where
  | term
  | category

/-- A text is a term or a category of the grammar, and this is the category that it writes. Slashes
    associate to the left. -/
inductive Derives : Nonterminal → List Char → Written → Prop
  | atom {name fs hs : List Char} {feature : Feature} {head : Option Var} (hne : name ≠ [])
      (hname : ∀ c ∈ name, IsAtomLetter c) (hfeature : IsFeature fs feature)
      (hhead : IsHead hs head) :
      Derives .term (name ++ (fs ++ hs)) (.atom (String.ofList name) feature head)
  | group {cs hs : List Char} {c c' : Written} {head : Option Var} (hc : Derives .category cs c)
      (hhead : IsHead hs head) (htakes : TakesHead head c c') :
      Derives .term ('(' :: (cs ++ ')' :: hs)) c'
  | single {cs : List Char} {c : Written} (hc : Derives .term cs c) : Derives .category cs c
  | slash {ls ts : List Char} {l t : Written} {d : Direction} (hl : Derives .category ls l)
      (ht : Derives .term ts t) :
      Derives .category (ls ++ d.slash :: ts) (.func d l t none)

theorem Derives.length_pos {cs : List Char} {c : Written} (h : Derives .term cs c) :
    0 < cs.length := by
  cases h with
  | atom hne =>
    have := List.length_pos_iff.2 hne
    rw [List.length_append]
    omega
  | group => exact Nat.succ_pos _

/-! ## The headed category that is meant -/

/-- A headed category that is written so: every atom with its head, and a function without a head
    with the head of its result. -/
inductive Completes : Written → Headed → Prop
  | atom {name : String} {feature : Feature} {h : Var} :
      Completes (.atom name feature (some h)) (.atom name feature h)
  | written {d : Direction} {r a : Written} {r' a' : Headed} {h : Var} (hr : Completes r r')
      (ha : Completes a a') : Completes (.func d r a (some h)) (.func d r' a' h)
  | ofResult {d : Direction} {r a : Written} {r' a' : Headed} (hr : Completes r r')
      (ha : Completes a a') : Completes (.func d r a none) (.func d r' a' r'.label)

/-- Every atom has a head. -/
def AtomsHeaded : Written → Prop
  | .atom _ _ head => head.isSome = true
  | .func _ r a _ => AtomsHeaded r ∧ AtomsHeaded a

theorem exists_completes_iff (w : Written) : (∃ c, Completes w c) ↔ AtomsHeaded w := by
  induction w with
  | atom name feature head =>
    constructor
    · rintro ⟨c, ⟨⟩⟩
      rfl
    · intro h
      obtain ⟨v, rfl⟩ := Option.isSome_iff_exists.1 h
      exact ⟨_, .atom⟩
  | func d r a head ihr iha =>
    constructor
    · rintro ⟨c, hc⟩
      cases hc with
      | written hr ha => exact ⟨ihr.1 ⟨_, hr⟩, iha.1 ⟨_, ha⟩⟩
      | ofResult hr ha => exact ⟨ihr.1 ⟨_, hr⟩, iha.1 ⟨_, ha⟩⟩
    · rintro ⟨hr, ha⟩
      obtain ⟨r', hr'⟩ := ihr.2 hr
      obtain ⟨a', ha'⟩ := iha.2 ha
      cases head with
      | none => exact ⟨_, .ofResult hr' ha'⟩
      | some h => exact ⟨_, .written hr' ha'⟩

theorem Completes.plain_eq {w : Written} {c : Headed} (h : Completes w c) : c.plain = w.plain := by
  induction h with
  | atom => rfl
  | written hr ha ihr iha => exact congrArg₂ (Category.func _ · · ()) ihr iha
  | ofResult hr ha ihr iha => exact congrArg₂ (Category.func _ · · ()) ihr iha

/-- No head is meant that is not written somewhere. -/
theorem Completes.mem_labels {w : Written} {c : Headed} {v : Var} (h : Completes w c)
    (hv : v ∈ c.labels) : some v ∈ w.labels := by
  induction h with
  | atom => simpa [Category.labels] using hv
  | written hr ha ihr iha =>
    simp only [Category.labels, List.mem_cons, List.mem_append, Option.some.injEq] at hv ⊢
    exact hv.imp_right (Or.imp ihr iha)
  | ofResult hr ha ihr iha =>
    simp only [Category.labels, List.mem_cons, List.mem_append] at hv ⊢
    -- The head of the function is one of the result.
    rcases hv with rfl | hv
    · exact .inr (.inl (ihr (Category.label_mem_labels _)))
    · exact .inr (hv.imp ihr iha)

end Categorial.Written
