/-
  Categorial.Proofs.Category.Reading

  The reader of categories reads its grammar.  Its classes of characters and what it does with a
  head are those of the grammar (`isAtomChar_iff`, `overrideHead_iff`).  What it reads off a text is
  derived by the grammar (`derives_of_readTerms`), since each call of the reader adds one term to
  the derivation of what stands before it.  A derived text is read to its end and no further
  (`Derives.reads`), provided that the text after it cannot go on with the last term: no rule has a
  choice that the next character does not make.
-/

import Categorial.Category.Reader
import Categorial.Proofs.Category.Grammar

namespace Categorial.Written

open Text

/-! ## What stands next in a text -/

/-- A text is empty or begins with one of some characters. -/
def StartsIn (chars cs : List Char) : Prop := ∀ c ∈ cs.head?, c ∈ chars

/-- The characters that may follow a term. -/
def follow : List Char := ['/', '\\', ')']

theorem startsIn_nil (chars : List Char) : StartsIn chars [] := fun _ hc => nomatch hc

theorem startsIn_cons {c : Char} {chars cs : List Char} : StartsIn chars (c :: cs) ↔ c ∈ chars := by
  simp [StartsIn]

theorem slash_mem_follow (d : Direction) : d.slash ∈ follow := by
  cases d <;> decide

theorem StartsIn.stops {p : Char → Bool} {chars cs : List Char} (h : StartsIn chars cs)
    (hp : ∀ c ∈ chars, p c = false) : Stops p cs := fun c hc => hp c (h c hc)

variable {cs rest : List Char} {c : Written}

/-! ## Letters -/

theorem isFeatureChar_iff {c : Char} : isFeatureChar c = true ↔ IsFeatureLetter c := by
  simp only [isFeatureChar, Bool.and_eq_true, Bool.not_eq_true', bne_iff_ne]
  constructor
  · rintro ⟨⟨hblank, hopen⟩, hclose⟩
    exact ⟨hblank, hopen, hclose⟩
  · rintro ⟨hblank, hopen, hclose⟩
    exact ⟨⟨hblank, hopen⟩, hclose⟩

theorem isAtomChar_iff {c : Char} : isAtomChar c = true ↔ IsAtomLetter c := by
  simp only [isAtomChar, Bool.and_eq_true, Bool.not_eq_true', decide_eq_true_eq, List.mem_cons,
    List.not_mem_nil, or_false, not_or]
  constructor
  · rintro ⟨hblank, hslash, hslash', hparen, hparen', hbracket, hbracket', hbrace, hbrace', hangle,
      hangle', hunderscore⟩
    exact ⟨⟨hblank, hbracket, hbracket'⟩, ⟨hslash, hslash'⟩, ⟨hparen, hparen'⟩, ⟨hbrace, hbrace'⟩,
      ⟨hangle, hangle'⟩, hunderscore⟩
  · rintro ⟨⟨hblank, hbracket, hbracket'⟩, ⟨hslash, hslash'⟩, ⟨hparen, hparen'⟩, ⟨hbrace, hbrace'⟩,
      ⟨hangle, hangle'⟩, hunderscore⟩
    exact ⟨hblank, hslash, hslash', hparen, hparen', hbracket, hbracket', hbrace, hbrace', hangle,
      hangle', hunderscore⟩

/-! ## Heads -/

theorem not_isBlank_of_isDigit {c : Char} (h : c.isDigit = true) : isBlank c = false := by
  simp only [Char.isDigit, ge_iff_le, Bool.and_eq_true, decide_eq_true_eq,
    UInt32.le_iff_toNat_le] at h
  change 48 ≤ c.toNat ∧ c.toNat ≤ 57 at h
  simp only [isBlank, Bool.or_eq_false_iff, Bool.and_eq_false_iff, decide_eq_false_iff_not,
    beq_eq_false_iff_ne]
  omega

theorem stops_isBlank_of_digits {ds : List Char} (hne : ds ≠ [])
    (hds : ∀ c ∈ ds, c.isDigit = true) (rest : List Char) : Stops isBlank (ds ++ rest) := by
  cases ds with
  | nil => exact absurd rfl hne
  | cons d ds => exact stops_cons.2 (not_isBlank_of_isDigit (hds d List.mem_cons_self))

theorem stops_isDigit_of_blanks {after : List Char} (hafter : ∀ c ∈ after, isBlank c = true)
    (rest : List Char) : Stops Char.isDigit (after ++ '}' :: rest) := by
  cases after with
  | nil => exact stops_cons.2 (by decide)
  | cons b after =>
    refine stops_cons.2 ?_
    by_contra hb
    have hblank := hafter b List.mem_cons_self
    rw [not_isBlank_of_isDigit (by simpa using hb)] at hblank
    cases hblank

theorem splitHead?_eq_some {before ds after : List Char}
    (h : splitHead? cs = some (before, ds, after, rest)) :
    (∀ c ∈ before, isBlank c = true) ∧ ds ≠ [] ∧ (∀ c ∈ ds, c.isDigit = true) ∧
      (∀ c ∈ after, isBlank c = true) ∧
      cs = '{' :: (before ++ (ds ++ (after ++ '}' :: rest))) := by
  unfold splitHead? at h
  split at h
  · rename_i cs
    dsimp only at h
    split at h
    · rename_i d digits rest' hdigits hrest
      simp only [Option.some.injEq, Prod.mk.injEq] at h
      obtain ⟨rfl, rfl, rfl, rfl⟩ := h
      refine ⟨forall_mem_of_takeWhile_eq rfl, List.cons_ne_nil _ _,
        forall_mem_of_takeWhile_eq hdigits, forall_mem_of_takeWhile_eq rfl, ?_⟩
      rw [← hrest, ← hdigits, List.takeWhile_append_dropWhile,
        List.takeWhile_append_dropWhile, List.takeWhile_append_dropWhile]
    · cases h
  · cases h

theorem splitHead?_of_head {before ds after : List Char}
    (hbefore : ∀ c ∈ before, isBlank c = true) (hne : ds ≠ []) (hds : ∀ c ∈ ds, c.isDigit = true)
    (hafter : ∀ c ∈ after, isBlank c = true) (rest : List Char) :
    splitHead? ('{' :: (before ++ (ds ++ (after ++ '}' :: rest)))) =
      some (before, ds, after, rest) := by
  -- Blanks, digits and blanks again: each run stops where the next one begins.
  have hstops := stops_isBlank_of_digits hne hds (after ++ '}' :: rest)
  have hstops' := stops_isDigit_of_blanks hafter rest
  have hstops'' : Stops isBlank ('}' :: rest) := stops_cons.2 (by decide)
  obtain ⟨d, digits, rfl⟩ := List.exists_cons_of_ne_nil hne
  simp only [splitHead?, takeWhile_run hbefore hstops, dropWhile_run hbefore hstops,
    takeWhile_run hds hstops', dropWhile_run hds hstops', takeWhile_run hafter hstops'',
    dropWhile_run hafter hstops'']

theorem isHead_of_readHead {head : Option Var} (h : readHead cs = .ok (head, rest)) :
    ∃ hs, IsHead hs head ∧ cs = hs ++ rest := by
  unfold readHead at h
  split at h
  · cases h
    exact ⟨[], .absent, rfl⟩
  · rename_i before ds after rest' hsplit
    obtain ⟨hbefore, -, -, hafter, rfl⟩ := splitHead?_eq_some hsplit
    split at h
    · rename_i v hv
      cases h
      exact ⟨_, .present hbefore (readDigits_iff.1 hv) hafter, by simp⟩
    · cases h

theorem IsHead.reads {hs : List Char} {head : Option Var} (h : IsHead hs head)
    (hrest : StartsIn follow rest) : readHead (hs ++ rest) = .ok (head, rest) := by
  unfold readHead
  cases h with
  | absent =>
    -- A text that does not begin with a brace has no head.
    have hnone : splitHead? rest = none := by
      unfold splitHead?
      split
      · exact absurd (startsIn_cons.1 hrest) (by decide)
      · rfl
    rw [List.nil_append, hnone]
  | present hbefore hds hafter =>
    have hv : readDigits wordBound _ = _ := readDigits_iff.2 hds
    rw [List.cons_append, List.append_assoc, List.append_assoc, List.append_assoc,
      List.singleton_append, splitHead?_of_head hbefore hds.ne_nil hds.isDigit hafter rest]
    dsimp only
    rw [hv]

theorem IsHead.startsIn {hs : List Char} {head : Option Var} (h : IsHead hs head)
    (hrest : StartsIn follow rest) : StartsIn ('{' :: follow) (hs ++ rest) := by
  cases h with
  | absent => exact fun c hc => List.mem_cons_of_mem _ (hrest c hc)
  | present => exact startsIn_cons.2 List.mem_cons_self

theorem overrideHead_iff {head : Option Var} {c' : Written} :
    c.overrideHead head = c' ↔ TakesHead head c c' := by
  constructor
  · rintro rfl
    cases head with
    | none => cases c <;> exact .absent
    | some v =>
      cases c with
      | atom => exact .atom
      | func => exact .func
  · intro h
    cases h with
    | absent => cases c <;> rfl
    | atom => rfl
    | func => rfl

/-! ## Features -/

theorem featureOfName_iff {name : List Char} {feature : Feature} :
    featureOfName name = feature ↔ IsNameOf name feature := by
  unfold featureOfName
  constructor
  · rintro rfl
    split
    · rename_i n hn
      exact .var (readNumeral_iff.1 hn)
    · rename_i hnone
      refine .value fun n hn => ?_
      have hsome : readNumeral featureBound name = some n := readNumeral_iff.2 hn
      rw [hnone] at hsome
      cases hsome
  · intro h
    cases h with
    | var h =>
      have hn : readNumeral featureBound name = _ := readNumeral_iff.2 h
      rw [hn]
    | value h =>
      have hnone : readNumeral featureBound name = none := by
        rw [Option.eq_none_iff_forall_ne_some]
        exact fun n hn => h n (readNumeral_iff.1 hn)
      rw [hnone]

theorem isFeature_readFeature (cs : List Char) :
    ∃ fs, IsFeature fs (readFeature cs).1 ∧ cs = fs ++ (readFeature cs).2 := by
  unfold readFeature
  split
  · rename_i cs
    split
    · rename_i c name rest' hname hrest
      have hletters : ∀ ch ∈ c :: name, IsFeatureLetter ch := fun ch hch =>
        isFeatureChar_iff.1 (forall_mem_of_takeWhile_eq hname ch hch)
      refine ⟨_, .present (List.cons_ne_nil c name) hletters (featureOfName_iff.1 rfl), ?_⟩
      rw [List.cons_append, List.append_assoc, List.singleton_append, ← hname, ← hrest,
        List.takeWhile_append_dropWhile]
    · exact ⟨[], .absent, rfl⟩
  · exact ⟨[], .absent, rfl⟩

theorem IsFeature.reads {fs : List Char} {feature : Feature} (h : IsFeature fs feature)
    (hrest : StartsIn ('{' :: follow) rest) : readFeature (fs ++ rest) = (feature, rest) := by
  cases h with
  | absent =>
    rw [List.nil_append]
    unfold readFeature
    split
    · exact absurd (startsIn_cons.1 hrest) (by decide)
    · rfl
  | present hne hname h =>
    rename_i name
    have hname : ∀ c ∈ name, isFeatureChar c = true := fun c hc => isFeatureChar_iff.2 (hname c hc)
    have hstops : Stops isFeatureChar (']' :: rest) := stops_cons.2 (by decide)
    obtain ⟨c, name, rfl⟩ := List.exists_cons_of_ne_nil hne
    rw [List.cons_append, List.append_assoc, List.singleton_append]
    simp only [readFeature, takeWhile_run hname hstops, dropWhile_run hname hstops,
      featureOfName_iff.2 h]

theorem IsFeature.startsIn {fs : List Char} {feature : Feature} (h : IsFeature fs feature)
    (hrest : StartsIn ('{' :: follow) rest) :
    StartsIn ('[' :: '{' :: follow) (fs ++ rest) := by
  cases h with
  | absent => exact fun c hc => List.mem_cons_of_mem _ (hrest c hc)
  | present => exact startsIn_cons.2 List.mem_cons_self

/-! ## Terms -/

theorem derives_of_readAtom (h : readAtom cs = .ok (c, rest)) :
    ∃ ts, Derives .term ts c ∧ cs = ts ++ rest := by
  unfold readAtom at h
  split at h
  · cases h
  · rename_i n name hname
    dsimp only at h
    split at h
    · cases h
    · rename_i head rest' hhead
      cases h
      obtain ⟨fs, hfs, hcs⟩ := isFeature_readFeature (cs.dropWhile isAtomChar)
      obtain ⟨hs, hhs, hrest⟩ := isHead_of_readHead hhead
      have hletters : ∀ ch ∈ n :: name, IsAtomLetter ch := fun ch hch =>
        isAtomChar_iff.1 (forall_mem_of_takeWhile_eq hname ch hch)
      refine ⟨_, .atom (List.cons_ne_nil n name) hletters hfs hhs, ?_⟩
      rw [← hname, List.append_assoc, List.append_assoc, ← hrest, ← hcs,
        List.takeWhile_append_dropWhile]

theorem not_isAtomChar_of_mem {c : Char} (h : c ∈ '[' :: '{' :: follow) : isAtomChar c = false := by
  simp only [follow, List.mem_cons, List.not_mem_nil, or_false] at h
  rcases h with rfl | rfl | rfl | rfl | rfl <;> decide

theorem readAtom_of_atom {name fs hs : List Char} {feature : Feature} {head : Option Var}
    (hne : name ≠ []) (hname : ∀ c ∈ name, IsAtomLetter c) (hfeature : IsFeature fs feature)
    (hhead : IsHead hs head) (hrest : StartsIn follow rest) :
    readAtom (name ++ (fs ++ (hs ++ rest))) =
      .ok (.atom (String.ofList name) feature head, rest) := by
  have hafter := hhead.startsIn hrest
  have hname : ∀ c ∈ name, isAtomChar c = true := fun c hc => isAtomChar_iff.2 (hname c hc)
  have hstops : Stops isAtomChar (fs ++ (hs ++ rest)) :=
    (hfeature.startsIn hafter).stops fun _ => not_isAtomChar_of_mem
  obtain ⟨n, name, rfl⟩ := List.exists_cons_of_ne_nil hne
  simp only [readAtom, takeWhile_run hname hstops, dropWhile_run hname hstops,
    hfeature.reads hafter, hhead.reads hrest]

/-- Reads one term, with fuel for what stands in its parentheses. -/
def readTerm (fuel : Nat) (cs : List Char) : Except CategoryFault (Written × List Char) :=
  match cs with
  | '(' :: inner =>
    match readTerms fuel none inner with
    | .error fault => .error fault
    | .ok (c, rest) => readClosing c rest
  | _ => readAtom cs

/-- Goes on after a term, if a slash follows. -/
def readMore (fuel : Nat) (c : Written) (rest : List Char) :
    Except CategoryFault (Written × List Char) :=
  match readSlash? rest with
  | none => .ok (c, rest)
  | some (d, rest) => readTerms fuel (some (c, d)) rest

theorem readTerms_succ (fuel : Nat) (left : Option (Written × Direction)) (cs : List Char) :
    readTerms (fuel + 1) left cs =
      match readTerm fuel cs with
      | .error fault => .error fault
      | .ok (term, rest) => readMore fuel (attach left term) rest := rfl

theorem isHead_of_readClosing {t : Written} (h : readClosing c cs = .ok (t, rest)) :
    ∃ hs head, IsHead hs head ∧ TakesHead head c t ∧ cs = ')' :: (hs ++ rest) := by
  unfold readClosing at h
  split at h
  · split at h
    · cases h
    · rename_i head rest' hhead
      cases h
      obtain ⟨hs, hhs, rfl⟩ := isHead_of_readHead hhead
      exact ⟨hs, head, hhs, overrideHead_iff.1 rfl, rfl⟩
  · cases h

theorem readSlash?_eq_some {d : Direction} (h : readSlash? cs = some (d, rest)) :
    cs = d.slash :: rest := by
  unfold readSlash? at h
  split at h
  · cases h
  · rename_i ch cs
    obtain ⟨d', hd, heq⟩ := Option.map_eq_some_iff.1 h
    cases heq
    unfold Direction.ofSlash? at hd
    split at hd <;> cases hd <;> rfl

theorem readMore_slash (fuel : Nat) (c : Written) (d : Direction) (rest : List Char) :
    readMore fuel c (d.slash :: rest) = readTerms fuel (some (c, d)) rest := by
  unfold readMore
  rw [readSlash?, Direction.ofSlash?_slash]
  rfl

/-! ## What is read is derived -/

/-- What stands before the next term: nothing, or a category and a slash. -/
inductive Precedes : List Char → Option (Written × Direction) → Prop
  | start : Precedes [] none
  | slash {ls : List Char} {l : Written} {d : Direction} (h : Derives .category ls l) :
      Precedes (ls ++ [d.slash]) (some (l, d))

theorem Precedes.attach {ps ts : List Char} {left : Option (Written × Direction)}
    (h : Precedes ps left) (ht : Derives .term ts c) :
    Derives .category (ps ++ ts) (Written.attach left c) := by
  cases h with
  | start => exact .single ht
  | slash h =>
    rw [List.append_assoc, List.singleton_append]
    exact .slash h ht

theorem derives_of_readTerm {fuel : Nat}
    (hinner : ∀ {cs c rest}, readTerms fuel none cs = .ok (c, rest) →
      ∃ ts, Derives .category ts c ∧ cs = ts ++ rest)
    (h : readTerm fuel cs = .ok (c, rest)) : ∃ ts, Derives .term ts c ∧ cs = ts ++ rest := by
  unfold readTerm at h
  split at h
  · split at h
    · cases h
    · rename_i inner hread
      obtain ⟨ts, hts, rfl⟩ := hinner hread
      obtain ⟨hs, head, hhs, htakes, rfl⟩ := isHead_of_readClosing h
      exact ⟨_, .group hts hhs htakes, by simp⟩
  · exact derives_of_readAtom h

theorem derives_of_readTerms {fuel : Nat} {ps : List Char} {left : Option (Written × Direction)}
    (hps : Precedes ps left) (h : readTerms fuel left cs = .ok (c, rest)) :
    ∃ ts, Derives .category (ps ++ ts) c ∧ cs = ts ++ rest := by
  induction fuel generalizing ps left cs c rest with
  | zero => cases h
  | succ fuel ih =>
    rw [readTerms_succ] at h
    split at h
    · cases h
    · rename_i term rest' hterm
      obtain ⟨ts, hts, rfl⟩ := derives_of_readTerm (ih .start) hterm
      have hcat : Derives .category (ps ++ ts) (attach left term) := hps.attach hts
      unfold readMore at h
      split at h
      · cases h
        exact ⟨ts, hcat, rfl⟩
      · -- What has been read so far stands before the next term, with the slash.
        rename_i d rest'' hslash
        obtain ⟨us, hus, rfl⟩ := ih (.slash hcat) h
        refine ⟨ts ++ d.slash :: us, ?_, ?_⟩
        · simpa using hus
        · rw [readSlash?_eq_some hslash]
          simp

/-! ## What is derived is read -/

/-- With fuel for its length, a text is read to its end. A term is read at once. Of a category all
    terms are read, and what fuel is left is there to go on with. -/
def Reads : Nonterminal → List Char → Written → Prop
  | .term, cs, c => ∀ fuel rest, StartsIn follow rest → cs.length ≤ fuel →
      readTerm fuel (cs ++ rest) = .ok (c, rest)
  | .category, cs, c => ∀ fuel rest, StartsIn follow rest → cs.length < fuel →
      ∃ left, fuel ≤ left + cs.length ∧
        readTerms fuel none (cs ++ rest) = readMore left c rest

theorem reads_atom {name fs hs : List Char} {feature : Feature} {head : Option Var}
    (hne : name ≠ []) (hname : ∀ c ∈ name, IsAtomLetter c) (hfeature : IsFeature fs feature)
    (hhead : IsHead hs head) :
    Reads .term (name ++ (fs ++ hs)) (.atom (String.ofList name) feature head) := by
  intro fuel rest hrest _
  rw [List.append_assoc, List.append_assoc]
  have hread := readAtom_of_atom hne hname hfeature hhead hrest
  obtain ⟨n, name, rfl⟩ := List.exists_cons_of_ne_nil hne
  rw [List.cons_append] at hread ⊢
  unfold readTerm
  split
  · -- The name of an atom does not begin with a parenthesis.
    rename_i heq
    cases heq
    exact absurd rfl (hname '(' List.mem_cons_self).ne_parenthesis.1
  · exact hread

theorem reads_group {cs hs : List Char} {c c' : Written} {head : Option Var}
    (hc : Reads .category cs c) (hhead : IsHead hs head) (htakes : TakesHead head c c') :
    Reads .term ('(' :: (cs ++ ')' :: hs)) c' := by
  intro fuel rest hrest hfuel
  have hlt : cs.length < fuel := by
    simp only [List.length_cons, List.length_append] at hfuel
    omega
  obtain ⟨left, -, hread⟩ := hc fuel (')' :: (hs ++ rest)) (startsIn_cons.2 (by decide)) hlt
  have hmore : readMore left c (')' :: (hs ++ rest)) = .ok (c, ')' :: (hs ++ rest)) := rfl
  rw [List.cons_append, List.append_assoc, List.cons_append]
  simp only [readTerm, hread, hmore, readClosing, hhead.reads hrest, overrideHead_iff.2 htakes]

theorem readTerms_of_reads {fuel : Nat} {left : Option (Written × Direction)}
    (hc : Reads .term cs c) (hrest : StartsIn follow rest) (hfuel : cs.length ≤ fuel) :
    readTerms (fuel + 1) left (cs ++ rest) = readMore fuel (attach left c) rest := by
  rw [readTerms_succ, hc fuel rest hrest hfuel]

theorem Derives.reads {n : Nonterminal} (h : Derives n cs c) : Reads n cs c := by
  induction h with
  | atom hne hname hfeature hhead => exact reads_atom hne hname hfeature hhead
  | group hc hhead htakes ih => exact reads_group ih hhead htakes
  | single hc ih =>
    intro fuel rest hrest hfuel
    -- A term takes one unit of fuel and has a character at least to pay for it.
    have hpos := hc.length_pos
    obtain ⟨left, rfl⟩ : ∃ left, fuel = left + 1 := ⟨fuel - 1, by omega⟩
    exact ⟨left, by omega, readTerms_of_reads ih hrest (by omega)⟩
  | slash hl ht ihl iht =>
    rename_i ls ts l t d
    intro fuel rest hrest hfuel
    have hlen : (ls ++ d.slash :: ts).length = ls.length + ts.length + 1 := by
      rw [List.length_append, List.length_cons]
      omega
    rw [hlen] at hfuel ⊢
    -- The slash may follow the category on its left, which is read first.
    have hslash : StartsIn follow (d.slash :: (ts ++ rest)) := startsIn_cons.2 (slash_mem_follow d)
    obtain ⟨more, hmore, hread⟩ := ihl fuel _ hslash (by omega)
    obtain ⟨left, rfl⟩ : ∃ left, more = left + 1 := ⟨more - 1, by omega⟩
    refine ⟨left, by omega, ?_⟩
    calc readTerms fuel none ((ls ++ d.slash :: ts) ++ rest)
        = readTerms fuel none (ls ++ d.slash :: (ts ++ rest)) := by
          rw [List.append_assoc, List.cons_append]
      _ = readMore (left + 1) l (d.slash :: (ts ++ rest)) := hread
      _ = readTerms (left + 1) (some (l, d)) (ts ++ rest) := readMore_slash _ _ _ _
      _ = readMore left (.func d l t none) rest := readTerms_of_reads iht hrest (by omega)

/-! ## Missing heads -/

theorem toHeaded_iff {w : Written} {c : Headed} : w.toHeaded = .ok c ↔ Completes w c := by
  induction w generalizing c with
  | atom name feature head =>
    cases head with
    | none =>
      constructor
      · rintro ⟨⟩
      · rintro ⟨⟩
    | some h =>
      constructor
      · rintro ⟨⟩
        exact .atom
      · rintro ⟨⟩
        rfl
  | func d r a head ihr iha =>
    unfold toHeaded
    constructor
    · intro h
      split at h
      · cases h
      · rename_i r' hr
        split at h
        · cases h
        · rename_i a' ha
          cases h
          cases head with
          | none => exact .ofResult (ihr.1 hr) (iha.1 ha)
          | some h => exact .written (ihr.1 hr) (iha.1 ha)
    · intro h
      cases h with
      | written hr ha =>
        rw [ihr.2 hr, iha.2 ha]
        rfl
      | ofResult hr ha =>
        rw [ihr.2 hr, iha.2 ha]
        rfl

/-! ## Whole texts -/

theorem readAll_iff : readAll cs = .ok c ↔ Derives .category cs c := by
  unfold readAll
  constructor
  · intro h
    split at h
    · cases h
    · rename_i hread
      cases h
      obtain ⟨ts, hts, hcs⟩ := derives_of_readTerms .start hread
      rw [hcs, List.append_nil]
      exact hts
    · cases h
  · intro h
    obtain ⟨left, -, hread⟩ := h.reads (cs.length + 1) [] (startsIn_nil follow) (Nat.lt_succ_self _)
    rw [List.append_nil] at hread
    rw [hread]
    rfl

/-- No text is derived in two ways. -/
theorem Derives.unique {c' : Written} (h : Derives .category cs c) (h' : Derives .category cs c') :
    c = c' := by
  have heq := (readAll_iff.2 h).symm.trans (readAll_iff.2 h')
  cases heq
  rfl

theorem plain_parse_iff {s : String} {p : Plain} :
    Plain.parse s = .ok p ↔ ∃ w, Derives .category (trim s.toList) w ∧ w.plain = p := by
  unfold Plain.parse
  constructor
  · intro h
    dsimp only at h
    split at h
    · cases h
    · rename_i w hw
      cases h
      exact ⟨w, readAll_iff.1 hw, rfl⟩
  · rintro ⟨w, hw, rfl⟩
    dsimp only
    rw [readAll_iff.2 hw]

theorem headed_parse_iff {s : String} {c : Headed} :
    Headed.parse s = .ok c ↔ ∃ w, Derives .category (trim s.toList) w ∧ Completes w c := by
  unfold Headed.parse
  constructor
  · intro h
    dsimp only at h
    split at h
    · cases h
    · rename_i w hw
      split at h
      · cases h
      · rename_i hheaded
        cases h
        exact ⟨w, readAll_iff.1 hw, toHeaded_iff.1 hheaded⟩
  · rintro ⟨w, hw, hheaded⟩
    dsimp only
    rw [readAll_iff.2 hw]
    dsimp only
    rw [toHeaded_iff.2 hheaded]

/-- The two readers of categories accept their grammar and nothing else. A text is read without the
    blanks around it, and the grammar derives one category from it at most. The plain reader gives
    that category without its heads. The headed reader gives it with every head filled in, which it
    can do just if every atom has one, and then the plain reader gives the same category. -/
theorem parse_iff_derives (s : String) :
    Trims s.toList (trim s.toList) ∧
    (∀ w w', Derives .category (trim s.toList) w → Derives .category (trim s.toList) w' → w = w') ∧
    (∀ p, Plain.parse s = .ok p ↔ ∃ w, Derives .category (trim s.toList) w ∧ w.plain = p) ∧
    (∀ c, Headed.parse s = .ok c ↔ ∃ w, Derives .category (trim s.toList) w ∧ Completes w c) ∧
    ((∃ c, Headed.parse s = .ok c) ↔ ∃ w, Derives .category (trim s.toList) w ∧ AtomsHeaded w) ∧
    (∀ c, Headed.parse s = .ok c → Plain.parse s = .ok c.plain) := by
  refine ⟨trims_trim _, fun w w' h h' => h.unique h', fun p => plain_parse_iff,
    fun c => headed_parse_iff, ?_, ?_⟩
  · constructor
    · rintro ⟨c, hc⟩
      obtain ⟨w, hw, hheaded⟩ := headed_parse_iff.1 hc
      exact ⟨w, hw, (exists_completes_iff w).1 ⟨c, hheaded⟩⟩
    · rintro ⟨w, hw, hheaded⟩
      obtain ⟨c, hc⟩ := (exists_completes_iff w).2 hheaded
      exact ⟨c, headed_parse_iff.2 ⟨w, hw, hc⟩⟩
  · intro c hc
    obtain ⟨w, hw, hheaded⟩ := headed_parse_iff.1 hc
    exact plain_parse_iff.2 ⟨w, hw, hheaded.plain_eq.symm⟩

/-- Blanks around the text and in a head, a value and a variable as features, two functions that
    take the heads of their results, and heads after parentheses: of an atom without a head, of an
    atom with another one, and of a function whose result has another one. -/
def sampleText : String := " (S[dcl]{0}\\(NP){ 1 })/((N{1}/(N[2]{4}){3}){5}) "

def sampleHeaded : Headed :=
  .func .forward
    (.func .backward (.atom "S" (.value "dcl") 0) (.atom "NP" .unspecified 1) 0)
    (.func .forward (.atom "N" .unspecified 1) (.atom "N" (.var 2) 3) 5) 0

theorem parse_iff_derives_sample :
    Headed.parse sampleText = .ok sampleHeaded ∧
      Plain.parse sampleText = .ok sampleHeaded.plain := by
  have hread : Headed.parse sampleText = .ok sampleHeaded := by decide +kernel
  exact ⟨hread, (parse_iff_derives sampleText).2.2.2.2.2 _ hread⟩

end Categorial.Written
