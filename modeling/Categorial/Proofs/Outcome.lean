/-
  Categorial.Proofs.Outcome

  Outcomes of what may fail.  A sequence of steps gives a result just if every step does
  (`bind_eq_ok_iff`), and so does a list of readings (`mapM_eq_ok_iff`) or a fold
  (`foldlM_eq_ok_iff`).  Of a list of readings the first that fails is reported
  (`mapM_eq_error_iff`).  Two sequences whose steps are alike have outcomes that are alike
  (`Alike.bind`, `Alike.foldlM`).
-/

import Mathlib.Data.List.Forall2

namespace Categorial

/-! ## Results -/

section Results

variable {ε α β γ : Type}

theorem bind_eq_ok_iff {x : Except ε α} {f : α → Except ε β} {b : β} :
    x >>= f = .ok b ↔ ∃ a, x = .ok a ∧ f a = .ok b := by
  cases x with
  | error e => exact ⟨fun h => (nomatch h), fun ⟨_, h, _⟩ => (nomatch h)⟩
  | ok a => exact ⟨fun h => ⟨a, rfl, h⟩, fun ⟨_, h, h'⟩ => by cases h; exact h'⟩

theorem map_eq_ok_iff {x : Except ε α} {f : α → β} {b : β} :
    x.map f = .ok b ↔ ∃ a, x = .ok a ∧ f a = b := by
  cases x with
  | error e => exact ⟨nofun, fun ⟨_, h, _⟩ => (nomatch h)⟩
  | ok a => exact ⟨fun h => ⟨a, rfl, Except.ok.inj h⟩, fun ⟨_, h, h'⟩ => by cases h; rw [← h']; rfl⟩

theorem map_eq_error_iff {x : Except ε α} {f : α → β} {e : ε} :
    x.map f = .error e ↔ x = .error e := by
  cases x <;> simp [Except.map]

theorem mapError_eq_ok_iff {ε' : Type} {x : Except ε α} {f : ε → ε'} {a : α} :
    x.mapError f = .ok a ↔ x = .ok a := by
  cases x <;> simp [Except.mapError]

theorem mapError_eq_error_iff {ε' : Type} {x : Except ε α} {f : ε → ε'} {e : ε'} :
    x.mapError f = .error e ↔ ∃ cause, x = .error cause ∧ e = f cause := by
  cases x <;> simp [Except.mapError, eq_comm]

/-- What is read off elements one by one has what each reading gives. -/
theorem forall_of_forall₂_right {R : α → β → Prop} {q : β → Prop} {as : List α} {bs : List β}
    (h : List.Forall₂ R as bs) (hR : ∀ a b, R a b → q b) : ∀ b ∈ bs, q b := by
  induction h with
  | nil => exact nofun
  | cons hab _ ih => exact List.forall_mem_cons.2 ⟨hR _ _ hab, ih⟩

theorem exists_of_forall₂_left {R : α → β → Prop} {as : List α} {bs : List β}
    (h : List.Forall₂ R as bs) : ∀ a ∈ as, ∃ b, R a b := by
  induction h with
  | nil => exact nofun
  | cons hab _ ih => exact List.forall_mem_cons.2 ⟨⟨_, hab⟩, ih⟩

theorem mapM_eq_ok_iff {f : α → Except ε β} {as : List α} {bs : List β} :
    as.mapM f = .ok bs ↔ List.Forall₂ (fun a b => f a = .ok b) as bs := by
  induction as generalizing bs with
  | nil =>
    rw [List.mapM_nil, List.forall₂_nil_left_iff]
    exact ⟨fun h => by cases h; rfl, fun h => by rw [h]; rfl⟩
  | cons a as ih =>
    rw [List.mapM_cons, List.forall₂_cons_left_iff, bind_eq_ok_iff]
    refine exists_congr fun b => ?_
    rw [bind_eq_ok_iff]
    constructor
    · rintro ⟨hb, bs', hbs', h⟩
      cases h
      exact ⟨bs', hb, ih.1 hbs', rfl⟩
    · rintro ⟨bs', hb, hbs', rfl⟩
      exact ⟨hb, bs', ih.2 hbs', rfl⟩

/-- Some reading fails, and all readings before it give a result. -/
def FirstFails (f : α → Except ε β) (e : ε) (as : List α) : Prop :=
  ∃ before a after, as = before ++ a :: after ∧ (∀ x ∈ before, ∃ b, f x = .ok b) ∧ f a = .error e

theorem firstFails_cons {f : α → Except ε β} {e : ε} {x : α} {as : List α} :
    FirstFails f e (x :: as) ↔ f x = .error e ∨ (∃ b, f x = .ok b) ∧ FirstFails f e as := by
  constructor
  · rintro ⟨before, a, after, heq, hbefore, ha⟩
    cases before with
    | nil =>
      obtain ⟨rfl, rfl⟩ := List.cons.inj heq
      exact .inl ha
    | cons y before =>
      obtain ⟨rfl, rfl⟩ := List.cons.inj heq
      obtain ⟨hx, hbefore⟩ := List.forall_mem_cons.1 hbefore
      exact .inr ⟨hx, before, a, after, rfl, hbefore, ha⟩
  · rintro (hx | ⟨hx, before, a, after, rfl, hbefore, ha⟩)
    · exact ⟨[], x, as, rfl, nofun, hx⟩
    · exact ⟨x :: before, a, after, rfl, List.forall_mem_cons.2 ⟨hx, hbefore⟩, ha⟩

/-- The first reading that fails makes the whole list of readings fail. -/
theorem mapM_eq_error_iff {f : α → Except ε β} {as : List α} {e : ε} :
    as.mapM f = .error e ↔ FirstFails f e as := by
  induction as with
  | nil =>
    rw [List.mapM_nil]
    exact ⟨nofun, fun ⟨before, a, after, h, _⟩ => by cases before <;> cases h⟩
  | cons x as ih =>
    rw [List.mapM_cons, firstFails_cons, ← ih]
    cases hx : f x with
    | error e' => simp [bind, Except.bind]
    | ok b => cases as.mapM f <;> simp [bind, Except.bind, pure, Except.pure]

/-- A fold whose steps read something off an element and take it in gives what has been taken in
    after all of them. -/
theorem foldlM_eq_ok_iff {step : γ → α → Except ε γ} {R : α → β → Prop} {take : γ → β → γ}
    (hstep : ∀ s a s', step s a = .ok s' ↔ ∃ b, R a b ∧ s' = take s b) {as : List α} {s s' : γ} :
    as.foldlM step s = .ok s' ↔ ∃ bs, List.Forall₂ R as bs ∧ s' = bs.foldl take s := by
  induction as generalizing s with
  | nil =>
    rw [List.foldlM_nil]
    constructor
    · intro h
      cases h
      exact ⟨[], .nil, rfl⟩
    · rintro ⟨bs, hbs, rfl⟩
      cases hbs
      rfl
  | cons a as ih =>
    rw [List.foldlM_cons, bind_eq_ok_iff]
    constructor
    · rintro ⟨t, ht, h⟩
      obtain ⟨b, hb, rfl⟩ := (hstep _ _ _).1 ht
      obtain ⟨bs, hbs, rfl⟩ := ih.1 h
      exact ⟨b :: bs, .cons hb hbs, rfl⟩
    · rintro ⟨bs, hbs, rfl⟩
      cases hbs with
      | cons hb hbs => exact ⟨_, (hstep _ _ _).2 ⟨_, hb, rfl⟩, ih.2 ⟨_, hbs, rfl⟩⟩

end Results

/-! ## Two outcomes -/

/-- Two outcomes are alike: both are errors, or both are results, and these are related. -/
inductive Alike {ε α β : Type} (R : α → β → Prop) : Except ε α → Except ε β → Prop
  | error {e e' : ε} : Alike R (.error e) (.error e')
  | ok {a : α} {b : β} (h : R a b) : Alike R (.ok a) (.ok b)

namespace Alike

variable {ε α β γ δ : Type} {R : α → β → Prop} {S : γ → δ → Prop} {x : Except ε α} {y : Except ε β}

theorem bind {k : α → Except ε γ} {k' : β → Except ε δ} (h : Alike R x y)
    (hk : ∀ a b, R a b → Alike S (k a) (k' b)) : Alike S (x >>= k) (y >>= k') := by
  cases h with
  | error => exact .error
  | ok h => exact hk _ _ h

theorem foldlM {step : α → γ → Except ε α} {step' : β → δ → Except ε β} {cs : List γ} {ds : List δ}
    {a : α} {b : β} (hall : List.Forall₂ S cs ds) (h : R a b)
    (hstep : ∀ a b c d, R a b → S c d → Alike R (step a c) (step' b d)) :
    Alike R (cs.foldlM step a) (ds.foldlM step' b) := by
  induction hall generalizing a b with
  | nil => exact .ok h
  | cons hcd _ ih =>
    rw [List.foldlM_cons, List.foldlM_cons]
    exact (hstep _ _ _ _ h hcd).bind fun _ _ h' => ih h'

theorem of_ok_iff {g : α → β} (h : ∀ b, y = .ok b ↔ ∃ a, x = .ok a ∧ b = g a) :
    Alike (fun a b => x = .ok a ∧ b = g a) x y := by
  cases x with
  | ok a =>
    rw [(h (g a)).2 ⟨a, rfl, rfl⟩]
    exact .ok ⟨rfl, rfl⟩
  | error e =>
    cases y with
    | error e' => exact .error
    | ok b =>
      obtain ⟨a, ha, -⟩ := (h b).1 rfl
      cases ha

theorem ok_iff {x y : Except ε α} (h : Alike Eq x y) (a : α) : x = .ok a ↔ y = .ok a := by
  cases h with
  | error => exact ⟨nofun, nofun⟩
  | ok h => rw [h]

end Alike

end Categorial
