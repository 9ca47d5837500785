import Mathlib.Data.List.Forall2
import ProjectReview.Journal

set_option autoImplicit false

/-! # Outcomes that correspond

`SameOutcome rel x y` says that two computations end alike: both fail, with the same failure, or
both succeed, with values that `rel` relates. The relation goes through everything that computations
are put together from (`bind`, `map`, `mapM`), so two computations of the same shape are compared
step by step, and a failure never has to be looked at on its own. -/

namespace ProjectReview

/-- A computation of two steps succeeds just when both of them do. -/
theorem bind_eq_ok {ε α β : Type} {x : Except ε α} {f : α → Except ε β} {b : β} :
    x.bind f = .ok b ↔ ∃ a, x = .ok a ∧ f a = .ok b := by
  cases x with
  | error e => simp [Except.bind]
  | ok a => simp [Except.bind]

theorem map_eq_ok {ε α β : Type} {x : Except ε α} {f : α → β} {b : β} :
    x.map f = .ok b ↔ ∃ a, x = .ok a ∧ f a = b := by
  cases x with
  | error e => simp [Except.map]
  | ok a => simp [Except.map]

theorem map_map {ε α β γ : Type} (x : Except ε α) (f : α → β) (g : β → γ) :
    (x.map f).map g = x.map fun a => g (f a) := by
  cases x <;> rfl

theorem map_bind {ε α β γ : Type} (x : Except ε α) (f : α → Except ε β) (g : β → γ) :
    (x.bind f).map g = x.bind fun a => (f a).map g := by
  cases x <;> rfl

theorem toOption_eq_some {ε α : Type} {x : Except ε α} {a : α} :
    x.toOption = some a ↔ x = .ok a := by
  cases x with
  | error e => simp [Except.toOption]
  | ok b => simp [Except.toOption]

theorem mapError_eq_ok {ε ε' α : Type} {x : Except ε α} {f : ε → ε'} {a : α} :
    x.mapError f = .ok a ↔ x = .ok a := by
  cases x with
  | error e => simp [Except.mapError]
  | ok b => simp [Except.mapError]

/-- The computation gives a result. -/
def Succeeds {ε α : Type} (x : Except ε α) : Prop :=
  ∃ a, x = .ok a

theorem succeeds_ok {ε α : Type} (a : α) : Succeeds (.ok a : Except ε α) :=
  ⟨a, rfl⟩

theorem not_succeeds_error {ε α : Type} (e : ε) : ¬ Succeeds (.error e : Except ε α) := by
  rintro ⟨a, h⟩
  cases h

theorem Succeeds.bind {ε α β : Type} {x : Except ε α} {f : α → Except ε β} (hx : Succeeds x)
    (hf : ∀ a, x = .ok a → Succeeds (f a)) : Succeeds (x.bind f) := by
  obtain ⟨a, rfl⟩ := hx
  exact hf a rfl

/-- When computations along a list succeed, elements related to those of the list are related to the
    results through them. -/
theorem forall₂_of_mapM {ε α β γ : Type} {rel : γ → α → Prop} {f : α → Except ε β} {zs : List γ}
    {xs : List α} {ys : List β} (hrel : List.Forall₂ rel zs xs) (h : xs.mapM f = .ok ys) :
    List.Forall₂ (fun z y => ∃ x, rel z x ∧ f x = .ok y) zs ys := by
  induction hrel generalizing ys with
  | nil =>
    obtain rfl : [] = ys := Except.ok.inj h
    exact .nil
  | cons hzx _ ih =>
    rw [List.mapM_cons] at h
    obtain ⟨y, hy, h⟩ := bind_eq_ok.1 h
    obtain ⟨rest, hrest, h⟩ := bind_eq_ok.1 h
    rw [← Except.ok.inj h]
    exact .cons ⟨_, hzx, hy⟩ (ih hrest)

/-- What every single result has, the results along a list have. -/
theorem forall_mem_of_mapM {ε α β : Type} {f : α → Except ε β} {p : β → Prop}
    (hp : ∀ x y, f x = .ok y → p y) {xs : List α} {ys : List β} (h : xs.mapM f = .ok ys) :
    ∀ y ∈ ys, p y := by
  have hall := forall₂_of_mapM (List.forall₂_same.2 fun x _ => rfl) h
  intro y hy
  obtain ⟨i, hi, rfl⟩ := List.getElem_of_mem hy
  obtain ⟨x, -, hx⟩ := hall.get (hall.length_eq ▸ hi) hi
  exact hp x _ hx

/-- The outcome of computations one after the other depends on their outcomes alone. -/
theorem Journaled.outcome_mapM {ε α β : Type} (f : α → Journaled ε β) (xs : List α) :
    (xs.mapM f).outcome = xs.mapM fun x => (f x).outcome := by
  induction xs with
  | nil => rfl
  | cons x xs ih =>
    simp only [List.mapM_cons, outcome_bind, outcome_pure, ih]
    rfl

/-- Both outcomes are the same failure, or values that `rel` relates. -/
inductive SameOutcome {ε α β : Type} (rel : α → β → Prop) : Except ε α → Except ε β → Prop
  | ok {a : α} {b : β} (h : rel a b) : SameOutcome rel (.ok a) (.ok b)
  | error (e : ε) : SameOutcome rel (.error e) (.error e)

namespace SameOutcome

variable {ε α β γ α' β' : Type} {rel : α → β → Prop} {x : Except ε α} {y : Except ε β}

theorem refl (x : Except ε α) : SameOutcome (· = ·) x x := by
  cases x with
  | ok a => exact .ok rfl
  | error e => exact .error e

theorem imp {rel' : α → β → Prop} (h : SameOutcome rel x y) (himp : ∀ a b, rel a b → rel' a b) :
    SameOutcome rel' x y := by
  cases h with
  | ok h => exact .ok (himp _ _ h)
  | error e => exact .error e

/-- The values that are related are those of the two outcomes. -/
theorem with_ok (h : SameOutcome rel x y) :
    SameOutcome (fun a b => x = .ok a ∧ y = .ok b ∧ rel a b) x y := by
  cases h with
  | ok h => exact .ok ⟨rfl, rfl, h⟩
  | error e => exact .error e

/-- Where the one succeeds, so does the other. -/
theorem exists_ok {a : α} (h : SameOutcome rel x y) (hx : x = .ok a) :
    ∃ b, y = .ok b ∧ rel a b := by
  cases h with
  | ok h => exact ⟨_, rfl, Except.ok.inj hx ▸ h⟩
  | error e => cases hx

theorem bind {rel' : α' → β' → Prop} {f : α → Except ε α'} {g : β → Except ε β'}
    (h : SameOutcome rel x y) (hfg : ∀ a b, rel a b → SameOutcome rel' (f a) (g b)) :
    SameOutcome rel' (x.bind f) (y.bind g) := by
  cases h with
  | ok h => exact hfg _ _ h
  | error e => exact .error e

theorem bind_eq {f : α → Except ε γ} {g : β → Except ε γ} (h : SameOutcome rel x y)
    (hfg : ∀ a b, rel a b → f a = g b) : x.bind f = y.bind g := by
  cases h with
  | ok h => exact hfg _ _ h
  | error e => rfl

theorem bind_right {rel' : α → β' → Prop} {g : β → Except ε β'} (h : SameOutcome rel x y)
    (hg : ∀ a b, rel a b → SameOutcome rel' (.ok a) (g b)) : SameOutcome rel' x (y.bind g) := by
  cases h with
  | ok h => exact hg _ _ h
  | error e => exact .error e

theorem map {rel' : α' → β' → Prop} {f : α → α'} {g : β → β'} (h : SameOutcome rel x y)
    (hfg : ∀ a b, rel a b → rel' (f a) (g b)) : SameOutcome rel' (x.map f) (y.map g) := by
  cases h with
  | ok h => exact .ok (hfg _ _ h)
  | error e => exact .error e

theorem map_left {rel' : α' → β → Prop} {f : α → α'} (h : SameOutcome rel x y)
    (hf : ∀ a b, rel a b → rel' (f a) b) : SameOutcome rel' (x.map f) y := by
  cases h with
  | ok h => exact .ok (hf _ _ h)
  | error e => exact .error e

theorem of_map {rel' : α' → β' → Prop} {f : α → α'} {g : β → β'}
    (h : SameOutcome rel' (x.map f) (y.map g)) : SameOutcome (fun a b => rel' (f a) (g b)) x y := by
  cases x with
  | ok a =>
    cases y with
    | ok b => cases h with | ok h => exact .ok h
    | error e => cases h
  | error e =>
    cases y with
    | ok b => cases h
    | error e' => cases h with | error => exact .error e

/-- Computations that correspond one by one correspond as a whole. -/
theorem mapM {related : α' → β' → Prop} {f : α' → Except ε α} {g : β' → Except ε β}
    {xs : List α'} {ys : List β'} (h : List.Forall₂ related xs ys)
    (hfg : ∀ x y, related x y → SameOutcome rel (f x) (g y)) :
    SameOutcome (List.Forall₂ rel) (xs.mapM f) (ys.mapM g) := by
  induction h with
  | nil => exact .ok .nil
  | cons hxy _ ih =>
    rw [List.mapM_cons, List.mapM_cons]
    refine (hfg _ _ hxy).bind fun a b hab => ?_
    exact ih.bind fun as bs hall => .ok (.cons hab hall)

/-- Outcomes that correspond, seen through functions that the relation makes equal, are equal. -/
theorem map_eq {f : α → γ} {g : β → γ} (h : SameOutcome rel x y)
    (hfg : ∀ a b, rel a b → f a = g b) : x.map f = y.map g := by
  cases h with
  | ok h => exact congrArg Except.ok (hfg _ _ h)
  | error e => rfl

end SameOutcome

end ProjectReview
