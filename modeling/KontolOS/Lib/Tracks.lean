import Mathlib.Logic.Basic

/-!
# Computations with errors, and without

A computation that names its errors is compared with one that only fails.  `Tracks stop R x y` says
that `x` does what `y` does: it fails if `y` fails, and gives a result related by `R` if `y` gives
one, unless it stops with an error that `stop` allows.  The rules follow the structure of
programs.  If no error is allowed, `x` and `y` are the same computation (`Tracks.toOption_eq`).
-/

namespace KontolOS.Lib

universe u

variable {ε α β γ δ : Type u}

/-- A step that may fail, with the error it fails with. -/
def orError (e : ε) : Option α → Except ε α
  | none => .error e
  | some a => .ok a

theorem eq_ok_of_toOption {x : Except ε α} {a : α} (h : x.toOption = some a) : x = .ok a := by
  cases x with
  | error e => cases h
  | ok b =>
      cases h
      rfl

/-- `x` does what `y` does, up to `R`, or stops with an error that is allowed. -/
def Tracks (stop : ε → Prop) (R : α → β → Prop) (x : Except ε α) (y : Option β) : Prop :=
  match x with
  | .error e => stop e ∨ y = none
  | .ok a => ∃ b, y = some b ∧ R a b

namespace Tracks

variable {stop : ε → Prop} {R : α → β → Prop} {S : γ → δ → Prop} {x : Except ε α} {y : Option β}
  {a : α} {b : β} {e : ε}

theorem ok (h : R a b) : Tracks stop R (.ok a) (some b) := ⟨b, rfl, h⟩

theorem result (h : R a b) : Tracks stop R (pure a : Except ε α) (pure b) := ⟨b, rfl, h⟩

theorem fail (e : ε) : Tracks stop R (.error e) (none : Option β) := .inr rfl

theorem stopped (h : stop e) (y : Option β) : Tracks stop R (.error e) y := .inl h

theorem orError (e : ε) (y : Option β) : Tracks stop Eq (Lib.orError e y) y := by
  cases y with
  | none => exact .inr rfl
  | some b => exact ⟨b, rfl, rfl⟩

theorem mono {R' : α → β → Prop} (h : Tracks stop R x y) (hR : ∀ a b, R a b → R' a b) :
    Tracks stop R' x y := by
  cases x with
  | error e => exact h
  | ok a =>
      obtain ⟨b, hb, hab⟩ := h
      exact ⟨b, hb, hR a b hab⟩

/-- **One step after the other.** -/
theorem bind {f : α → Except ε γ} {g : β → Option δ} (h : Tracks stop R x y)
    (hf : ∀ a b, R a b → Tracks stop S (f a) (g b)) : Tracks stop S (x >>= f) (y >>= g) := by
  cases x with
  | error e =>
      rcases h with h | rfl
      · exact .inl h
      · exact .inr rfl
  | ok a =>
      obtain ⟨b, rfl, hab⟩ := h
      exact hf a b hab

/-- The same step in both. -/
theorem bind_eq {x : Except ε α} {y : Option α} {f : α → Except ε γ} {g : α → Option δ}
    (h : Tracks stop Eq x y) (hf : ∀ a, Tracks stop S (f a) (g a)) :
    Tracks stop S (x >>= f) (y >>= g) := by
  refine h.bind ?_
  rintro a _ rfl
  exact hf a

theorem map {f : α → γ} {g : β → δ} (h : Tracks stop R x y) (hf : ∀ a b, R a b → S (f a) (g b)) :
    Tracks stop S (x.map f) (y.map g) := by
  cases x with
  | error e =>
      rcases h with h | rfl
      · exact .inl h
      · exact .inr rfl
  | ok a =>
      obtain ⟨b, rfl, hab⟩ := h
      exact ⟨g b, rfl, hf a b hab⟩

/-- A choice that both make alike. -/
theorem ite {c : Prop} [Decidable c] {x' : Except ε α} {y' : Option β}
    (h : c → Tracks stop R x y) (h' : ¬ c → Tracks stop R x' y') :
    Tracks stop R (if c then x else x') (if c then y else y') := by
  by_cases hc : c
  · rw [if_pos hc, if_pos hc]
    exact h hc
  · rw [if_neg hc, if_neg hc]
    exact h' hc

/-- Where `y` has a result, `x` has one too, or it stops. -/
theorem of_some (h : Tracks stop R x (some b)) :
    (∃ e, stop e ∧ x = .error e) ∨ ∃ a, x = .ok a ∧ R a b := by
  cases x with
  | error e =>
      rcases h with h | h
      · exact .inl ⟨e, h, rfl⟩
      · cases h
  | ok a =>
      obtain ⟨_, ⟨⟩, hab⟩ := h
      exact .inr ⟨a, rfl, hab⟩

/-- **If no error is allowed**, the two are the same. -/
theorem toOption_eq {x : Except ε α} {y : Option α} (h : Tracks stop Eq x y)
    (hstop : ∀ e, ¬ stop e) : x.toOption = y := by
  cases x with
  | error e => exact ((h.resolve_left (hstop e)).symm ▸ rfl)
  | ok a =>
      obtain ⟨_, rfl, rfl⟩ := h
      rfl

end Tracks

end KontolOS.Lib
