import Mathlib.Logic.Function.Basic
import Mathlib.Logic.Nontrivial.Basic

/-!
# Pictures on a background

A picture says of some places what is there.  `Overlay P b b'` says that `b'` shows the picture `P`
where it has something, and the background `b` everywhere else.  A picture is put together from
parts that do not overlap (`Overlay.trans`), and two ways to draw that agree on every background
draw the same picture (`Overlay.le_of_forall`).
-/

namespace KontolOS.Lib

universe u v

open Function

/-- `b'` is `b` with `P` drawn on it, where `P i a` says that the picture has `a` in the place
`i`. -/
structure Overlay {ι : Type u} {α : Type v} (P : ι → α → Prop) (b b' : ι → α) : Prop where
  /-- what the picture has is shown -/
  drawn : ∀ i a, P i a → b' i = a
  /-- where it has nothing, the background is seen -/
  kept : ∀ i, (∀ a, ¬ P i a) → b' i = b i

namespace Overlay

variable {ι : Type u} {α : Type v} {P Q : ι → α → Prop} {b b' b'' : ι → α}

theorem congr (h : Overlay P b b') (hPQ : ∀ i a, P i a ↔ Q i a) : Overlay Q b b' where
  drawn i a hQ := h.drawn i a ((hPQ i a).mpr hQ)
  kept i hno := h.kept i fun a hP ↦ hno a ((hPQ i a).mp hP)

/-- An empty picture. -/
theorem refl (h : ∀ i a, ¬ P i a) (b : ι → α) : Overlay P b b where
  drawn i a hP := absurd hP (h i a)
  kept _ _ := rfl

/-- A picture of one place. -/
theorem single [DecidableEq ι] (b : ι → α) (i : ι) (a : α) :
    Overlay (fun j c ↦ j = i ∧ c = a) b (update b i a) where
  drawn := by
    rintro _ _ ⟨rfl, rfl⟩
    exact update_self _ _ _
  kept j hno := update_of_ne (fun hj ↦ hno a ⟨hj, rfl⟩) _ _

/-- **A picture on a picture**, if they do not overlap. -/
theorem trans (h : Overlay P b b') (h' : Overlay Q b' b'') (hdisj : ∀ i a c, P i a → ¬ Q i c) :
    Overlay (fun i a ↦ P i a ∨ Q i a) b b'' where
  drawn i a hPQ := by
    cases hPQ with
    | inl hP => exact (h'.kept i fun c ↦ hdisj i a c hP).trans (h.drawn i a hP)
    | inr hQ => exact h'.drawn i a hQ
  kept i hno := by
    have hQ : b'' i = b' i := h'.kept i fun a hQ ↦ hno a (.inr hQ)
    exact hQ.trans (h.kept i fun a hP ↦ hno a (.inl hP))

/-- **On every background** they can look the same only if the one has what the other has. -/
theorem le_of_forall [Nontrivial α] (h : ∀ b, ∃ b', Overlay P b b' ∧ Overlay Q b b') {i : ι} {a : α}
    (hP : P i a) : Q i a := by
  obtain ⟨c, hc⟩ := exists_ne a
  obtain ⟨b', hb', hQ⟩ := h fun _ ↦ c
  have hshown : b' i = a := hb'.drawn i a hP
  by_cases hno : ∀ d, ¬ Q i d
  · exact absurd ((hQ.kept i hno).symm.trans hshown) hc
  · obtain ⟨d, hd⟩ := not_forall_not.mp hno
    rw [hQ.drawn i d hd] at hshown
    exact hshown ▸ hd

end Overlay

end KontolOS.Lib
