import Mathlib.Data.List.Induction

/-!
# Runs of a labelled transition relation

A program that is driven from outside is a relation `step s a s'`: from the state `s`
the action `a` may lead to `s'`.  `Run step s as s'` strings such steps together along
a list of actions.  The induction over runs is done here once, as an invariant rule
and as a simulation rule; a program proof supplies the single step.
-/

namespace KontolOS.Lib

universe u v w

variable {σ : Type u} {τ : Type v} {α : Type w}

/-- The steps from one state to another along a list of actions. -/
inductive Run (step : σ → α → σ → Prop) : σ → List α → σ → Prop
  | /-- No action, no change. -/
    nil (s : σ) : Run step s [] s
  | /-- One step in front of a run. -/
    cons {s s' s'' : σ} {a : α} {as : List α} :
      step s a s' → Run step s' as s'' → Run step s (a :: as) s''

namespace Run

variable {step : σ → α → σ → Prop} {astep : τ → α → τ → Prop} {s s' s'' : σ} {as bs : List α}

/-- **The invariant rule**: what every step preserves holds at the end of a run. -/
theorem invariant {I : σ → Prop} (hstep : ∀ {s a s'}, I s → step s a s' → I s')
    (h : Run step s as s') : I s → I s' := by
  induction h with
  | nil s => exact id
  | cons h₁ _ ih => exact fun hs ↦ ih (hstep hs h₁)

/-- **The invariant rule, with the actions so far**: what holds of the empty run, and is kept when
a step is added to a run, holds of every run. -/
theorem trace_invariant {I : List α → σ → Prop}
    (hstep : ∀ {as s a s'}, I as s → step s a s' → I (as ++ [a]) s')
    (h : Run step s as s') (h₀ : I [] s) : I as s' := by
  suffices hrest : ∀ pre, I pre s → I (pre ++ as) s' from hrest [] h₀
  clear h₀
  induction h with
  | nil s =>
      intro pre hpre
      rwa [List.append_nil]
  | @cons s s' s'' a as h₁ _ ih =>
      intro pre hpre
      rw [List.append_cons]
      exact ih (pre ++ [a]) (hstep hpre h₁)

/-- What every step says of its action holds of every action of a run. -/
theorem forall_mem {P : α → Prop} (hstep : ∀ {s a s'}, step s a s' → P a)
    (h : Run step s as s') : ∀ a ∈ as, P a := by
  induction h with
  | nil s => exact fun a ha ↦ nomatch ha
  | cons h₁ _ ih =>
      intro b hb
      rcases List.mem_cons.mp hb with rfl | hb
      · exact hstep h₁
      · exact ih b hb

/-- Runs compose. -/
theorem append (h₁ : Run step s as s') (h₂ : Run step s' bs s'') :
    Run step s (as ++ bs) s'' := by
  induction h₁ with
  | nil s => exact h₂
  | cons h _ ih => exact .cons h (ih h₂)

/-- A single step is a run. -/
theorem single {a : α} (h : step s a s') : Run step s [a] s' := .cons h (.nil s')

/-- A run may be extended by a step at its end. -/
theorem snoc {a : α} (h₁ : Run step s as s') (h₂ : step s' a s'') :
    Run step s (as ++ [a]) s'' := h₁.append (single h₂)

/-- Weakening the step relation keeps runs. -/
theorem mono {step' : σ → α → σ → Prop} (hsub : ∀ {s a s'}, step s a s' → step' s a s')
    (h : Run step s as s') : Run step' s as s' := by
  induction h with
  | nil s => exact .nil s
  | cons h₁ _ ih => exact .cons (hsub h₁) ih

/-- **The simulation rule**: if every step is matched by an abstract step with the same
action, from related states to related states, then so is every run. -/
theorem simulate {R : σ → τ → Prop}
    (hstep : ∀ {s a s' t}, R s t → step s a s' → ∃ t', astep t a t' ∧ R s' t')
    (h : Run step s as s') : ∀ {t}, R s t → ∃ t', Run astep t as t' ∧ R s' t' := by
  induction h with
  | nil s => exact fun {t} ht ↦ ⟨t, .nil t, ht⟩
  | cons h₁ _ ih =>
      intro t ht
      obtain ⟨t', ht', hR⟩ := hstep ht h₁
      obtain ⟨t'', hrun, hR'⟩ := ih hR
      exact ⟨t'', .cons ht' hrun, hR'⟩

end Run

/-! ## Prefixes

A program that is a function of what it has been given is run by a fold, and what holds in every
state of it holds at every prefix of the list. -/

/-- **The invariant rule for prefixes**, with an exact condition: as long as the invariant `I`
holds, what `C` says of the next element is the condition `D`, under which `I` is kept. -/
theorem forall_snoc_iff {I : List α → Prop} {C D : List α → α → Prop} {as : List α} (h₀ : I [])
    (hiff : ∀ p a, p ++ [a] <+: as → I p → (C p a ↔ D p a))
    (hstep : ∀ p a, p ++ [a] <+: as → I p → D p a → I (p ++ [a])) :
    (∀ p a, p ++ [a] <+: as → C p a) ↔ ∀ p a, p ++ [a] <+: as → D p a := by
  have hinv (h : ∀ p a, p ++ [a] <+: as → I p → D p a) : ∀ p, p <+: as → I p := by
    intro p
    induction p using List.reverseRecOn with
    | nil => exact fun _ ↦ h₀
    | append_singleton p a ih =>
        intro hp
        have hI := ih ((List.prefix_append p [a]).trans hp)
        exact hstep p a hp hI (h p a hp hI)
  constructor
  · intro hC p a hp
    have hI := hinv (fun p a hp hI ↦ (hiff p a hp hI).mp (hC p a hp)) p
      ((List.prefix_append p [a]).trans hp)
    exact (hiff p a hp hI).mp (hC p a hp)
  · intro hD p a hp
    have hI := hinv (fun p a hp _ ↦ hD p a hp) p ((List.prefix_append p [a]).trans hp)
    exact (hiff p a hp hI).mpr (hD p a hp)

/-- **What holds at every prefix**, if the next element keeps it exactly under a condition. -/
theorem forall_prefix_iff {P : List α → Prop} {D : List α → α → Prop} {as : List α} (h₀ : P [])
    (hstep : ∀ p a, p ++ [a] <+: as → P p → (P (p ++ [a]) ↔ D p a)) :
    (∀ p, p <+: as → P p) ↔ ∀ p a, p ++ [a] <+: as → D p a := by
  refine Iff.trans ?_ (forall_snoc_iff (C := fun p a ↦ P (p ++ [a])) h₀ hstep
    fun p a hp hP hD ↦ (hstep p a hp hP).mpr hD)
  constructor
  · exact fun h p a hp ↦ h _ hp
  · intro h p hp
    rcases List.eq_nil_or_concat p with rfl | ⟨q, a, rfl⟩
    · exact h₀
    · rw [List.concat_eq_append] at hp ⊢
      exact h q a hp

theorem forall_snoc_nil {D : List α → α → Prop} :
    (∀ p a, p ++ [a] <+: [] → D p a) ↔ True :=
  iff_true_intro fun p a hp ↦ absurd (List.prefix_nil.mp hp) (List.append_ne_nil_of_right_ne_nil p
    (List.cons_ne_nil a []))

/-- What is said of every element and the part in front of it, element by element. -/
theorem forall_snoc_cons {D : List α → α → Prop} {as : List α} {b : α} :
    (∀ p a, p ++ [a] <+: b :: as → D p a) ↔
      D [] b ∧ ∀ p a, p ++ [a] <+: as → D (b :: p) a := by
  constructor
  · intro h
    exact ⟨h [] b (List.prefix_append [b] as),
      fun p a hp ↦ h (b :: p) a (List.cons_prefix_cons.mpr ⟨rfl, hp⟩)⟩
  · rintro ⟨hb, h⟩ p a hp
    cases p with
    | nil =>
        obtain ⟨rfl, _⟩ := List.cons_prefix_cons.mp hp
        exact hb
    | cons c p =>
        obtain ⟨rfl, hrest⟩ := List.cons_prefix_cons.mp hp
        exact h p a hrest

end KontolOS.Lib
