import KontolOS.Lib.Run

/-!
# Runs that are counted

Some steps use up a resource, and no step gives it back.  `Tally step bad k s as s'` is a run in
which `k` of the steps are of this kind.  The simulation rule for it has an allowance: the relation
between the two systems may depend on how much was used, and has to be kept only as long as the
allowance suffices.  The abstract system may show what it does, in labels of its own.
-/

namespace KontolOS.Lib

universe u v w x

variable {σ : Type u} {τ : Type v} {α : Type w} {β : Type x}

/-- A run from one state to another with the number of its steps that are `bad`. -/
inductive Tally (step : σ → α → σ → Prop) (bad : σ → α → Prop) :
    Nat → σ → List α → σ → Prop
  | /-- No step, none of which is bad. -/
    nil (s : σ) : Tally step bad 0 s [] s
  | /-- A step that is not counted. -/
    free {k : Nat} {s s' s'' : σ} {a : α} {as : List α} :
      step s a s' → ¬ bad s a → Tally step bad k s' as s'' → Tally step bad k s (a :: as) s''
  | /-- A step that is counted. -/
    cost {k : Nat} {s s' s'' : σ} {a : α} {as : List α} :
      step s a s' → bad s a → Tally step bad k s' as s'' → Tally step bad (k + 1) s (a :: as) s''

namespace Tally

variable {step : σ → α → σ → Prop} {bad : σ → α → Prop} {j k : Nat} {s s' s'' : σ} {a : α}
  {as : List α}

/-- A run can be continued. -/
theorem append {bs : List α} (h : Tally step bad j s as s') (h' : Tally step bad k s' bs s'') :
    Tally step bad (j + k) s (as ++ bs) s'' := by
  induction h with
  | nil s => rwa [Nat.zero_add]
  | free hstep hbad _ ih => exact .free hstep hbad (ih h')
  | cost hstep hbad _ ih =>
      rw [Nat.succ_add]
      exact .cost hstep hbad (ih h')

/-- **The simulation rule with an allowance**: if every step is matched by an abstract step,
from states related by `R k` to states related by `R k`, or by `R (k + 1)` when the step is
counted, then so is every run that is within the allowance.  An abstract step has a label that
tells the action, and `shown` is what is seen of it below. -/
theorem simulate {R : Nat → σ → τ → Prop} {astep : τ → β → τ → Prop} {shown : σ → β → σ → Prop}
    {action : β → α} {limit : Nat}
    (hstep : ∀ {k s a s' t}, k ≤ limit → R k s t → step s a s' → ∃ b t', action b = a ∧
      astep t b t' ∧ shown s b s' ∧ (¬ bad s a ∧ R k s' t' ∨ bad s a ∧ R (k + 1) s' t'))
    (h : Tally step bad j s as s') :
    ∀ {k t}, k + j ≤ limit → R k s t → ∃ bs t', bs.map action = as ∧ Run astep t bs t' ∧
      Run shown s bs s' ∧ R (k + j) s' t' := by
  induction h with
  | nil s => exact fun {k t} _ ht ↦ ⟨[], t, rfl, .nil t, .nil s, ht⟩
  | free hs hbad _ ih =>
      intro k t hle ht
      obtain ⟨b, t', hb, ha, hshown, hnext⟩ := hstep (by omega) ht hs
      have hR : R k _ t' := hnext.elim And.right fun h ↦ absurd h.1 hbad
      obtain ⟨bs, t'', hbs, hrun, hseen, hR'⟩ := ih hle hR
      exact ⟨b :: bs, t'', by rw [List.map_cons, hb, hbs], .cons ha hrun, .cons hshown hseen, hR'⟩
  | @cost j _ _ _ _ _ hs hbad _ ih =>
      intro k t hle ht
      obtain ⟨b, t', hb, ha, hshown, hnext⟩ := hstep (by omega) ht hs
      have hR : R (k + 1) _ t' := hnext.elim (fun h ↦ absurd hbad h.1) And.right
      obtain ⟨bs, t'', hbs, hrun, hseen, hR'⟩ := ih (by omega) hR
      refine ⟨b :: bs, t'', by rw [List.map_cons, hb, hbs], .cons ha hrun, .cons hshown hseen, ?_⟩
      rwa [Nat.add_assoc, Nat.add_comm 1 j] at hR'

end Tally

end KontolOS.Lib
