import Mathlib.Data.Nat.Basic

/-!
# Counted loops

A loop whose counter goes from `i` up to, and not including, `i + n`, with a body that may fail.
A loop invariant names the value of the counter; what the body carries from one value to the
next, the loop carries from the first to the last, and then it does not fail
(`forLoop_invariant`), or if it does not fail (`forLoop_keeps`).  Two nested loops over the rows
and columns of a table visit its entries one by one, and their invariant may name the entry
instead (`forLoop_rows`).
-/

namespace KontolOS.Lib

universe u

variable {σ : Type u}

/-- `n` rounds of a loop, with a counter that starts at `i`. -/
def forLoop (body : Nat → σ → Option σ) : Nat → Nat → σ → Option σ
  | _, 0, s => some s
  | i, n + 1, s => (body i s).bind (forLoop body (i + 1) n)

/-- **The rule for counted loops.** -/
theorem forLoop_invariant {body : Nat → σ → Option σ} {I : Nat → σ → Prop} {i n : Nat} {s : σ}
    (hbody : ∀ j t, i ≤ j → j < i + n → I j t → ∃ t', body j t = some t' ∧ I (j + 1) t')
    (h : I i s) : ∃ s', forLoop body i n s = some s' ∧ I (i + n) s' := by
  induction n generalizing i s with
  | zero => exact ⟨s, rfl, h⟩
  | succ n ih =>
      have hlast : i + 1 + n = i + (n + 1) := by rw [Nat.add_assoc, Nat.add_comm 1 n]
      obtain ⟨t, hstep, ht⟩ := hbody i s (Nat.le_refl i) (Nat.lt_add_of_pos_right n.succ_pos) h
      have hrest : ∀ j t, i + 1 ≤ j → j < i + 1 + n → I j t →
          ∃ t', body j t = some t' ∧ I (j + 1) t' := fun j t hj hjn ↦
        hbody j t (Nat.le_of_succ_le hj) (hlast ▸ hjn)
      obtain ⟨s', hloop, hs'⟩ := ih hrest ht
      refine ⟨s', ?_, hlast ▸ hs'⟩
      rw [forLoop, hstep]
      exact hloop

/-- **The rule for counted loops that may fail**: what the rounds keep holds at the end, if the loop
gets there. -/
theorem forLoop_keeps {body : Nat → σ → Option σ} {I : Nat → σ → Prop} {i n : Nat} {s s' : σ}
    (hbody : ∀ j t t', i ≤ j → j < i + n → I j t → body j t = some t' → I (j + 1) t')
    (h : I i s) (hs : forLoop body i n s = some s') : I (i + n) s' := by
  induction n generalizing i s with
  | zero =>
      cases hs
      exact h
  | succ n ih =>
      have hlast : i + 1 + n = i + (n + 1) := by rw [Nat.add_assoc, Nat.add_comm 1 n]
      obtain ⟨t, hstep, hrest⟩ := Option.bind_eq_some_iff.mp hs
      rw [← hlast]
      exact ih (fun j t t' hj hjn ↦ hbody j t t' (Nat.le_of_succ_le hj) (hlast ▸ hjn))
        (hbody i s t (Nat.le_refl i) (Nat.lt_add_of_pos_right n.succ_pos) h hstep) hrest

/-- **The rule for a loop over rows around a loop over columns**: `w` columns, and the rows from
`i` to `i + n`.  The invariant is about the number of the entry that comes next. -/
theorem forLoop_rows {body : Nat → Nat → σ → Option σ} {I : Nat → σ → Prop} {w i n : Nat} {s : σ}
    (hbody : ∀ y x t, i ≤ y → y < i + n → x < w → I (y * w + x) t →
      ∃ t', body y x t = some t' ∧ I (y * w + x + 1) t')
    (h : I (i * w) s) :
    ∃ s', forLoop (fun y ↦ forLoop (body y) 0 w) i n s = some s' ∧ I ((i + n) * w) s' := by
  apply forLoop_invariant (I := fun y ↦ I (y * w)) ?_ h
  intro y t hy hyn ht
  have hcols : ∀ x t, 0 ≤ x → x < 0 + w → I (y * w + x) t →
      ∃ t', body y x t = some t' ∧ I (y * w + (x + 1)) t' := fun x t _ hx ↦
    hbody y x t hy hyn (Nat.zero_add w ▸ hx)
  obtain ⟨t', hrow, ht'⟩ := forLoop_invariant hcols ht
  refine ⟨t', hrow, ?_⟩
  rwa [Nat.zero_add, ← Nat.succ_mul] at ht'

end KontolOS.Lib
