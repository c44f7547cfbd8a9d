import Mathlib.Logic.Function.Basic

/-!
# A typewriter on a sheet

The places of a sheet of `w` columns are numbered in reading order, and so the place behind the
end of a row is the beginning of the next.  A stroke puts a character at the position of the
typewriter, or only moves it.  Nothing but a newline and the end of a row leads out of a row, and
both lead down: strokes change nothing above the row that they begin in, and nothing from the
place on that they never go beyond (`cell_foldl_type`).
-/

namespace KontolOS.Lib

universe u

open Function

/-- A key of the typewriter. -/
inductive Stroke (α : Type u)
  | /-- a character -/ put (x : α)
  | /-- back by one place, which becomes blank, but not out of the row -/ back
  | /-- to the next tab stop -/ tab
  | /-- to the beginning of the row -/ carriage
  | /-- to the beginning of the next row -/ newline

/-- A sheet, and where the typewriter is. -/
@[ext] structure Sheet (α : Type u) where
  /-- the next place -/
  pos : Nat
  /-- what is in each place -/
  cell : Nat → α

/-- Columns and tab stops. -/
structure Ruler where
  /-- the number of columns -/
  width : Nat
  /-- the places from one tab stop to the next -/
  tab : Nat
  /-- there is a column -/
  width_pos : 0 < width
  /-- tabs lead forward -/
  tab_pos : 0 < tab

variable {α : Type u} {r : Ruler} {blank : α} {p : Sheet α} {k : Stroke α} {ks : List (Stroke α)}
  {pos stop i : Nat}

/-- Where a stroke leads. -/
def Ruler.next (r : Ruler) (pos : Nat) : Stroke α → Nat
  | .put _ => pos + 1
  | .back => if pos % r.width = 0 then pos else pos - 1
  | .tab => (pos / r.tab + 1) * r.tab
  | .carriage => pos / r.width * r.width
  | .newline => (pos / r.width + 1) * r.width

/-- A stroke. -/
def Sheet.type (r : Ruler) (blank : α) (p : Sheet α) (k : Stroke α) : Sheet α where
  pos := r.next p.pos k
  cell := match k with
    | .put x => update p.cell p.pos x
    | .back => if p.pos % r.width = 0 then p.cell else update p.cell (p.pos - 1) blank
    | _ => p.cell

/-- Strokes that begin at `pos` and never go beyond `stop`. -/
def Ruler.Stays (r : Ruler) (stop : Nat) : List (Stroke α) → Nat → Prop
  | [], pos => pos ≤ stop
  | k :: ks, pos => pos ≤ stop ∧ r.Stays stop ks (r.next pos k)

/-! ## Positions -/

theorem Ruler.Stays.pos_le (h : r.Stays stop ks pos) : pos ≤ stop := by
  cases ks with
  | nil => exact h
  | cons k ks => exact h.1

/-- **No stroke leads up**. -/
theorem Ruler.row_le_next (r : Ruler) (pos : Nat) (k : Stroke α) :
    pos / r.width ≤ r.next pos k / r.width := by
  have hdiv := Nat.div_add_mod pos r.width
  rw [Nat.le_div_iff_mul_le r.width_pos]
  cases k with
  | put x => exact Nat.le_succ_of_le (Nat.div_mul_le_self pos r.width)
  | back =>
      rw [next, Nat.mul_comm]
      split <;> omega
  | tab =>
      have hstop : pos < (pos / r.tab + 1) * r.tab := by
        rw [Nat.mul_comm]
        exact Nat.lt_mul_div_succ pos r.tab_pos
      exact Nat.le_trans (Nat.div_mul_le_self pos r.width) (Nat.le_of_lt hstop)
  | carriage => exact Nat.le_refl _
  | newline => exact Nat.mul_le_mul_right _ (Nat.le_succ _)

/-- No stroke but a newline leads further than a tab. -/
theorem Ruler.next_le (hk : k ≠ .newline) : r.next pos k ≤ pos + r.tab := by
  cases k with
  | put x => exact Nat.add_le_add_left r.tab_pos pos
  | back =>
      rw [next]
      split <;> omega
  | tab =>
      rw [next, Nat.succ_mul]
      exact Nat.add_le_add_right (Nat.div_mul_le_self pos r.tab) r.tab
  | carriage => exact Nat.le_trans (Nat.div_mul_le_self pos r.width) (Nat.le_add_right _ _)
  | newline => exact absurd rfl hk

/-- Strokes without a newline. -/
theorem Ruler.stays_of_length (hks : ∀ k ∈ ks, k ≠ .newline)
    (hle : pos + ks.length * r.tab ≤ stop) : r.Stays stop ks pos := by
  induction ks generalizing pos with
  | nil => exact Nat.le_trans (Nat.le_add_right _ _) hle
  | cons k ks ih =>
      obtain ⟨hk, hks⟩ := List.forall_mem_cons.mp hks
      have hnext : r.next pos k ≤ pos + r.tab := r.next_le hk
      rw [List.length_cons, Nat.succ_mul] at hle
      exact ⟨by omega, ih hks (by omega)⟩

/-- Characters alone. -/
theorem Ruler.stays_put {xs : List α} :
    r.Stays stop (xs.map .put) pos ↔ pos + xs.length ≤ stop := by
  induction xs generalizing pos with
  | nil => exact Iff.rfl
  | cons x xs ih =>
      have hnext : pos + 1 + xs.length = pos + (x :: xs).length := by
        rw [List.length_cons, Nat.add_right_comm, Nat.add_assoc]
      refine ⟨fun h ↦ hnext ▸ ih.mp h.2, fun h ↦ ⟨?_, ih.mpr (hnext ▸ h)⟩⟩
      exact Nat.le_trans (Nat.le_add_right _ _) h

/-! ## Places -/

namespace Sheet

/-- A stroke changes nothing above its row, and nothing from a place on that it does not lead
beyond. -/
theorem cell_type (hpos : p.pos ≤ stop) (hnext : r.next p.pos k ≤ stop)
    (hi : i < p.pos / r.width * r.width ∨ stop ≤ i) : (p.type r blank k).cell i = p.cell i := by
  have hrow := Nat.div_mul_le_self p.pos r.width
  cases k with
  | put x =>
      have hne : i ≠ p.pos := by
        change p.pos + 1 ≤ stop at hnext
        omega
      exact update_of_ne hne _ _
  | back =>
      change (if p.pos % r.width = 0 then p.cell else update p.cell (p.pos - 1) blank) i = _
      split
      · rfl
      next hcol =>
        have hdiv := Nat.div_add_mod p.pos r.width
        rw [Nat.mul_comm] at hdiv
        exact update_of_ne (by omega) _ _
  | _ => rfl

/-- **Strokes change nothing above the row that they begin in**, and nothing from a place on that
they never go beyond. -/
theorem cell_foldl_type (h : r.Stays stop ks p.pos)
    (hi : i < p.pos / r.width * r.width ∨ stop ≤ i) :
    (ks.foldl (type r blank) p).cell i = p.cell i := by
  induction ks generalizing p with
  | nil => rfl
  | cons k ks ih =>
      have hi' : i < r.next p.pos k / r.width * r.width ∨ stop ≤ i := hi.imp_left fun hlt ↦
        Nat.lt_of_lt_of_le hlt (Nat.mul_le_mul_right _ (r.row_le_next p.pos k))
      exact (ih (p := p.type r blank k) h.2 hi').trans (cell_type h.1 h.2.pos_le hi)

/-- Characters alone lead as far as there are characters. -/
theorem pos_foldl_put (xs : List α) :
    ((xs.map .put).foldl (type r blank) p).pos = p.pos + xs.length := by
  induction xs generalizing p with
  | nil => rfl
  | cons x xs ih =>
      refine (ih (p := p.type r blank (.put x))).trans ?_
      change p.pos + 1 + xs.length = p.pos + (xs.length + 1)
      rw [Nat.add_right_comm, Nat.add_assoc]

/-- **Characters alone** are put one behind the other. -/
theorem cell_foldl_put (xs : List α) : ((xs.map .put).foldl (type r blank) p).cell =
    fun i ↦ if p.pos ≤ i then xs.getD (i - p.pos) (p.cell i) else p.cell i := by
  induction xs generalizing p with
  | nil =>
      funext i
      exact (ite_self _).symm
  | cons x xs ih =>
      refine (ih (p := p.type r blank (.put x))).trans ?_
      funext i
      change (if p.pos + 1 ≤ i then xs.getD (i - (p.pos + 1)) (update p.cell p.pos x i)
        else update p.cell p.pos x i) = _
      rcases Nat.lt_trichotomy i p.pos with hi | rfl | hi
      · rw [if_neg (by omega), if_neg (by omega), update_of_ne (by omega)]
      · rw [if_neg (by omega), if_pos (Nat.le_refl _), Nat.sub_self, update_self]
        rfl
      · have hsub : i - p.pos = i - (p.pos + 1) + 1 := by omega
        rw [if_pos (Nat.succ_le_of_lt hi), if_pos (Nat.le_of_lt hi), update_of_ne (by omega), hsub]
        rfl

end Sheet

end KontolOS.Lib
