import Mathlib.Data.List.Basic
import Mathlib.Data.Nat.ModEq
import Mathlib.Logic.Function.Basic

/-!
# Ring buffers

A ring of `n` slots with the index `start` of its first element and the index `stop` behind
its last one.  Both run around the ring, and the ring is empty when they are equal; one slot
is never used, so that a full ring can be told from an empty one.

Seen from outside a ring is a queue of at most `n - 1` elements: `contents` lists them, `put`
appends to this list (`contents_put`), and `advance` removes its head (`contents_of_ne`).
-/

namespace KontolOS.Lib

universe u

/-- A ring buffer of `n` slots. -/
structure Ring (n : Nat) (α : Type u) where
  /-- the slots -/
  slots : Fin n → α
  /-- where the first element is -/
  start : Fin n
  /-- where the next element will be -/
  stop : Fin n

namespace Ring

open Function

variable {n : Nat} {α : Type u}

/-- One slot further, around the ring. -/
def next (i : Fin n) : Fin n := ⟨(i + 1) % n, Nat.mod_lt _ i.pos⟩

/-- Slot `k` counted from `i`. -/
def after (i : Fin n) (k : Nat) : Fin n := ⟨(i + k) % n, Nat.mod_lt _ i.pos⟩

/-- The number of elements. -/
def count (r : Ring n α) : Nat := (r.stop + (n - r.start)) % n

/-- The elements, the first one first. -/
def contents (r : Ring n α) : List α :=
  (List.range r.count).map fun k ↦ r.slots (after r.start k)

/-- Put an element behind the last one, unless the ring is full. -/
def put (r : Ring n α) (x : α) : Ring n α :=
  if next r.stop ≠ r.start then { r with slots := update r.slots r.stop x, stop := next r.stop }
  else r

/-- Give up the first element. -/
def advance (r : Ring n α) : Ring n α := { r with start := next r.start }

variable {r : Ring n α} {i j : Fin n} {k l : Nat} {x : α}

/-! ## Indices -/

theorem after_zero (i : Fin n) : after i 0 = i := by
  apply Fin.ext
  exact Nat.mod_eq_of_lt i.isLt

theorem after_next (i : Fin n) (k : Nat) : after (next i) k = after i (k + 1) := by
  apply Fin.ext
  change ((i + 1) % n + k) % n = (i + (k + 1)) % n
  rw [Nat.mod_add_mod, Nat.add_assoc, Nat.add_comm 1]

/-- In a ring of two slots or more the next slot is another one. -/
theorem next_ne (hn : 1 < n) (i : Fin n) : next i ≠ i := by
  intro h
  have hval : (i + 1) % n = i := congrArg Fin.val h
  rcases Nat.lt_or_eq_of_le (Nat.succ_le_of_lt i.isLt) with hlt | heq
  · rw [Nat.mod_eq_of_lt hlt] at hval
    exact Nat.succ_ne_self _ hval
  · rw [show (i : Nat) + 1 = n from heq, Nat.mod_self] at hval
    omega

/-- Less than once around, no slot comes twice. -/
theorem after_inj (hk : k < n) (hl : l < n) (h : after i k = after i l) : k = l := by
  have hmod : (i + k) % n = (i + l) % n := congrArg Fin.val h
  have hcancel : k % n = l % n := Nat.ModEq.add_left_cancel' i hmod
  rwa [Nat.mod_eq_of_lt hk, Nat.mod_eq_of_lt hl] at hcancel

/-! ## Counting -/

theorem count_lt (r : Ring n α) : r.count < n := Nat.mod_lt _ r.stop.pos

/-- The slot behind the last element. -/
theorem after_count (r : Ring n α) : after r.start r.count = r.stop := by
  apply Fin.ext
  change (r.start + (r.stop + (n - r.start)) % n) % n = r.stop
  have hsum : (r.start : Nat) + (r.stop + (n - r.start)) = r.stop + n := by
    have := r.start.isLt
    omega
  rw [Nat.add_mod_mod, hsum, Nat.add_mod_right, Nat.mod_eq_of_lt r.stop.isLt]

/-- The count is determined by where it leads to. -/
theorem count_eq_iff (hk : k < n) : r.count = k ↔ after r.start k = r.stop := by
  constructor
  · rintro rfl
    exact r.after_count
  · intro h
    exact after_inj r.count_lt hk (r.after_count.trans h.symm)

@[simp] theorem length_contents (r : Ring n α) : r.contents.length = r.count := by
  rw [contents, List.length_map, List.length_range]

/-- **A ring is empty if its indices are equal.** -/
theorem contents_eq_nil_iff : r.contents = [] ↔ r.start = r.stop := by
  rw [← List.length_eq_zero_iff, length_contents, count_eq_iff r.start.pos, after_zero]

/-- **A ring is full if one slot is left.** -/
theorem next_stop_eq_iff : next r.stop = r.start ↔ r.contents.length = n - 1 := by
  have hpos := r.start.pos
  have hround : after r.start (n - 1 + 1) = r.start := by
    apply Fin.ext
    change ((r.start : Nat) + (n - 1 + 1)) % n = r.start
    rw [Nat.sub_add_cancel hpos, Nat.add_mod_right, Nat.mod_eq_of_lt r.start.isLt]
  rw [length_contents, ← r.after_count]
  change next (after r.start r.count) = r.start ↔ _
  have hnext : next (after r.start r.count) = after r.start (r.count + 1) := by
    apply Fin.ext
    change ((r.start + r.count) % n + 1) % n = (r.start + (r.count + 1)) % n
    rw [Nat.mod_add_mod, Nat.add_assoc]
  rw [hnext]
  constructor
  · intro h
    have hlt := r.count_lt
    by_contra hne
    have hback : after r.start (r.count + 1) = after r.start 0 := by rw [h, after_zero]
    have := after_inj (by omega) hpos hback
    omega
  · intro h
    rw [h, hround]

/-! ## The ring as a queue -/

/-- **Putting an element** into a ring that is not full appends it. -/
theorem contents_put (h : next r.stop ≠ r.start) : (r.put x).contents = r.contents ++ [x] := by
  have hput : r.put x = { r with slots := update r.slots r.stop x, stop := next r.stop } := if_pos h
  have hlt : r.count + 1 < n := by
    have hfull : r.contents.length ≠ n - 1 := fun hlen ↦ h (next_stop_eq_iff.mpr hlen)
    rw [length_contents] at hfull
    have := r.count_lt
    omega
  have hcount : (r.put x).count = r.count + 1 := by
    rw [hput, count_eq_iff hlt]
    change after r.start (r.count + 1) = next r.stop
    rw [← r.after_count]
    apply Fin.ext
    change (r.start + (r.count + 1)) % n = ((r.start + r.count) % n + 1) % n
    rw [Nat.mod_add_mod, Nat.add_assoc]
  rw [contents, hcount, hput, List.range_succ, List.map_append]
  congr 1
  · apply List.map_congr_left
    intro k hk
    rw [List.mem_range] at hk
    apply update_of_ne
    rw [← r.after_count]
    exact fun heq ↦ Nat.ne_of_lt hk (after_inj (Nat.lt_trans hk r.count_lt) r.count_lt heq)
  · change [update r.slots r.stop x (after r.start r.count)] = [x]
    rw [r.after_count, update_self]

/-- A full ring takes nothing. -/
theorem put_of_eq (h : next r.stop = r.start) : r.put x = r := if_neg (not_not.mpr h)

/-- **The first element** of a ring that is not empty, and what is left without it. -/
theorem contents_of_ne (h : r.start ≠ r.stop) :
    r.contents = r.slots r.start :: r.advance.contents := by
  have hpos : r.count ≠ 0 := fun h0 ↦ h ((after_zero _).symm.trans
    ((count_eq_iff r.start.pos).mp h0))
  obtain ⟨m, hm⟩ := Nat.exists_eq_succ_of_ne_zero hpos
  have hlt := r.count_lt
  have hcount : r.advance.count = m := by
    rw [count_eq_iff (by omega)]
    change after (next r.start) m = r.stop
    rw [after_next, ← r.after_count, hm]
  rw [contents, hm, List.range_succ_eq_map, List.map_cons, List.map_map, after_zero, contents,
    hcount]
  congr 1
  apply List.map_congr_left
  intro k _
  change r.slots (after r.start (k + 1)) = r.slots (after (next r.start) k)
  rw [after_next]

end Ring

end KontolOS.Lib
