import Mathlib.Data.List.Infix
import Mathlib.Order.Bounds.Defs

/-!
# The first occurrence of a list in another one

`firstAt t s` is the least place of `s` at which `t` begins, if there is one.  It is found by trying
one place after the other (`firstAt_cons`).
-/

namespace KontolOS.Lib

universe u

variable {α : Type u} [DecidableEq α] {c : α} {s t : List α} {i : Nat}

/-- The first place of `s` at which `t` begins. -/
def firstAt (t s : List α) : Option Nat := s.tails.findIdx? fun r ↦ t.isPrefixOf r

/-- **It is the least one.** -/
theorem firstAt_eq_some_iff :
    firstAt t s = some i ↔ IsLeast {i | i ≤ s.length ∧ t <+: s.drop i} i := by
  rw [firstAt, List.findIdx?_eq_some_iff_getElem]
  constructor
  · rintro ⟨hi, hpre, hbefore⟩
    rw [List.getElem_tails, List.isPrefixOf_iff_prefix] at hpre
    rw [List.length_tails] at hi
    refine ⟨⟨Nat.le_of_lt_succ hi, hpre⟩, fun j hj ↦ Nat.not_lt.mp fun hji ↦ ?_⟩
    have hnot := hbefore j hji
    rw [List.getElem_tails, List.isPrefixOf_iff_prefix] at hnot
    exact hnot hj.2
  · rintro ⟨⟨hi, hpre⟩, hleast⟩
    have hlen : i < s.tails.length := by
      rw [List.length_tails]
      exact Nat.lt_succ_of_le hi
    refine ⟨hlen, ?_, fun j hji hj ↦ ?_⟩
    · rw [List.getElem_tails, List.isPrefixOf_iff_prefix]
      exact hpre
    · rw [List.getElem_tails, List.isPrefixOf_iff_prefix] at hj
      exact Nat.not_le.mpr hji (hleast ⟨Nat.le_trans (Nat.le_of_lt hji) hi, hj⟩)

/-- There is none exactly if `t` does not occur in `s`. -/
theorem firstAt_eq_none_iff : firstAt t s = none ↔ ¬ t <:+: s := by
  rw [firstAt, List.findIdx?_eq_none_iff, List.infix_iff_prefix_suffix]
  constructor
  · rintro hnone ⟨r, hpre, hsuf⟩
    have hr := hnone r ((List.mem_tails r s).mpr hsuf)
    rw [List.isPrefixOf_iff_prefix.mpr hpre] at hr
    cases hr
  · intro hno r hr
    rw [Bool.eq_false_iff, ne_eq, List.isPrefixOf_iff_prefix]
    exact fun hpre ↦ hno ⟨r, hpre, (List.mem_tails r s).mp hr⟩

/-- At the place at hand, or later. -/
theorem firstAt_cons (t : List α) (c : α) (s : List α) :
    firstAt t (c :: s) = if t <+: c :: s then some 0 else (firstAt t s).map (· + 1) := by
  rw [firstAt, List.tails_cons, List.findIdx?_cons]
  refine if_congr List.isPrefixOf_iff_prefix rfl rfl

/-- The empty list begins at once. -/
theorem firstAt_nil_left (s : List α) : firstAt [] s = some 0 := by
  cases s with
  | nil => rfl
  | cons c s => rw [firstAt_cons, if_pos List.nil_prefix]

/-- Another one does not begin at the end. -/
theorem firstAt_nil_right (ht : t ≠ []) : firstAt t [] = none :=
  firstAt_eq_none_iff.mpr fun h ↦ ht (List.infix_nil.mp h)

end KontolOS.Lib
