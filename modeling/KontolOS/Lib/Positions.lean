import Mathlib.Data.List.Basic

/-!
# Positions in a list that is put together

The position `l.length` of the list `l ++ a :: r` is that of `a`, and the positions behind it are
those of `r`.  Programs that go through a buffer with an index are reasoned about with the buffer
in this form.
-/

namespace KontolOS.Lib

universe u

variable {α : Type u}

theorem getElem?_length_append (l r : List α) (a : α) : (l ++ a :: r)[l.length]? = some a := by
  rw [List.getElem?_append_right (Nat.le_refl _), Nat.sub_self, List.getElem?_cons_zero]

theorem getElem?_length_append_add (l r : List α) (a : α) (i : Nat) :
    (l ++ a :: r)[l.length + 1 + i]? = r[i]? := by
  rw [← List.getElem?_drop, ← List.drop_drop, List.drop_left]
  rfl

theorem set_length_append (l r : List α) (a b : α) :
    (l ++ a :: r).set l.length b = l ++ b :: r := by
  rw [List.set_append_right _ _ (Nat.le_refl _), Nat.sub_self, List.set_cons_zero]

end KontolOS.Lib
