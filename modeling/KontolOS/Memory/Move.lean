import KontolOS.Memory.Steps

/-!
# Moving bytes that overlap

`memmove` of `src/kernel/memory.c` copies from the front if the destination begins below the source,
and otherwise from the end.  Either way a byte of the source is read before it is overwritten, so
that the destination gets the bytes that the source had, however the two overlap (`memmove_eq`).
`memcpy` always begins at the front, which is as good unless the destination begins inside the
source.

Both ranges are inside the address space, and pointers into them are compared and moved as numbers.
-/

namespace KontolOS.Memory

open KontolOS.Lib

/-- The second loop of `memmove`: `while (n--) *--d = *--s`. -/
def memmoveBack (m : Mem) (d s : Nat) : Nat → Mem
  | 0 => m
  | n + 1 => memmoveBack (m.store8 (d - 1) (m (s - 1))) (d - 1) (s - 1) n

/-- `memmove`, whose first loop is that of `memcpy`. -/
def memmove (m : Mem) (dest src n : Nat) : Mem :=
  if dest < src then memcpy m dest src n else memmoveBack m (dest + n) (src + n) n

variable {m : Mem} {dest src n : Nat}

/-- **The second loop** copies the source, if the destination does not begin below it. -/
theorem memmoveBack_eq (h : src ≤ dest) :
    memmoveBack m (dest + n) (src + n) n = m.write dest (m.bytes src n) := by
  induction n generalizing m with
  | zero => simp [memmoveBack, Mem.bytes]
  | succ n ih =>
      -- the bytes in front of the last one have not been touched
      have hrest : (m.store8 (dest + n) (m (src + n))).bytes src n = m.bytes src n :=
        Mem.bytes_congr fun i hi ↦ Mem.store8_of_ne (by omega)
      have hlast : m.bytes (src + n) 1 = [m (src + n)] := rfl
      have hwrite := Mem.write_concat m dest (m.bytes src n) (m (src + n))
      rw [Mem.length_bytes] at hwrite
      rw [Mem.bytes_append, hlast, hwrite, ← hrest]
      exact ih

/-- **`memmove`** copies what the source was. -/
theorem memmove_eq (m : Mem) (dest src n : Nat) :
    memmove m dest src n = m.write dest (m.bytes src n) := by
  rw [memmove]
  split
  next hlt => exact memcpy_eq_write_of_le (.inl (Nat.le_of_lt hlt))
  next hge => exact memmoveBack_eq (Nat.not_lt.mp hge)

/-- **`memmove` moves the bytes**, whether the ranges overlap or not: the destination gets the bytes
of the source as they were, and nothing else changes.  `memcpy` does the same if the ranges do not
overlap, or the destination does not begin behind the source. -/
theorem memmove_moves (m : Mem) (dest src n : Nat) :
    (memmove m dest src n).bytes dest n = m.bytes src n ∧
      (∀ x, x < dest ∨ dest + n ≤ x → memmove m dest src n x = m x) ∧
      (dest + n ≤ src ∨ src + n ≤ dest ∨ dest ≤ src →
        memcpy m dest src n = memmove m dest src n) := by
  have hlen : (m.bytes src n).length = n := Mem.length_bytes m src n
  refine ⟨?_, fun x hx ↦ ?_, fun hranges ↦ ?_⟩
  · have hsame := Mem.bytes_write_same m dest (m.bytes src n)
    rw [hlen] at hsame
    rw [memmove_eq, hsame]
  · rw [memmove_eq]
    exact Mem.write_off (by rw [hlen]; exact hx)
  · rw [memmove_eq]
    refine memcpy_eq_write_of_le ?_
    rcases hranges with hbelow | hbehind | hle
    · exact .inl (Nat.le_trans (Nat.le_add_right dest n) hbelow)
    · exact .inr hbehind
    · exact .inl hle

end KontolOS.Memory
