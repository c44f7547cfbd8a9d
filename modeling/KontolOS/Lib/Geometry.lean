import Mathlib.Data.Nat.Basic
import Mathlib.Tactic.Ring

/-!
# The geometry of a disk

A disk is a stack of tracks: a sector is found by its cylinder, its head, and its number on the
track, where the numbers start at 1.  The sectors also come in one order, the sectors of a track
first, then the heads of a cylinder, then the cylinders; the number of a sector in this order,
from 0, is its logical block address.  Counting in the one way is counting in the other: a walk
that goes from each sector to the one behind it reads consecutive blocks (`lba_next`).
-/

namespace KontolOS.Lib

/-- The number of heads, and of sectors on a track. -/
structure Geometry where
  heads : Nat
  sectors : Nat
  heads_pos : 0 < heads
  sectors_pos : 0 < sectors

/-- The address of a sector. -/
structure Chs where
  cylinder : Nat
  head : Nat
  sector : Nat

namespace Geometry

variable {g : Geometry} {c : Chs}

/-- There is a head and a sector of these numbers. -/
structure On (g : Geometry) (c : Chs) : Prop where
  head_lt : c.head < g.heads
  sector_pos : 1 ≤ c.sector
  sector_le : c.sector ≤ g.sectors

/-- The logical block address. -/
def lba (g : Geometry) (c : Chs) : Nat :=
  (c.cylinder * g.heads + c.head) * g.sectors + (c.sector - 1)

/-- The sector that comes next. -/
def next (g : Geometry) (c : Chs) : Chs :=
  if c.sector < g.sectors then ⟨c.cylinder, c.head, c.sector + 1⟩
  else if c.head + 1 < g.heads then ⟨c.cylinder, c.head + 1, 1⟩
  else ⟨c.cylinder + 1, 0, 1⟩

/-- The next sector is on the disk, too. -/
theorem On.next (h : g.On c) : g.On (g.next c) := by
  rw [Geometry.next]
  split
  · constructor
    · exact h.head_lt
    · exact Nat.le_add_left 1 c.sector
    · assumption
  · split
    · constructor
      · assumption
      · exact Nat.le_refl 1
      · exact g.sectors_pos
    · constructor
      · exact g.heads_pos
      · exact Nat.le_refl 1
      · exact g.sectors_pos

/-- **The next sector is the next block.** -/
theorem On.lba_next (h : g.On c) : g.lba (g.next c) = g.lba c + 1 := by
  have hfirst := h.sector_pos
  rw [Geometry.next]
  split
  · show _ + (c.sector + 1 - 1) = _ + (c.sector - 1) + 1
    rw [Nat.add_assoc, Nat.sub_add_cancel hfirst, Nat.add_sub_cancel]
  next hlast =>
    have hsector : c.sector = g.sectors := Nat.le_antisymm h.sector_le (Nat.le_of_not_lt hlast)
    have htrack : g.lba c + 1 = (c.cylinder * g.heads + c.head) * g.sectors + g.sectors := by
      rw [lba, hsector, Nat.add_assoc, Nat.sub_add_cancel g.sectors_pos]
    rw [htrack]
    split
    · show (c.cylinder * g.heads + (c.head + 1)) * g.sectors + 0 = _
      ring
    next hhead =>
      have hheads : c.head + 1 = g.heads :=
        Nat.le_antisymm h.head_lt (Nat.le_of_not_lt hhead)
      show ((c.cylinder + 1) * g.heads + 0) * g.sectors + 0 = _
      rw [← hheads]
      ring

/-- The blocks of the earlier cylinders come first. -/
theorem cylinder_le (g : Geometry) (c : Chs) : c.cylinder * (g.heads * g.sectors) ≤ g.lba c :=
  calc c.cylinder * (g.heads * g.sectors)
    _ = c.cylinder * g.heads * g.sectors := (Nat.mul_assoc ..).symm
    _ ≤ (c.cylinder * g.heads + c.head) * g.sectors := Nat.mul_le_mul_right _ (Nat.le_add_right ..)
    _ ≤ g.lba c := Nat.le_add_right ..

end Geometry

end KontolOS.Lib
