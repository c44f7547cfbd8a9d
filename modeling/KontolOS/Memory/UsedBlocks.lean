import Mathlib.Data.Set.Basic
import KontolOS.Memory.Clients

/-!
# The used blocks of a heap

`usedBlocks h` is the set of the used blocks that are met on the way along the block list, each
with its address and its size, and `blocksAt ptrs` are those that the pointers `ptrs` lead to.  An
allocation adds a block at the pointer it returns, a release takes one away, and a write into a
block changes nothing.  Each of the three is an equation between sets, so that what a sequence of
calls does to the used blocks is found by rewriting.
-/

namespace KontolOS.Memory

open KontolOS.Lib Function

/-- The used blocks on the block list. -/
def usedBlocks (h : Heap) : Set Block :=
  {d | ∃ bs, BlockList h.mem h.heapStart bs ∧ d ∈ bs ∧ d.used = true}

/-- The blocks behind some pointers. -/
def blocksAt (ptrs : List Nat) : Set Block := {d | d.addr + sizeofBlock ∈ ptrs}

variable {h h' : Heap} {live live' : Live} {bs bs' : List Block} {d : Block} {p ptr size : Nat}
  {ptrs : List Nat} {used : Set Block}

theorem mem_blocksAt_singleton : d ∈ blocksAt [p] ↔ d.addr + sizeofBlock = p := List.mem_singleton

/-! ## Some pointers, and more -/

theorem blocksAt_nil : blocksAt [] = ∅ := Set.eq_empty_of_forall_notMem fun _ ↦ List.not_mem_nil

theorem sdiff_blocksAt_cons (used : Set Block) (p : Nat) (ptrs : List Nat) :
    used \ blocksAt (p :: ptrs) = (used \ blocksAt ptrs) \ blocksAt [p] := by
  ext d
  simp only [blocksAt, Set.mem_sdiff, Set.mem_ofPred_eq, List.mem_cons, List.not_mem_nil, or_false,
    not_or]
  rw [and_comm (a := ¬d.addr + sizeofBlock = p), and_assoc]

/-- Two sets that agree but for some blocks, agree but for these when others are left out. -/
theorem sdiff_blocksAt_congr {used₁ left₁ : Set Block}
    (heq : used₁ \ left₁ = used \ left) (ptrs : List Nat) :
    (used₁ \ blocksAt ptrs) \ left₁ = (used \ blocksAt ptrs) \ left := by
  rw [sdiff_right_comm, heq, sdiff_right_comm]

/-! ## What the calls do -/

namespace Owned

/-- The used blocks are those of the list that the heap represents. -/
theorem mem_usedBlocks (hw : Owned h live bs) : d ∈ usedBlocks h ↔ d ∈ bs ∧ d.used = true := by
  constructor
  · rintro ⟨cs, hcs, hd⟩
    rwa [BlockList.eq_of_rep hw.rep hcs] at hd
  · exact fun hd ↦ ⟨bs, BlockList.of_rep hw.rep, hd⟩

/-- A write that leaves the list alone. -/
theorem usedBlocks_eq (hw : Owned h live bs) (hw' : Owned h' live' bs) :
    usedBlocks h' = usedBlocks h :=
  Set.ext fun _ ↦ hw'.mem_usedBlocks.trans hw.mem_usedBlocks.symm

/-- No block is behind a pointer that is not live. -/
theorem sdiff_of_none (hw : Owned h live bs) (hp : live p = none) :
    usedBlocks h \ blocksAt [p] = usedBlocks h := by
  refine sdiff_eq_left.mpr (Set.disjoint_left.mpr fun d hd hdp ↦ ?_)
  obtain ⟨hmem, hdu⟩ := hw.mem_usedBlocks.mp hd
  have hlive := (hw.live_iff p).mpr ⟨d, hmem, hdu, mem_blocksAt_singleton.mp hdp⟩
  rw [hp] at hlive
  cases hlive

/-- **`kmalloc`** adds a block at the pointer that it returns, if this is not `NULL`. -/
theorem usedBlocks_kmalloc (hw : Owned h live bs) (hs : Harmless h size)
    (hk : Memory.kmalloc h size = some (ptr, h')) :
    usedBlocks h' \ blocksAt [ptr] = usedBlocks h := by
  rcases hw.kmalloc hs with hnull | ⟨b, bs', h₁, halloc, hsome, hnone, hw'⟩
  · cases hnull.symm.trans hk
    exact hw.sdiff_of_none hw.live_null
  · cases hsome.symm.trans hk
    rw [← hw.sdiff_of_none hnone]
    ext d
    rw [Set.mem_sdiff, Set.mem_sdiff, hw.mem_usedBlocks, hw'.mem_usedBlocks, mem_blocksAt_singleton]
    refine and_congr_left fun hne ↦ and_congr_left fun hdu ↦ ?_
    rw [mem_alloc_iff halloc hdu]
    refine or_iff_left ?_
    rintro rfl
    exact hne rfl

/-- **`kfree`** takes away the block at the pointer. -/
theorem usedBlocks_kfree (hw : Owned h live bs) (hp : (live p).isSome)
    (hk : Memory.kfree h p = some h') : usedBlocks h' = usedBlocks h \ blocksAt [p] := by
  obtain ⟨o, ho⟩ := Option.isSome_iff_exists.mp hp
  obtain ⟨b, _, rfl, h₁, hfree, hw'⟩ := hw.kfree ho
  obtain rfl : h₁ = h' := Option.some.inj (hfree.symm.trans hk)
  ext d
  rw [Set.mem_sdiff, hw.mem_usedBlocks, hw'.mem_usedBlocks, mem_blocksAt_singleton, and_right_comm]
  refine and_congr_left fun hdu ↦ ?_
  rw [mem_release_iff hdu, Nat.add_left_inj]

end Owned

end KontolOS.Memory
