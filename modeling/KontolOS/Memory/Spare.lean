import KontolOS.Memory.Room

/-!
# Memory to spare

`Spare h k` says that no used block reaches into the last `k` bytes of the heap.  An allocation
that is small enough for these bytes succeeds, wherever first fit finds a block for it, and what
it does not take of them is still to spare; to free a block takes nothing of them.  So a program
that allocates little succeeds in a heap with much to spare, however fragmented the rest of the
heap may be.
-/

namespace KontolOS.Memory

open KontolOS.Lib Function

/-- The last `k` bytes of the heap are free. -/
def Spare (h : Heap) (k : Nat) : Prop :=
  ∀ bs, BlockList h.mem h.heapStart bs → ∀ b ∈ bs, b.used = true → b.fin + k ≤ heapEnd

/-- An allocation that succeeds. -/
def Succeeds (h : Heap) (size : Nat) : Prop :=
  ∃ ptr h', kmalloc h size = some (ptr, h') ∧ ptr ≠ null

/-- What an allocation takes on top of what is requested, at most. -/
def overhead : Nat := 47

theorem Spare.mono {h : Heap} {j k : Nat} (hs : Spare h k) (hle : j ≤ k) : Spare h j :=
  fun bs hbs b hb hbu ↦ Nat.le_trans (Nat.add_le_add_left hle _) (hs bs hbs b hb hbu)

namespace Owned

variable {h h' : Heap} {live live' : Live} {bs bs' : List Block} {p size k : Nat} {o : Obj}

/-- Memory to spare, read off the block list. -/
theorem spare_iff (hw : Owned h live bs) :
    Spare h k ↔ ∀ b ∈ bs, b.used = true → b.fin + k ≤ heapEnd := by
  refine ⟨fun hs ↦ hs bs (BlockList.of_rep hw.rep), fun hs cs hcs ↦ ?_⟩
  rw [BlockList.eq_of_rep hw.rep hcs]
  exact hs

/-- Room at the end of the heap. -/
theorem room_of_spare (hw : Owned h live bs) (hs : Spare h k) (hk : k ≤ heapSize) :
    Room h p k := by
  refine hw.room_iff.mpr ⟨heapEnd - k, ?_, ?_, fun b hb hbu _ ↦ .inl ?_⟩
  · unfold heapEnd
    omega
  · unfold heapEnd
    omega
  · exact Nat.le_sub_of_add_le (hw.spare_iff.mp hs b hb hbu)

/-- The bytes to spare are at the end of one free block. -/
theorem exists_last (hw : Owned h live bs) (hs : Spare h k) (hpos : 0 < k) (hk : k ≤ heapSize) :
    ∃ g ∈ bs, g.used = false ∧ g.addr + k ≤ heapEnd ∧ g.fin = heapEnd := by
  have htiles := hw.rep.linked.tiles
  have hstart : heapStart ≤ heapEnd - k ∧ heapEnd - k + k = heapEnd := by
    unfold heapEnd
    omega
  obtain ⟨g, hg, hgu, hga, hgf⟩ := htiles.exists_free_of_range hw.rep.coalesced hpos hstart.1
    (Nat.le_of_eq hstart.2) fun b hb hbu ↦
      .inl (Nat.le_sub_of_add_le (hw.spare_iff.mp hs b hb hbu))
  have hfin := (htiles.mem_bounds hg).2
  exact ⟨g, hg, hgu, by omega, by omega⟩

/-- **An allocation that fits into what is to spare succeeds**, and leaves the rest. -/
theorem spare_kmalloc (hw : Owned h live bs) (hmax : size ≤ maxRequest) (hpos : 0 < size)
    (hs : Spare h (size + overhead + k)) (hk : size + overhead + k ≤ heapSize)
    (hcall : Memory.kmalloc h size = some (p, h')) : p ≠ null ∧ Spare h' k := by
  obtain ⟨_, _, _, htotal⟩ := totalSize_bounds hmax
  have hroom : Room h null (totalSize size) := by
    refine hw.room_of_spare (hs.mono ?_) ?_ <;> unfold overhead at * <;> omega
  refine ⟨hw.kmalloc_ne_null hpos hmax hroom hcall, ?_⟩
  rcases hw.kmalloc (.inl hmax) with hnull | ⟨b, bs', h₁, ha, hsome, _, hw₁⟩
  · exact absurd hroom ((hw.kmalloc_eq_null_iff hpos hmax).mp hnull)
  obtain rfl : h₁ = h' := congrArg Prod.snd (Option.some.inj (hsome.symm.trans hcall))
  refine hw₁.spare_iff.mpr fun c hc hcu ↦ ?_
  have hall := hw.spare_iff.mp hs
  rcases (mem_alloc_iff ha hcu).mp hc with hc | rfl
  · have := hall c hc hcu
    omega
  -- the new block is the beginning of a free block: of the last one, or of one before it
  obtain ⟨f, hf, _, haddr, hfin⟩ := alloc_from_free ha
  obtain ⟨g, hg, _, hga, hgf⟩ := hw.exists_last hs (by unfold overhead; omega) hk
  have hsize := (alloc_size_bounds (by decide) ha).2
  unfold overhead at hga
  rcases hw.rep.linked.tiles.eq_or_disjoint hf hg with rfl | hd | hd
  · unfold Block.fin splitSlack at *
    omega
  · omega
  · have hbounds := hw.rep.linked.tiles.mem_bounds hf
    unfold Block.fin at *
    omega

theorem succeeds_of_spare (hw : Owned h live bs) (hmax : size ≤ maxRequest) (hpos : 0 < size)
    (hs : Spare h (size + overhead)) (hk : size + overhead ≤ heapSize) : Succeeds h size := by
  rcases hw.kmalloc (.inl hmax) with hnull | ⟨b, _, h₁, _, hsome, _⟩
  · exact absurd rfl (hw.spare_kmalloc (k := 0) hmax hpos hs hk hnull).1
  · exact ⟨_, h₁, hsome, Nat.ne_of_gt (Nat.succ_pos _)⟩

/-- To free a block takes nothing of what is to spare. -/
theorem spare_kfree (hw : Owned h live bs) (hp : live p = some o)
    (hcall : Memory.kfree h p = some h') (hs : Spare h k) : Spare h' k := by
  obtain ⟨b, _, _, h₁, hfree, hw₁⟩ := hw.kfree hp
  obtain rfl : h₁ = h' := Option.some.inj (hfree.symm.trans hcall)
  refine hw₁.spare_iff.mpr fun c hc hcu ↦ ?_
  exact hw.spare_iff.mp hs c ((mem_release_iff hcu).mp hc).1 hcu

/-- Nor do writes into blocks. -/
theorem spare_congr (hw : Owned h live bs) (hw' : Owned h' live' bs) (hs : Spare h k) :
    Spare h' k := hw'.spare_iff.mpr (hw.spare_iff.mp hs)

end Owned

/-- At first the whole heap is to spare. -/
theorem spare_init (m : Mem) : Spare (memoryInit m) heapSize := by
  refine (Owned.init m).spare_iff.mpr fun b hb hbu ↦ ?_
  rw [List.mem_singleton.mp hb] at hbu
  cases hbu

end KontolOS.Memory
