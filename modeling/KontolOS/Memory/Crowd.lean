import Mathlib.Data.List.Nodup
import Mathlib.Data.List.Perm.Subperm
import KontolOS.Lib.Gaps
import KontolOS.Memory.Spare

/-!
# Few small blocks

`Small h m` says that no used block of the heap has more than `m` bytes.  A heap with few live
allocations, none of which is large, has room for another one, in whatever order they were made
and freed (`Owned.room_of_few`).
-/

namespace KontolOS.Memory

open KontolOS.Lib Function

/-- No used block is larger than `m`. -/
def Small (h : Heap) (m : Nat) : Prop :=
  ∀ bs, BlockList h.mem h.heapStart bs → ∀ b ∈ bs, b.used = true → b.size ≤ m

namespace Owned

variable {h h' : Heap} {live live' : Live} {bs bs' : List Block} {p size k m : Nat} {o : Obj}
  {ptrs : List Nat}

/-- The sizes, read off the block list. -/
theorem small_iff (hw : Owned h live bs) : Small h m ↔ ∀ b ∈ bs, b.used = true → b.size ≤ m := by
  refine ⟨fun hs ↦ hs bs (BlockList.of_rep hw.rep), fun hs cs hcs ↦ ?_⟩
  rw [BlockList.eq_of_rep hw.rep hcs]
  exact hs

/-! ## What the calls do to it -/

/-- An allocation of limited size. -/
theorem small_kmalloc (hw : Owned h live bs) (hmax : size ≤ maxRequest) (hle : size + overhead ≤ m)
    (hs : Small h m) (hcall : Memory.kmalloc h size = some (p, h')) : Small h' m := by
  rcases hw.kmalloc (.inl hmax) with hnull | ⟨b, bs', h₁, ha, hsome, _, hw₁⟩
  · cases hnull.symm.trans hcall
    exact hs
  obtain rfl : h₁ = h' := congrArg Prod.snd (Option.some.inj (hsome.symm.trans hcall))
  refine hw₁.small_iff.mpr fun c hc hcu ↦ ?_
  rcases (mem_alloc_iff ha hcu).mp hc with hc | rfl
  · exact hw.small_iff.mp hs c hc hcu
  · have htotal := (totalSize_bounds hmax).2.2.2
    have hsize := (alloc_size_bounds (by decide) ha).2
    unfold overhead at hle
    unfold splitSlack at hsize
    omega

theorem small_kfree (hw : Owned h live bs) (hp : live p = some o)
    (hcall : Memory.kfree h p = some h') (hs : Small h m) : Small h' m := by
  obtain ⟨b, _, _, h₁, hfree, hw₁⟩ := hw.kfree hp
  obtain rfl : h₁ = h' := Option.some.inj (hfree.symm.trans hcall)
  refine hw₁.small_iff.mpr fun c hc hcu ↦ ?_
  exact hw.small_iff.mp hs c ((mem_release_iff hcu).mp hc).1 hcu

/-- A write into blocks. -/
theorem small_congr (hw : Owned h live bs) (hw' : Owned h' live' bs) (hs : Small h m) :
    Small h' m := hw'.small_iff.mpr (hw.small_iff.mp hs)

/-! ## Counting -/

/-- There are no more used blocks than live pointers. -/
theorem population_le (hw : Owned h live bs) (hptrs : ∀ p, (live p).isSome → p ∈ ptrs) :
    population true bs ≤ ptrs.length := by
  have htiles := hw.rep.linked.tiles
  have hnodup : ((bs.filter (·.used)).map fun b ↦ b.addr + sizeofBlock).Nodup := by
    refine List.Nodup.map_on (fun b hb c hc heq ↦ ?_) (htiles.nodup.filter _)
    exact htiles.eq_of_addr_eq (List.mem_of_mem_filter hb) (List.mem_of_mem_filter hc)
      (Nat.add_right_cancel heq)
  have hsub : (bs.filter (·.used)).map (fun b ↦ b.addr + sizeofBlock) ⊆ ptrs := by
    intro q hq
    obtain ⟨b, hb, rfl⟩ := List.mem_map.mp hq
    obtain ⟨hmem, hu⟩ := List.mem_filter.mp hb
    exact hptrs _ ((hw.live_iff _).mpr ⟨b, hmem, hu, rfl⟩)
  have hlen := (List.subperm_of_subset hnodup hsub).length_le
  rw [List.length_map, ← List.countP_eq_length_filter] at hlen
  simpa [population] using hlen

/-- **Room among few small blocks.** -/
theorem room_of_few (hw : Owned h live bs) (hs : Small h m)
    (hptrs : ∀ p, (live p).isSome → p ∈ ptrs) (hfew : ptrs.length ≤ k) (hpos : 0 < size)
    (hmax : size ≤ maxRequest) (hroom : k * m + (k + 1) * (size + overhead) ≤ heapSize) :
    Room h null (totalSize size) := by
  have htotal := totalSize_bounds hmax
  have hle : totalSize size ≤ size + overhead := by
    unfold overhead
    omega
  have hn : 0 < totalSize size := Nat.lt_of_lt_of_le (by decide) htotal.2.1
  have hmul := Nat.mul_le_mul_left (k + 1) hle
  have hend : heapStart + (k * m + (k + 1) * totalSize size) ≤ heapEnd := by
    unfold heapEnd
    omega
  have halloc : alloc (totalSize size) splitSlack bs ≠ none :=
    alloc_ne_none_of_few hw.rep.linked.tiles hw.rep.coalesced (hw.small_iff.mp hs)
      (Nat.le_trans (hw.population_le hptrs) hfew) hend hn
  by_contra hno
  have hnull := (hw.kmalloc_eq_null_iff hpos hmax).mpr hno
  cases ha : alloc (totalSize size) splitSlack bs with
  | none => exact halloc ha
  | some r =>
      obtain ⟨h₁, hsome, _⟩ := hw.kmalloc_some hpos hmax ha
      exact absurd (congrArg Prod.fst (Option.some.inj (hsome.symm.trans hnull)))
        (Nat.ne_of_gt (Nat.succ_pos _))

end Owned

end KontolOS.Memory
