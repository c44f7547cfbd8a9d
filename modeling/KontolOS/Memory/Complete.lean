import KontolOS.Memory.Room

/-!
# `kmalloc` is complete

First fit looks at one block at a time.  That it fails only when the heap has no free range
that is long enough rests on the history of the heap: in a reachable state the maximal free
ranges are single blocks (`Tiles.maximalVacant_iff`).

The free ranges are those of the addresses, not of the list: `FreeByte h x` says that `x` lies
in the heap and in no used block.
-/

namespace KontolOS.Memory

open KontolOS.Lib

/-! ## What `kmalloc` promises -/

/-- A request, rounded up to a multiple of 8. -/
def roundup8 (size : Nat) : Nat := (size + 7) / 8 * 8

/-- The bytes a request needs, its header included. -/
def needed (size : Nat) : Nat := roundup8 size + sizeofBlock

/-- The address `x` is a heap byte outside the used blocks. -/
def FreeByte (h : Heap) (x : Nat) : Prop :=
  heapStart ≤ x ∧ x < heapEnd ∧ ∀ bs, BlockList h.mem h.heapStart bs →
    ∀ b ∈ bs, b.used = true → x < b.addr ∨ b.fin ≤ x

/-- The `n` bytes from `x` on are free. -/
def FreeRange (h : Heap) (x n : Nat) : Prop := ∀ i < n, FreeByte h (x + i)

/-- The `n` bytes from `x` on are free, and the range cannot be continued on either side. -/
structure MaximalFreeRange (h : Heap) (x n : Nat) : Prop where
  /-- it is not empty -/
  pos : 0 < n
  /-- its bytes are free -/
  free : FreeRange h x n
  /-- the byte in front of it is not -/
  before : ∀ y, y + 1 = x → ¬ FreeByte h y
  /-- nor is the byte behind it -/
  after : ¬ FreeByte h (x + n)

/-- What `kmalloc(size)` owes its caller when it turns `h` into `h'` and returns `ptr`. -/
structure Completes (h : Heap) (size ptr : Nat) (h' : Heap) : Prop where
  /-- it fails only when there is no free range that is long enough -/
  null_iff : ptr = null ↔ ¬ ∃ x n, needed size ≤ n ∧ FreeRange h x n
  /-- when it fails, nothing changes -/
  unchanged : ptr = null → h' = h
  /-- otherwise it takes the lowest maximal free range that is long enough, from its start -/
  lowest : ptr ≠ null → ∃ x n, ptr = x + sizeofBlock ∧ MaximalFreeRange h x n ∧ needed size ≤ n ∧
    ∀ y k, MaximalFreeRange h y k → needed size ≤ k → x ≤ y
  /-- and at most 27 bytes more than needed -/
  slack : ptr ≠ null → ∃ bs, BlockList h'.mem h'.heapStart bs ∧ ∃ b ∈ bs, b.used = true ∧
    b.addr + sizeofBlock = ptr ∧ needed size ≤ b.size ∧ b.size ≤ needed size + 27

/-! ## Free ranges and the block list -/

namespace Owned

variable {h : Heap} {live : Live} {bs : List Block} {x n size : Nat}

/-- Free bytes, read off the block list. -/
theorem freeByte_iff (hw : Owned h live bs) : FreeByte h x ↔ Vacant heapStart bs heapEnd x := by
  constructor
  · rintro ⟨hlo, hhi, hout⟩
    exact ⟨hlo, hhi, hout bs (BlockList.of_rep hw.rep)⟩
  · rintro ⟨hlo, hhi, hout⟩
    refine ⟨hlo, hhi, fun cs hcs ↦ ?_⟩
    rw [BlockList.eq_of_rep hw.rep hcs]
    exact hout

theorem maximalFreeRange_iff (hw : Owned h live bs) :
    MaximalFreeRange h x n ↔ ∃ b ∈ bs, b.used = false ∧ b.addr = x ∧ b.size = n := by
  rw [← hw.rep.linked.tiles.maximalVacant_iff hw.rep.coalesced]
  constructor
  · intro hm
    exact ⟨hm.pos, fun i hi ↦ hw.freeByte_iff.mp (hm.free i hi),
      fun y hy hv ↦ hm.before y hy (hw.freeByte_iff.mpr hv),
      fun hv ↦ hm.after (hw.freeByte_iff.mpr hv)⟩
  · intro hm
    exact ⟨hm.pos, fun i hi ↦ hw.freeByte_iff.mpr (hm.inside i hi),
      fun y hy hv ↦ hm.before y hy (hw.freeByte_iff.mp hv),
      fun hv ↦ hm.after (hw.freeByte_iff.mp hv)⟩

/-- A free range that is long enough lies in a free block that is large enough. -/
theorem exists_freeRange_iff (hw : Owned h live bs) (hn : 0 < n) :
    (∃ x k, n ≤ k ∧ FreeRange h x k) ↔ ∃ b ∈ bs, b.used = false ∧ n ≤ b.size := by
  have ht := hw.rep.linked.tiles
  constructor
  · rintro ⟨x, k, hnk, hfree⟩
    obtain ⟨b, hb, hbu, hbx, hxb⟩ := ht.exists_free_of_vacant hw.rep.coalesced
      (Nat.lt_of_lt_of_le hn hnk) fun i hi ↦ hw.freeByte_iff.mp (hfree i hi)
    exact ⟨b, hb, hbu, by unfold Block.fin at hxb; omega⟩
  · rintro ⟨b, hb, hbu, hnb⟩
    refine ⟨b.addr, b.size, hnb, fun i hi ↦ hw.freeByte_iff.mpr ?_⟩
    exact ht.vacant_of_free hb hbu (Nat.le_add_right _ _) (Nat.add_lt_add_left hi _)

/-! ## Completeness -/

/-- On a heap that satisfies the invariant `kmalloc` keeps its promise. -/
theorem completes (hw : Owned h live bs) (hpos : 0 < size) (hmax : size ≤ maxRequest) :
    ∃ ptr h', Memory.kmalloc h size = some (ptr, h') ∧ Completes h size ptr h' := by
  have hneeded : totalSize size = needed size := totalSize_eq hmax
  have hn : 0 < needed size := Nat.add_pos_right _ (by decide)
  cases ha : alloc (totalSize size) splitSlack bs with
  | none =>
      have hnone : ¬ ∃ x n, needed size ≤ n ∧ FreeRange h x n := by
        rw [hw.exists_freeRange_iff hn]
        rintro ⟨b, hb, hbu, hnb⟩
        have := alloc_eq_none_iff.mp ha b hb hbu
        omega
      exact ⟨null, h, kmalloc_none hw.rep hpos ha, iff_of_true rfl hnone, fun _ ↦ rfl,
        fun hne ↦ absurd rfl hne, fun hne ↦ absurd rfl hne⟩
  | some r =>
      obtain ⟨b, bs'⟩ := r
      obtain ⟨h', hk, _, hw'⟩ := hw.kmalloc_some hpos hmax ha
      obtain ⟨c, hc, hcu, hcn, hbc, _, hlow⟩ := alloc_lowest hw.rep.linked.tiles ha
      obtain ⟨hlo, hhi⟩ := alloc_size_bounds (by decide) ha
      rw [hneeded] at hcn hlow hlo hhi
      have hptr : b.addr + sizeofBlock ≠ null := Nat.ne_of_gt (Nat.succ_pos _)
      refine ⟨_, h', hk, ?_, fun hnull ↦ absurd hnull hptr, fun _ ↦ ?_, fun _ ↦ ?_⟩
      · refine iff_of_false hptr (not_not.mpr ?_)
        exact (hw.exists_freeRange_iff hn).mpr ⟨c, hc, hcu, hcn⟩
      · refine ⟨c.addr, c.size, by rw [hbc], hw.maximalFreeRange_iff.mpr ⟨c, hc, hcu, rfl, rfl⟩,
          hcn, fun y k hm hk ↦ ?_⟩
        obtain ⟨d, hd, hdu, rfl, rfl⟩ := hw.maximalFreeRange_iff.mp hm
        exact hlow d hd hdu hk
      · exact ⟨bs', BlockList.of_rep hw'.rep, b, alloc_mem ha, alloc_used ha, rfl, hlo,
          Nat.le_of_lt_succ hhi⟩

end Owned

/-! ## Room beside a further allocation -/

/-- The bytes from `lo` to `hi` are those that first fit takes for `n` bytes: the beginning of the
lowest maximal free range that is long enough, or all of it if hardly anything would be left. -/
def TakenFor (h : Heap) (n lo hi : Nat) : Prop :=
  ∃ k, MaximalFreeRange h lo k ∧ n ≤ k ∧ (∀ y j, MaximalFreeRange h y j → n ≤ j → lo ≤ y) ∧
    hi = lo + if n + splitSlack ≤ k then n else k

/-- `Room` that does not meet the bytes from `lo` to `hi` either. -/
def RoomBeside (h : Heap) (p lo hi n : Nat) : Prop :=
  ∃ x, heapStart ≤ x ∧ x + n ≤ heapEnd ∧ (hi ≤ x ∨ x + n ≤ lo) ∧
    ∀ bs, BlockList h.mem h.heapStart bs → ∀ b ∈ bs, b.used = true → b.addr + sizeofBlock ≠ p →
      b.fin ≤ x ∨ x + n ≤ b.addr

namespace Owned

variable {h h' : Heap} {live live' : Live} {bs bs' : List Block} {b : Block} {lo hi p n size : Nat}

theorem takenFor_iff (hw : Owned h live bs) (ha : alloc n splitSlack bs = some (b, bs')) :
    TakenFor h n lo hi ↔ lo = b.addr ∧ hi = b.fin := by
  obtain ⟨c, hc, hcu, hcn, hbc, hsize, hlow⟩ := alloc_lowest hw.rep.linked.tiles ha
  have hfirst : MaximalFreeRange h c.addr c.size :=
    hw.maximalFreeRange_iff.mpr ⟨c, hc, hcu, rfl, rfl⟩
  constructor
  · rintro ⟨k, hm, hk, hleast, rfl⟩
    obtain ⟨d, hd, hdu, rfl, rfl⟩ := hw.maximalFreeRange_iff.mp hm
    have haddr : d.addr = c.addr := Nat.le_antisymm (hleast _ _ hfirst hcn) (hlow d hd hdu hk)
    obtain rfl := hw.rep.linked.tiles.eq_of_addr_eq hd hc haddr
    exact ⟨hbc.symm, by rw [Block.fin, hbc, hsize]⟩
  · rintro ⟨rfl, rfl⟩
    rw [hbc]
    refine ⟨c.size, hfirst, hcn, fun y j hm hj ↦ ?_, by rw [Block.fin, hbc, hsize]⟩
    obtain ⟨d, hd, hdu, rfl, rfl⟩ := hw.maximalFreeRange_iff.mp hm
    exact hlow d hd hdu hj

/-- What has been allocated is not there for others. -/
theorem room_alloc_iff (hw : Owned h live bs) (hw' : Owned h' live' bs') {k : Nat}
    (ha : alloc k splitSlack bs = some (b, bs')) (hp : b.addr + sizeofBlock ≠ p) :
    Room h' p n ↔ RoomBeside h p b.addr b.fin n := by
  rw [hw'.room_iff]
  constructor
  · rintro ⟨x, hx, hxn, havoid⟩
    refine ⟨x, hx, hxn, havoid b (alloc_mem ha) (alloc_used ha) hp, fun cs hcs c hc hcu hcp ↦ ?_⟩
    rw [BlockList.eq_of_rep hw.rep hcs] at hc
    exact havoid c ((mem_alloc_iff ha hcu).mpr (.inl hc)) hcu hcp
  · rintro ⟨x, hx, hxn, hbeside, havoid⟩
    refine ⟨x, hx, hxn, fun c hc hcu hcp ↦ ?_⟩
    rcases (mem_alloc_iff ha hcu).mp hc with hc | rfl
    · exact havoid bs (BlockList.of_rep hw.rep) c hc hcu hcp
    · exact hbeside

/-- **After an allocation** there is no room, as the heap before it foresees. -/
theorem kmalloc_not_room_iff (hw : Owned h live bs) (hpos : 0 < size) (hmax : size ≤ maxRequest)
    (hp : p = null ∨ (live p).isSome) :
    (∃ ptr h', Memory.kmalloc h size = some (ptr, h') ∧ ptr ≠ null ∧ ¬ Room h' p n) ↔
      ∃ lo hi, TakenFor h (totalSize size) lo hi ∧ ¬ RoomBeside h p lo hi n := by
  cases ha : alloc (totalSize size) splitSlack bs with
  | none =>
      refine iff_of_false ?_ ?_
      · rintro ⟨ptr, h', hk, hptr, _⟩
        cases hk.symm.trans (kmalloc_none hw.rep hpos ha)
        exact hptr rfl
      · rintro ⟨lo, hi, ⟨k, hm, hk, _⟩, _⟩
        obtain ⟨c, hc, hcu, _, rfl⟩ := hw.maximalFreeRange_iff.mp hm
        exact absurd hk (Nat.not_le.mpr (alloc_eq_none_iff.mp ha c hc hcu))
  | some r =>
      obtain ⟨b, bs'⟩ := r
      obtain ⟨h', hk, hfresh, hw'⟩ := hw.kmalloc_some hpos hmax ha
      have hptr : b.addr + sizeofBlock ≠ null := Nat.ne_of_gt (Nat.succ_pos _)
      have hne : b.addr + sizeofBlock ≠ p := by
        rintro rfl
        rcases hp with hnull | hlive
        · exact hptr hnull
        · rw [hfresh] at hlive
          cases hlive
      have hiff := hw.room_alloc_iff (n := n) hw' ha hne
      constructor
      · rintro ⟨ptr, h₁, hk₁, _, hno⟩
        cases hk₁.symm.trans hk
        exact ⟨_, _, (hw.takenFor_iff ha).mpr ⟨rfl, rfl⟩, fun hroom ↦ hno (hiff.mpr hroom)⟩
      · rintro ⟨lo, hi, htaken, hno⟩
        obtain ⟨rfl, rfl⟩ := (hw.takenFor_iff ha).mp htaken
        exact ⟨_, h', hk, hptr, fun hroom ↦ hno (hiff.mp hroom)⟩

end Owned

/-- **`kmalloc` is complete** in every reachable state: it fails only when it must, changes
nothing when it fails, and otherwise takes the lowest range that will do. -/
theorem reachable_completes {w : Clients} (hr : Reachable Careful w) {size : Nat}
    (hpos : 1 ≤ size) (hmax : size ≤ heapSize) :
    ∃ ptr h', kmalloc w.heap size = some (ptr, h') ∧ Completes w.heap size ptr h' := by
  obtain ⟨bs, hw⟩ := hr.owned
  exact hw.completes hpos (Nat.le_trans hmax (by decide))

/-- On a fragmented heap 248 bytes go into the hole, 249 bytes behind the last used block, and all
of the heap nowhere. -/
theorem reachable_completes_fragmented : ∃ w, Reachable Careful w ∧
    (∃ h', kmalloc w.heap 248 = some (heapStart + 68 + sizeofBlock, h') ∧
      Completes w.heap 248 (heapStart + 68 + sizeofBlock) h') ∧
    (∃ h', kmalloc w.heap 249 = some (heapStart + 644 + sizeofBlock, h') ∧
      Completes w.heap 249 (heapStart + 644 + sizeofBlock) h') ∧
    kmalloc w.heap heapSize = some (null, w.heap) ∧ Completes w.heap heapSize null w.heap := by
  obtain ⟨w, hrun, hw, _⟩ := fragmented fun _ ↦ 0
  have hr : Reachable Careful w :=
    Reachable.mono ⟨_, _, hrun⟩ fun _ _ ↦ Legal.careful (by decide)
  refine ⟨w, hr, ?_, ?_, ?_⟩
  · obtain ⟨h', hk, _⟩ := hw.kmalloc_some (by decide : 0 < 248) (by decide)
      (show _ = some (⟨heapStart + 68, 260, true⟩, [⟨heapStart, 68, true⟩,
        ⟨heapStart + 68, 260, true⟩, ⟨heapStart + 328, 316, true⟩,
        ⟨heapStart + 644, heapSize - 644, false⟩]) by decide)
    obtain ⟨_, _, hk', hc⟩ := reachable_completes hr (by decide : 1 ≤ 248) (by decide)
    cases hk.symm.trans hk'
    exact ⟨h', hk, hc⟩
  · obtain ⟨h', hk, _⟩ := hw.kmalloc_some (by decide : 0 < 249) (by decide)
      (show _ = some (⟨heapStart + 644, 268, true⟩, [⟨heapStart, 68, true⟩,
        ⟨heapStart + 68, 260, false⟩, ⟨heapStart + 328, 316, true⟩, ⟨heapStart + 644, 268, true⟩,
        ⟨heapStart + 912, heapSize - 912, false⟩]) by decide)
    obtain ⟨_, _, hk', hc⟩ := reachable_completes hr (by decide : 1 ≤ 249) (by decide)
    cases hk.symm.trans hk'
    exact ⟨h', hk, hc⟩
  · have hk := kmalloc_none hw.rep (by decide : 0 < heapSize) (by decide)
    obtain ⟨_, _, hk', hc⟩ := reachable_completes hr (by decide : 1 ≤ heapSize) (Nat.le_refl _)
    cases hk.symm.trans hk'
    exact ⟨hk, hc⟩

end KontolOS.Memory
