import KontolOS.Memory.Steps

/-!
# Requests that wrap around

`kmalloc` rounds a request up to a multiple of 8 and adds the size of a header, both in
32 bits and unchecked.  Above `maxRequest` one of the two wraps, and the request is
charged 4 or 12 bytes.  If there is any free block, the first one is then carved up for
a pointer behind which there are at most 40 bytes.

`honoured_iff` says exactly which requests a heap honours: those that do not wrap, and,
when no block is free, all of them, since all are refused.
-/

namespace KontolOS.Memory

open KontolOS.Lib Function

/-! ## What it means to honour a request -/

/-- The block behind `ptr` lies in the heap and has `size` bytes of payload. -/
def HasPayload (h : Heap) (ptr size : Nat) : Prop :=
  heapStart + sizeofBlock ≤ ptr ∧
  ptr - sizeofBlock + blockSize h.mem (ptr - sizeofBlock) ≤ heapEnd ∧
  size + sizeofBlock ≤ blockSize h.mem (ptr - sizeofBlock)

/-- Every block on the list has room for its header. -/
def HeadersFit (h : Heap) : Prop :=
  ∃ bs, BlockList h.mem h.heapStart bs ∧ ∀ b ∈ bs, sizeofBlock ≤ b.size

/-- The heap of `w` honours requests of `size` bytes: a pointer that is returned has that
many bytes behind it, and what cannot be granted is refused. -/
structure Honoured (w : Clients) (size : Nat) : Prop where
  /-- what `kmalloc` returns -/
  kmalloc : ∀ ptr h', kmalloc w.heap size = some (ptr, h') → ptr ≠ null →
    HasPayload h' ptr size ∧ HeadersFit h'
  /-- what `krealloc` returns -/
  krealloc : ∀ p, p = null ∨ (w.live p).isSome → ∀ ptr h',
    krealloc w.heap p size = some (ptr, h') → ptr ≠ null →
      HasPayload h' ptr size ∧ HeadersFit h'
  /-- the copy of `krealloc`, of all the bytes of the old block, stays in the new one -/
  copy : ∀ p, (w.live p).isSome → 0 < size →
    ¬ size ≤ sub32 (blockSize w.heap.mem (sub32 p sizeofBlock)) sizeofBlock →
      ∀ ptr h', Memory.kmalloc w.heap size = some (ptr, h') → ptr ≠ null →
        ptr + sub32 (blockSize w.heap.mem (sub32 p sizeofBlock)) sizeofBlock ≤
          ptr - sizeofBlock + blockSize h'.mem (ptr - sizeofBlock)
  /-- what is too large for the heap is refused -/
  refused : heapSize < size → (Memory.kmalloc w.heap size).map Prod.fst = some null ∧
    ∀ p, p = null ∨ (w.live p).isSome → (Memory.krealloc w.heap p size).map Prod.fst = some null

/-! ## Harmless requests are honoured -/

namespace Owned

variable {h : Heap} {live : Live} {bs : List Block} {p size : Nat} {o : Obj}

/-- Behind a live pointer there is the payload it was granted for. -/
theorem hasPayload (hw : Owned h live bs) (hp : live p = some o) :
    HasPayload h p o.req ∧ HeadersFit h := by
  obtain ⟨b, hb, _, rfl, hreq⟩ := hw.block_of_live hp
  have hl := hw.rep.linked
  have hbound := hl.bounds hb
  refine ⟨?_, bs, BlockList.of_rep hw.rep, fun c hc ↦ (hl.sized c hc).1⟩
  rw [HasPayload, Nat.add_sub_cancel, (hl.headers b hb).size]
  exact ⟨Nat.add_le_add_right hbound.1 _, hbound.2.2, hreq⟩

theorem kmalloc_honoured (hw : Owned h live bs) (hs : Harmless h size) :
    ∃ ptr h', Memory.kmalloc h size = some (ptr, h') ∧
      (ptr ≠ null → HasPayload h' ptr size ∧ HeadersFit h') := by
  rcases hw.kmalloc hs with hk | ⟨b, bs', h', _, hk, _, hw'⟩
  · exact ⟨null, h, hk, fun hne ↦ absurd rfl hne⟩
  · exact ⟨_, h', hk, fun _ ↦ hw'.hasPayload (update_self _ _ _)⟩

theorem krealloc_honoured (hw : Owned h live bs) (hs : Harmless h size)
    (hp : p = null ∨ (live p).isSome) :
    ∃ ptr h', Memory.krealloc h p size = some (ptr, h') ∧
      (ptr ≠ null → HasPayload h' ptr size ∧ HeadersFit h') := by
  rcases hp with rfl | hp
  · exact hw.kmalloc_honoured hs
  · obtain ⟨o, ho⟩ := Option.isSome_iff_exists.mp hp
    rcases Nat.eq_zero_or_pos size with rfl | hpos
    · have hne : p ≠ null := by
        rintro rfl
        rw [hw.live_null] at ho
        cases ho
      obtain ⟨_, _, _, h', hfree, _⟩ := hw.kfree ho
      refine ⟨null, h', ?_, fun hn ↦ absurd rfl hn⟩
      rw [Memory.krealloc, if_neg hne, if_pos rfl, hfree]
      rfl
    · rcases hw.krealloc ho hpos hs with hk | ⟨ptr, h', bs', hk, _, _, hw', _⟩
      · exact ⟨null, h, hk, fun hn ↦ absurd rfl hn⟩
      · exact ⟨ptr, h', hk, fun _ ↦ hw'.hasPayload (update_self _ _ _)⟩

end Owned

/-- No block has more payload than the heap has bytes. -/
theorem HasPayload.size_le {h : Heap} {ptr size : Nat} (hp : HasPayload h ptr size) :
    size ≤ heapSize := by
  obtain ⟨h₁, h₂, h₃⟩ := hp
  unfold heapEnd at h₂
  omega

theorem honoured_of_harmless {w : Clients} {bs : List Block} {size : Nat}
    (hw : Owned w.heap w.live bs) (hs : Harmless w.heap size) : Honoured w size := by
  obtain ⟨ptr₀, h₀, hk₀, hpay₀⟩ := hw.kmalloc_honoured hs
  refine ⟨?_, ?_, ?_, ?_⟩
  · intro ptr h' hk
    cases hk₀.symm.trans hk
    exact hpay₀
  · intro p hp ptr h' hk
    obtain ⟨ptr₁, h₁, hk₁, hpay₁⟩ := hw.krealloc_honoured hs hp
    cases hk₁.symm.trans hk
    exact hpay₁
  · intro p _ _ hgrow ptr h' hk hne
    cases hk₀.symm.trans hk
    obtain ⟨hlo, _, hroom⟩ := (hpay₀ hne).1
    omega
  · intro hbig
    have hnull : ∀ {ptr : Nat} {h' : Heap},
        (ptr ≠ null → HasPayload h' ptr size ∧ HeadersFit h') → ptr = null := by
      intro ptr h' hpay
      by_contra hne
      exact absurd (hpay hne).1.size_le (Nat.not_le.mpr hbig)
    refine ⟨by rw [hk₀, hnull hpay₀]; rfl, fun p hp ↦ ?_⟩
    obtain ⟨ptr₁, h₁, hk₁, hpay₁⟩ := hw.krealloc_honoured hs hp
    rw [hk₁, hnull hpay₁]
    rfl

/-! ## Requests that wrap are not -/

/-- A request that wraps is charged at most a header. -/
theorem totalSize_le_of_wrap {size : Nat} (hs : size < 2 ^ 32) (hwrap : maxRequest < size) :
    totalSize size ≤ sizeofBlock := by
  unfold maxRequest at hwrap
  have hlt : add32 size 7 < 2 ^ 32 := Nat.mod_lt _ (by decide)
  rw [totalSize, alignUp, land_mask hlt]
  unfold add32 sizeofBlock
  omega

/-- The block taken for a small request is small, whatever the request was charged. -/
theorem blockSize_kmallocTake_lt {h : Heap} {n c : Nat} (hn : n ≤ sizeofBlock) :
    blockSize (kmallocTake h n c).2.mem c < n + splitSlack := by
  have hslack : add32 (add32 n sizeofBlock) 16 = n + splitSlack := by
    unfold sizeofBlock at hn
    have hinner : add32 n sizeofBlock = n + sizeofBlock :=
      add32_of_lt (by unfold sizeofBlock; omega)
    rw [hinner, add32_of_lt (by unfold sizeofBlock; omega)]
    rfl
  have hmod : n % 2 ^ 32 ≤ n := Nat.mod_le _ _
  simp only [kmallocTake, blockSize_setUsed, hslack]
  split
  · rw [blockSize_setNext, blockSize_setSize]
    unfold splitSlack
    omega
  · exact Nat.not_le.mp ‹_›

/-- **A request that wraps** is granted the first free block there is, cut down to at most
40 bytes. -/
theorem kmalloc_of_wrap {h : Heap} {bs : List Block} {b : Block} {size : Nat} (hr : Rep h bs)
    (hb : b ∈ bs) (hbu : b.used = false) (hs : size < 2 ^ 32) (hwrap : maxRequest < size) :
    ∃ c ∈ bs, ∃ h', kmalloc h size = some (c.addr + sizeofBlock, h') ∧
      blockSize h'.mem c.addr < sizeofBlock + splitSlack := by
  have hn := totalSize_le_of_wrap hs hwrap
  have hpos : size ≠ 0 := Nat.ne_of_gt (Nat.lt_of_le_of_lt (Nat.zero_le _) hwrap)
  have hfit : b.fits (totalSize size) = true :=
    Block.fits_iff.mpr ⟨hbu, Nat.le_trans hn (hr.linked.sized b hb).1⟩
  obtain ⟨c, hc⟩ := Option.isSome_iff_exists.mp (List.find?_isSome.mpr ⟨b, hb, hfit⟩)
  refine ⟨c, List.mem_of_find?_eq_some hc, (kmallocTake h (totalSize size) c.addr).2, ?_, ?_⟩
  · rw [kmalloc, if_neg hpos, search_eq hr, hc]
    rfl
  · exact Nat.lt_of_lt_of_le (blockSize_kmallocTake_lt hn) (Nat.add_le_add_right hn _)

theorem not_honoured_of_wrap {w : Clients} {bs : List Block} {b : Block} {size : Nat}
    (hw : Owned w.heap w.live bs) (hb : b ∈ bs) (hbu : b.used = false) (hs : size < 2 ^ 32)
    (hwrap : maxRequest < size) : ¬ Honoured w size := by
  intro hh
  obtain ⟨c, _, h', hk, hsmall⟩ := kmalloc_of_wrap hw.rep hb hbu hs hwrap
  have hne : c.addr + sizeofBlock ≠ null := Nat.ne_of_gt (Nat.succ_pos _)
  obtain ⟨_, _, hroom⟩ := (hh.kmalloc _ _ hk hne).1
  rw [Nat.add_sub_cancel] at hroom
  unfold maxRequest at hwrap
  unfold sizeofBlock splitSlack at hsmall
  omega

/-! ## Which requests are honoured -/

/-- **Exactly the harmless requests are honoured**, in every state reached by harmless
requests. -/
theorem honoured_iff {w : Clients} (hr : Reachable Careful w) {size : Nat}
    (hs : size < 2 ^ 32) :
    Honoured w size ↔ size ≤ maxRequest ∨
      ∀ bs, BlockList w.heap.mem w.heap.heapStart bs → ∀ b ∈ bs, b.used = true := by
  obtain ⟨bs, hw⟩ := hr.owned
  constructor
  · intro hh
    by_contra hwrap
    obtain ⟨hwrap, hfree⟩ := not_or.mp hwrap
    push Not at hfree
    obtain ⟨cs, hcs, b, hb, hbu⟩ := hfree
    rw [BlockList.eq_of_rep hw.rep hcs] at hb
    exact not_honoured_of_wrap hw hb (Bool.eq_false_of_not_eq_true hbu) hs
      (Nat.not_le.mp hwrap) hh
  · exact honoured_of_harmless hw

/-- On a fragmented heap a block that was moved by `krealloc` is moved again, and has 400 bytes of
payload then. -/
theorem honoured_iff_fragmented : ∃ w, Reachable Careful w ∧
    (Honoured w 400 ↔ 400 ≤ maxRequest ∨
      ∀ bs, BlockList w.heap.mem w.heap.heapStart bs → ∀ b ∈ bs, b.used = true) ∧
    ∃ ptr h', krealloc w.heap (heapStart + 328 + sizeofBlock) 400 = some (ptr, h') ∧
      ptr ≠ heapStart + 328 + sizeofBlock ∧ HasPayload h' ptr 400 ∧ HeadersFit h' := by
  obtain ⟨w, hrun, hw, _, hq⟩ := fragmented fun _ ↦ 0
  have hr : Reachable Careful w :=
    Reachable.mono ⟨_, _, hrun⟩ fun _ _ ↦ Legal.careful (by decide)
  have hiff := honoured_iff hr (by decide : 400 < 2 ^ 32)
  obtain ⟨h₁, hk, hfresh, hw₁⟩ := hw.kmalloc_some (by decide : 0 < 400) (by decide)
    (show _ = some (⟨heapStart + 644, 412, true⟩, [⟨heapStart, 68, true⟩,
      ⟨heapStart + 68, 260, false⟩, ⟨heapStart + 328, 316, true⟩, ⟨heapStart + 644, 412, true⟩,
      ⟨heapStart + 1056, heapSize - 1056, false⟩]) by decide)
  obtain ⟨h', hre, _⟩ := hw.krealloc_moves (b := ⟨heapStart + 328, 316, true⟩) (by decide) hq
    (by decide) (by decide) rfl hk hfresh hw₁
  have hpay := (hiff.mpr (.inl (by decide))).krealloc _ (.inr (by simp [hq])) _ _ hre (by decide)
  exact ⟨w, hr, hiff, _, h', hre, by decide, hpay⟩

/-- On the heap of `memory_init`, a request of `2 ^ 32 - 1` bytes is granted a block that is
all header. -/
theorem not_honoured_init : Reachable Careful (Clients.init fun _ ↦ 0) ∧
    ¬ Honoured (Clients.init fun _ ↦ 0) 0xFFFFFFFF ∧
    ∃ h', kmalloc (memoryInit fun _ ↦ 0) 0xFFFFFFFF = some (heapStart + sizeofBlock, h') ∧
      blockSize h'.mem heapStart = sizeofBlock := by
  have hw := Owned.init fun _ ↦ 0
  have hw₀ : Owned (Clients.init fun _ ↦ 0).heap (Clients.init fun _ ↦ 0).live
      [{ addr := heapStart, size := heapSize, used := false }] := hw
  refine ⟨⟨_, [], .nil _⟩, not_honoured_of_wrap hw₀ List.mem_cons_self rfl (by decide)
    (by decide), (kmallocTake (memoryInit fun _ ↦ 0) sizeofBlock heapStart).2, ?_, ?_⟩
  · rw [kmalloc, if_neg (by decide), search_eq hw.rep]
    rfl
  · simp [kmallocTake, memoryInit, sizeofBlock, heapSize, add32]

end KontolOS.Memory
