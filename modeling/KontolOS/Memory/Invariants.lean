import KontolOS.Memory.Steps

/-!
# The allocator over whole runs

Three results about every state reached from `memory_init` by calls with requests of at
most `HEAP_SIZE` bytes, in any order, with clients writing inside what they requested:

* `reachable_tiles_heap`: the block list tiles the heap, its used blocks are the live
  allocations, and `used_memory` counts them;
* `reachable_isolated`: an allocation keeps what its owner wrote, and no client write
  reaches a header;
* `reachable_canonical`: the block list is a normal form for the set of used blocks.

They are stated about `BlockList`, and so do not depend on the invariant they are proved
with.
-/

namespace KontolOS.Memory

open KontolOS.Lib Function

/-! ## The heap is tiled -/

/-- The heap of `w` is tiled by the block list `bs`, and the statistics count it. -/
structure HeapTiled (w : Clients) (bs : List Block) : Prop where
  /-- `bs` is the list in memory, and finite -/
  list : BlockList w.heap.mem w.heap.heapStart bs
  /-- the first block is at `HEAP_START` -/
  first : bs.head?.map Block.addr = some heapStart
  /-- each block ends where the next one begins -/
  adjacent : bs.IsChain fun b c ↦ b.addr + b.size = c.addr
  /-- the last block ends at `HEAP_END` -/
  last : bs.getLast?.map Block.fin = some heapEnd
  /-- every block has room for its header -/
  room : ∀ b ∈ bs, sizeofBlock ≤ b.size
  /-- every block is 4-byte aligned -/
  aligned : ∀ b ∈ bs, 4 ∣ b.addr
  /-- the used blocks are the live allocations -/
  live_iff : ∀ p, (w.live p).isSome ↔ ∃ b ∈ bs, b.used = true ∧ b.addr + sizeofBlock = p
  /-- `used_memory` is the sum of the sizes of the used blocks -/
  used : memoryGetUsed w.heap = extent true bs
  /-- `used_memory` never exceeds `total_memory` -/
  used_le : memoryGetUsed w.heap ≤ memoryGetTotal w.heap
  /-- `memory_get_free` is the sum of the sizes of the free blocks -/
  free : memoryGetFree w.heap = extent false bs

theorem Owned.heapTiled {w : Clients} {bs : List Block} (hw : Owned w.heap w.live bs) :
    HeapTiled w bs := by
  have hl := hw.rep.linked
  have hsum := hl.tiles.extent_add
  have hused := hw.rep.used
  have htotal := hw.rep.total
  refine ⟨BlockList.of_rep hw.rep, ?_, hl.tiles.isChain, ?_, fun b hb ↦ (hl.sized b hb).1,
    fun b hb ↦ hl.tiles.dvd_addr hl.sized (by decide) hb, hw.live_iff, hused, ?_, ?_⟩
  · cases bs with
    | nil => exact absurd (show heapStart = heapEnd from hl.tiles) (by decide)
    | cons b bs => exact congrArg some hl.tiles.1
  · rcases List.eq_nil_or_concat bs with rfl | ⟨cs, b, rfl⟩
    · exact absurd (show heapStart = heapEnd from hl.tiles) (by decide)
    · have htiles := hl.tiles
      rw [List.concat_eq_append] at htiles
      obtain ⟨_, _, _, _, hfin⟩ := Tiles.append_iff.mp htiles
      simpa using hfin
  · unfold memoryGetUsed memoryGetTotal
    rw [hused, htotal]
    unfold heapEnd at hsum
    omega
  · unfold memoryGetFree
    unfold heapEnd heapStart heapSize at hsum
    rw [hused, htotal, sub32_of_le (by unfold heapSize; omega) (by decide)]
    unfold heapSize
    omega

/-- **The heap is tiled** in every reachable state, and every legal call returns. -/
theorem reachable_tiles_heap {w : Clients} (hr : Reachable (Legal heapSize) w) :
    (∃ bs, HeapTiled w bs) ∧ ∀ c, Legal heapSize w c → ∃ r, exec w c = some r := by
  obtain ⟨bs, hw⟩ := (hr.mono fun _ _ ↦ Legal.careful (by decide)).owned
  refine ⟨⟨bs, hw.heapTiled⟩, fun c hc ↦ ?_⟩
  rw [← join_nobody w.live] at hw
  obtain ⟨r, hexec, _⟩ := hw.step (fun _ _ ↦ rfl) (hc.careful (by decide))
  exact ⟨r, hexec⟩

/-- The heap that `fragmenting` leaves is tiled by two used blocks and two free ones. -/
theorem reachable_tiles_heap_fragmented :
    ∃ w, Run (ClientStep (Legal heapSize)) (Clients.init fun _ ↦ 0) fragmenting w ∧
      HeapTiled w fragments ∧ memoryGetUsed w.heap = 68 + 316 ∧
      ∀ c, Legal heapSize w c → ∃ r, exec w c = some r := by
  obtain ⟨w, hrun, hw, _⟩ := fragmented fun _ ↦ 0
  obtain ⟨⟨bs, ht⟩, hreturns⟩ := reachable_tiles_heap ⟨_, _, hrun⟩
  obtain rfl := BlockList.eq_of_rep hw.rep ht.list
  exact ⟨w, hrun, ht, ht.used, hreturns⟩

/-! ## Allocations are isolated -/

/-- What keeps the clients of `w` apart. -/
structure Isolated (w : Clients) : Prop where
  /-- the bytes an owner requested read back as it last wrote them -/
  kept : ∀ p o, w.live p = some o → ∀ i < o.req, ∀ v, o.bytes i = some v →
    w.heap.mem (p + i) = v
  /-- a client write changes no byte of a header on the block list -/
  headers : ∀ bs, BlockList w.heap.mem w.heap.heapStart bs → ∀ b ∈ bs, ∀ i < sizeofBlock,
    ∀ maxReq p off data r, Legal maxReq w (.write p off data) →
      exec w (.write p off data) = some r → r.2.heap.mem (b.addr + i) = w.heap.mem (b.addr + i)
  /-- two allocations do not overlap -/
  apart : ∀ p q o o', w.live p = some o → w.live q = some o' → p ≠ q →
    p + o.req ≤ q ∨ q + o'.req ≤ p
  /-- no allocation overlaps a header -/
  apart_headers : ∀ bs, BlockList w.heap.mem w.heap.heapStart bs → ∀ b ∈ bs, ∀ p o,
    w.live p = some o → p + o.req ≤ b.addr ∨ b.addr + sizeofBlock ≤ p

theorem Owned.isolated {w : Clients} {bs : List Block} (hw : Owned w.heap w.live bs) :
    Isolated w := by
  have hl := hw.rep.linked
  have hheaders : ∀ b ∈ bs, ∀ p o, w.live p = some o →
      p + o.req ≤ b.addr ∨ b.addr + sizeofBlock ≤ p := by
    intro b hb p o hp
    obtain ⟨c, hc, _, rfl, hreq⟩ := hw.block_of_live hp
    have := (hl.bounds hb).2.1
    rcases hl.tiles.eq_or_disjoint hc hb with rfl | hd | hd
    · exact .inr (Nat.le_refl _)
    · unfold Block.fin at hd
      exact .inl (by omega)
    · exact .inr (by omega)
  refine ⟨hw.kept, ?_, fun p q o o' ↦ hw.apart, ?_⟩
  · intro cs hcs b hb i hi maxReq p off data r hlegal hexec
    rw [BlockList.eq_of_rep hw.rep hcs] at hb
    obtain ⟨o, hp, hin⟩ := hlegal
    simp only [exec, Option.some.injEq] at hexec
    rw [← hexec]
    refine Mem.write_off ?_
    rcases hheaders b hb p o hp with h | h <;> omega
  · intro cs hcs b hb
    rw [BlockList.eq_of_rep hw.rep hcs] at hb
    exact hheaders b hb

/-- **Isolation** in every reachable state: what an owner wrote stays, whatever the other
clients do, and headers are out of reach of the clients. -/
theorem reachable_isolated {w : Clients} (hr : Reachable (Legal heapSize) w) : Isolated w := by
  obtain ⟨bs, hw⟩ := (hr.mono fun _ _ ↦ Legal.careful (by decide)).owned
  exact hw.isolated

/-- After `fragmenting` the block that was moved still holds what was written before the move, and
the small block what was written while the other was live. -/
theorem reachable_isolated_fragmented :
    ∃ w, Run (ClientStep (Legal heapSize)) (Clients.init fun _ ↦ 0) fragmenting w ∧ Isolated w ∧
      w.heap.mem.bytes (heapStart + 328 + sizeofBlock) 3 = [1, 2, 3] ∧
      w.heap.mem (heapStart + sizeofBlock + 10) = 6 := by
  obtain ⟨w, hrun, _, hp, hq⟩ := fragmented fun _ ↦ 0
  have hi := reachable_isolated ⟨_, _, hrun⟩
  have hkept := hi.kept _ _ hq
  refine ⟨w, hrun, hi, Mem.bytes_eq_iff.mpr ⟨rfl, fun i hi ↦ ?_⟩,
    hi.kept _ _ hp 10 (by decide) 6 rfl⟩
  obtain rfl | rfl | rfl : i = 0 ∨ i = 1 ∨ i = 2 := by omega
  · exact congrArg some (hkept 0 (by decide) 1 rfl).symm
  · exact congrArg some (hkept 1 (by decide) 2 rfl).symm
  · exact congrArg some (hkept 2 (by decide) 3 rfl).symm

/-! ## The block list is canonical -/

/-- The used blocks after freeing the pointers `ps`, in this order. -/
private theorem run_kfree {maxReq : Nat} {w w' : Clients} {bs : List Block} {ps : List Nat}
    (hw : Owned w.heap w.live bs)
    (hrun : Run (ClientStep (Legal maxReq)) w (ps.map Call.kfree) w') :
    ∃ bs', Owned w'.heap w'.live bs' ∧
      ∀ d, d.used = true → (d ∈ bs' ↔ d ∈ bs ∧ d.addr + sizeofBlock ∉ ps) := by
  induction ps generalizing w bs with
  | nil =>
      cases hrun
      exact ⟨bs, hw, fun d _ ↦ by simp⟩
  | cons p ps ih =>
      cases hrun with
      | cons hstep hrest =>
          obtain ⟨hlegal, ptr, hexec⟩ := hstep
          cases hp : w.live p with
          | none =>
              have hnull : p = null := by simpa [Legal, hp] using hlegal
              subst hnull
              cases hexec
              rw [← hp, update_eq_self] at hrest
              obtain ⟨bs', hw', hmem⟩ := ih hw hrest
              refine ⟨bs', hw', fun d hd ↦ ?_⟩
              have hne : d.addr + sizeofBlock ≠ null := by unfold sizeofBlock null; omega
              rw [hmem d hd, List.mem_cons, not_or, and_iff_right hne]
          | some o =>
              obtain ⟨b, hb, rfl, h', hfree, hw'⟩ := hw.kfree hp
              simp only [exec, hfree, Option.bind_eq_bind, Option.bind_some, Option.pure_def,
                Option.some.injEq, Prod.mk.injEq] at hexec
              obtain ⟨_, rfl⟩ := hexec
              obtain ⟨bs', hw'', hmem⟩ := ih hw' hrest
              refine ⟨bs', hw'', fun d hd ↦ ?_⟩
              have hne : ¬ d.addr + sizeofBlock = b.addr + sizeofBlock ↔ d.addr ≠ b.addr := by
                omega
              rw [hmem d hd, mem_release_iff hd, List.mem_cons, not_or, hne, and_assoc]

/-- Two represented lists with the same used blocks are equal, and so are the counters. -/
theorem Rep.eq_of_used {h h' : Heap} {bs bs' : List Block} (hr : Rep h bs)
    (hr' : Rep h' bs') (hsame : ∀ d, d.used = true → (d ∈ bs ↔ d ∈ bs')) :
    bs = bs' ∧ h.usedMemory = h'.usedMemory := by
  have := hr.linked.tiles.ext_of_coalesced hr'.linked.tiles hr.coalesced hr'.coalesced hsame
  subst this
  exact ⟨rfl, hr.used.trans hr'.used.symm⟩

/-- **The block list is canonical.**  In every reachable state no two neighbours are free;
reachable states with the same used blocks have the same block list and `used_memory`; so
freeing the same allocations in two orders leads to the same list, and freeing all of them
leads back to the list of `memory_init`. -/
theorem reachable_canonical {w : Clients} (hr : Reachable (Legal heapSize) w) {bs : List Block}
    (hbs : BlockList w.heap.mem w.heap.heapStart bs) :
    (bs.IsChain fun b c ↦ ¬ (b.used = false ∧ c.used = false)) ∧
    (∀ w' bs', Reachable (Legal heapSize) w' → BlockList w'.heap.mem w'.heap.heapStart bs' →
      (∀ d, d.used = true → (d ∈ bs ↔ d ∈ bs')) →
        bs = bs' ∧ w.heap.usedMemory = w'.heap.usedMemory) ∧
    (∀ (ps qs : List Nat) (w₁ w₂ : Clients) (bs₁ bs₂ : List Block), ps.Perm qs →
      Run (ClientStep (Legal heapSize)) w (ps.map Call.kfree) w₁ →
      Run (ClientStep (Legal heapSize)) w (qs.map Call.kfree) w₂ →
      BlockList w₁.heap.mem w₁.heap.heapStart bs₁ → BlockList w₂.heap.mem w₂.heap.heapStart bs₂ →
        bs₁ = bs₂ ∧ w₁.heap.usedMemory = w₂.heap.usedMemory) ∧
    (∀ (ps : List Nat) (w₁ : Clients) (bs₁ : List Block), (∀ p, (w.live p).isSome → p ∈ ps) →
      Run (ClientStep (Legal heapSize)) w (ps.map Call.kfree) w₁ →
      BlockList w₁.heap.mem w₁.heap.heapStart bs₁ →
        bs₁ = [{ addr := heapStart, size := heapSize, used := false }] ∧
          w₁.heap.usedMemory = 0) := by
  obtain ⟨bs₀, hw⟩ := (hr.mono fun _ _ ↦ Legal.careful (by decide)).owned
  obtain rfl := BlockList.eq_of_rep hw.rep hbs
  refine ⟨hw.rep.coalesced.imp fun b c h ↦ ?_, ?_, ?_, ?_⟩
  · rintro ⟨hb, hc⟩
    rcases h with h | h <;> simp_all
  · intro w' bs' hr' hbs' hsame
    obtain ⟨bs₀, hw'⟩ := (hr'.mono fun _ _ ↦ Legal.careful (by decide)).owned
    obtain rfl := BlockList.eq_of_rep hw'.rep hbs'
    exact hw.rep.eq_of_used hw'.rep hsame
  · intro ps qs w₁ w₂ bs₁ bs₂ hperm h₁ h₂ hbs₁ hbs₂
    obtain ⟨cs₁, hw₁, hmem₁⟩ := run_kfree hw h₁
    obtain ⟨cs₂, hw₂, hmem₂⟩ := run_kfree hw h₂
    obtain rfl := BlockList.eq_of_rep hw₁.rep hbs₁
    obtain rfl := BlockList.eq_of_rep hw₂.rep hbs₂
    refine hw₁.rep.eq_of_used hw₂.rep fun d hd ↦ ?_
    rw [hmem₁ d hd, hmem₂ d hd, hperm.mem_iff]
  · intro ps w₁ bs₁ hall h₁ hbs₁
    obtain ⟨cs₁, hw₁, hmem₁⟩ := run_kfree hw h₁
    obtain rfl := BlockList.eq_of_rep hw₁.rep hbs₁
    refine hw₁.rep.eq_of_used (Owned.init fun _ ↦ 0).rep fun d hd ↦ ?_
    rw [hmem₁ d hd]
    constructor
    · rintro ⟨hmem, hps⟩
      exact absurd (hall _ ((hw.live_iff _).mpr ⟨d, hmem, hd, rfl⟩)) hps
    · intro hmem
      rw [List.mem_singleton] at hmem
      rw [hmem] at hd
      cases hd

/-- The heap that `fragmenting` leaves, made without a `krealloc`. -/
theorem fragmented_again (m : Mem) : ∃ w, Run (ClientStep (Legal heapSize)) (Clients.init m)
      [.kmalloc 50, .kmalloc 248, .kmalloc 300, .kfree (heapStart + 68 + sizeofBlock)] w ∧
    Owned w.heap w.live fragments := by
  have hw₀ : Owned (Clients.init m).heap (Clients.init m).live _ := Owned.init m
  obtain ⟨w₁, h₁, l₁, hw₁⟩ := hw₀.exec_kmalloc (by decide : 0 < 50) (by decide)
    (show _ = some (⟨heapStart, 68, true⟩,
      [⟨heapStart, 68, true⟩, ⟨heapStart + 68, heapSize - 68, false⟩]) by decide)
  obtain ⟨w₂, h₂, l₂, hw₂⟩ := hw₁.exec_kmalloc (by decide : 0 < 248) (by decide)
    (show _ = some (⟨heapStart + 68, 260, true⟩, [⟨heapStart, 68, true⟩,
      ⟨heapStart + 68, 260, true⟩, ⟨heapStart + 328, heapSize - 328, false⟩]) by decide)
  obtain ⟨w₃, h₃, l₃, hw₃⟩ := hw₂.exec_kmalloc (by decide : 0 < 300) (by decide)
    (show _ = some (⟨heapStart + 328, 316, true⟩, [⟨heapStart, 68, true⟩,
      ⟨heapStart + 68, 260, true⟩, ⟨heapStart + 328, 316, true⟩,
      ⟨heapStart + 644, heapSize - 644, false⟩]) by decide)
  have hp₃ : w₃.live (heapStart + 68 + sizeofBlock) = some (.fresh 248) := by simp [l₃, l₂]
  obtain ⟨w₄, h₄, _, hw₄⟩ := hw₃.exec_kfree hp₃
  refine ⟨w₄, ?_, hw₄⟩
  exact .cons ⟨(by decide : 50 ≤ heapSize), _, h₁⟩ <| .cons ⟨(by decide : 248 ≤ heapSize), _, h₂⟩ <|
    .cons ⟨(by decide : 300 ≤ heapSize), _, h₃⟩ <| .single ⟨.inr (by simp [hp₃]), _, h₄⟩

/-- Two live allocations may be freed, in either order. -/
theorem exists_kfree_both {w : Clients} {bs : List Block} {a b : Nat} {o o' : Obj} (maxReq : Nat)
    (hw : Owned w.heap w.live bs) (ha : w.live (a + sizeofBlock) = some o)
    (hb : w.live (b + sizeofBlock) = some o') (hab : a ≠ b) :
    ∃ w', Run (ClientStep (Legal maxReq)) w
        ([a + sizeofBlock, b + sizeofBlock].map Call.kfree) w' ∧
      Owned w'.heap w'.live (release b (release a bs)) := by
  obtain ⟨w₁, h₁, l₁, hw₁⟩ := hw.exec_kfree ha
  have hb₁ : w₁.live (b + sizeofBlock) = some o' := by simp [l₁, hab.symm, hb]
  obtain ⟨w₂, h₂, _, hw₂⟩ := hw₁.exec_kfree hb₁
  exact ⟨w₂, .cons ⟨.inr (by simp [ha]), _, h₁⟩ <| .single ⟨.inr (by simp [hb₁]), _, h₂⟩, hw₂⟩

/-- The same used blocks may come about in two ways, and be freed in two orders. -/
theorem reachable_canonical_fragmented : ∃ w w' w₁ w₂ bs₁ bs₂,
    Run (ClientStep (Legal heapSize)) (Clients.init fun _ ↦ 0) fragmenting w ∧
    Run (ClientStep (Legal heapSize)) (Clients.init fun _ ↦ 0)
      [.kmalloc 50, .kmalloc 248, .kmalloc 300, .kfree (heapStart + 68 + sizeofBlock)] w' ∧
    Run (ClientStep (Legal heapSize)) w
      ([heapStart + sizeofBlock, heapStart + 328 + sizeofBlock].map Call.kfree) w₁ ∧
    Run (ClientStep (Legal heapSize)) w
      ([heapStart + 328 + sizeofBlock, heapStart + sizeofBlock].map Call.kfree) w₂ ∧
    BlockList w₁.heap.mem w₁.heap.heapStart bs₁ ∧ BlockList w₂.heap.mem w₂.heap.heapStart bs₂ ∧
    (fragments.IsChain fun b c ↦ ¬ (b.used = false ∧ c.used = false)) ∧
    w.heap.usedMemory = w'.heap.usedMemory ∧
    (bs₁ = bs₂ ∧ w₁.heap.usedMemory = w₂.heap.usedMemory) ∧
    bs₁ = [{ addr := heapStart, size := heapSize, used := false }] ∧ w₁.heap.usedMemory = 0 := by
  obtain ⟨w, hrun, hw, hp, hq⟩ := fragmented fun _ ↦ 0
  obtain ⟨w', hrun', hw'⟩ := fragmented_again fun _ ↦ 0
  obtain ⟨w₁, h₁, hw₁⟩ := exists_kfree_both heapSize hw hp hq (by decide)
  obtain ⟨w₂, h₂, hw₂⟩ := exists_kfree_both heapSize hw hq hp (by decide)
  have hbs₁ := BlockList.of_rep hw₁.rep
  have hbs₂ := BlockList.of_rep hw₂.rep
  obtain ⟨hchain, hsame, horder, hall⟩ :=
    reachable_canonical ⟨_, _, hrun⟩ (BlockList.of_rep hw.rep)
  have hboth : ∀ p, (w.live p).isSome →
      p ∈ [heapStart + sizeofBlock, heapStart + 328 + sizeofBlock] := by
    intro p hlive
    obtain ⟨b, hb, hbu, rfl⟩ := (hw.live_iff p).mp hlive
    simp only [fragments, List.mem_cons, List.not_mem_nil, or_false] at hb
    rcases hb with rfl | rfl | rfl | rfl
    · exact List.mem_cons_self
    · cases hbu
    · exact List.mem_cons_of_mem _ List.mem_cons_self
    · cases hbu
  obtain ⟨_, hused⟩ :=
    hsame w' fragments ⟨_, _, hrun'⟩ (BlockList.of_rep hw'.rep) fun _ _ ↦ Iff.rfl
  obtain ⟨hinit, hzero⟩ := hall _ w₁ _ hboth h₁ hbs₁
  exact ⟨w, w', w₁, w₂, _, _, hrun, hrun', h₁, h₂, hbs₁, hbs₂, hchain, hused,
    horder _ _ w₁ w₂ _ _ (.swap _ _ _) h₁ h₂ hbs₁ hbs₂, hinit, hzero⟩

end KontolOS.Memory
