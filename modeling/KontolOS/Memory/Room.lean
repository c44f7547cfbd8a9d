import KontolOS.Memory.Steps

/-!
# When `kmalloc` fails

`Room h p n` says that the heap has `n` consecutive bytes that meet no used block, the
one behind `p` not counted.  `kmalloc` fails exactly if there is no room for what it
charges (`Owned.kmalloc_eq_null_iff`), and freeing `p` makes the room that `Room`
foresees (`Owned.room_kfree`).
-/

namespace KontolOS.Memory

open KontolOS.Lib Function

/-- There are `n` consecutive bytes of the heap outside the used blocks, if the block
behind the pointer `p` is not counted among these. -/
def Room (h : Heap) (p n : Nat) : Prop :=
  ∃ x, heapStart ≤ x ∧ x + n ≤ heapEnd ∧ ∀ bs, BlockList h.mem h.heapStart bs →
    ∀ b ∈ bs, b.used = true → b.addr + sizeofBlock ≠ p → b.fin ≤ x ∨ x + n ≤ b.addr

namespace Owned

variable {h h' : Heap} {live live' : Live} {bs bs' : List Block} {p n size : Nat} {o : Obj}

/-- Room, read off the block list. -/
theorem room_iff (hw : Owned h live bs) : Room h p n ↔ ∃ x, heapStart ≤ x ∧ x + n ≤ heapEnd ∧
    ∀ b ∈ bs, b.used = true → b.addr + sizeofBlock ≠ p → b.fin ≤ x ∨ x + n ≤ b.addr := by
  constructor
  · rintro ⟨x, hx, hxn, havoid⟩
    exact ⟨x, hx, hxn, havoid bs (BlockList.of_rep hw.rep)⟩
  · rintro ⟨x, hx, hxn, havoid⟩
    refine ⟨x, hx, hxn, fun cs hcs ↦ ?_⟩
    rw [BlockList.eq_of_rep hw.rep hcs]
    exact havoid

/-- **`kmalloc` fails only when it must.** -/
theorem kmalloc_eq_null_iff (hw : Owned h live bs) (hpos : 0 < size) (hmax : size ≤ maxRequest) :
    Memory.kmalloc h size = some (null, h) ↔ ¬ Room h null (totalSize size) := by
  have hnull : ∀ b : Block, b.addr + sizeofBlock ≠ null := fun b ↦ Nat.ne_of_gt (Nat.succ_pos _)
  have hn : 0 < totalSize size := Nat.lt_of_lt_of_le (by decide) (totalSize_bounds hmax).2.1
  have hnone := alloc_eq_none_iff_no_range (k := splitSlack) hw.rep.linked.tiles hw.rep.coalesced hn
  rw [hw.room_iff]
  simp only [hnull, ne_eq, not_false_eq_true, forall_const, ← hnone]
  constructor
  · intro hk
    cases ha : alloc (totalSize size) splitSlack bs with
    | none => rfl
    | some r =>
        obtain ⟨h', hsome, _⟩ := hw.kmalloc_some hpos hmax ha
        rw [hsome] at hk
        exact absurd (congrArg Prod.fst (Option.some.inj hk)) (hnull r.1)
  · exact kmalloc_none hw.rep hpos

/-- Where there is room, `kmalloc` finds it. -/
theorem kmalloc_ne_null (hw : Owned h live bs) (hpos : 0 < size) (hmax : size ≤ maxRequest)
    (hroom : Room h null (totalSize size)) (hk : Memory.kmalloc h size = some (p, h')) :
    p ≠ null := by
  rintro rfl
  have hsmall : Harmless h size := .inl hmax
  rcases hw.kmalloc hsmall with hnull | ⟨b, _, _, _, hsome, _⟩
  · exact (hw.kmalloc_eq_null_iff hpos hmax).mp hnull hroom
  · have hptr := congrArg Prod.fst (Option.some.inj (hsome.symm.trans hk))
    exact Nat.ne_of_gt (Nat.succ_pos _) hptr

/-- Freeing a block makes the room it took. -/
theorem room_kfree (hw : Owned h live bs) (hp : live p = some o)
    (hfree : Memory.kfree h p = some h') :
    Room h' null n ↔ Room h p n := by
  obtain ⟨b, hb, rfl, h₁, hk, hw₁⟩ := hw.kfree hp
  obtain rfl : h₁ = h' := Option.some.inj (hk.symm.trans hfree)
  have hnull : ∀ b : Block, b.addr + sizeofBlock ≠ null := fun b ↦ Nat.ne_of_gt (Nat.succ_pos _)
  rw [hw.room_iff, hw₁.room_iff]
  constructor
  · rintro ⟨x, hx, hxn, havoid⟩
    refine ⟨x, hx, hxn, fun c hc hcu hne ↦ ?_⟩
    exact havoid c ((mem_release_iff hcu).mpr ⟨hc, fun h ↦ hne (by rw [h])⟩) hcu (hnull c)
  · rintro ⟨x, hx, hxn, havoid⟩
    refine ⟨x, hx, hxn, fun c hc hcu _ ↦ ?_⟩
    obtain ⟨hc, hne⟩ := (mem_release_iff hcu).mp hc
    exact havoid c hc hcu fun h ↦ hne (Nat.add_right_cancel h)

/-- A range that avoids the used blocks avoids a live allocation and its header. -/
theorem avoids_live (hw : Owned h live bs) {q x : Nat} (hq : live q = some o) (hne : q ≠ p)
    (havoid : ∀ b ∈ bs, b.used = true → b.addr + sizeofBlock ≠ p → b.fin ≤ x ∨ x + n ≤ b.addr) :
    q + o.req ≤ x ∨ x + n + sizeofBlock ≤ q := by
  obtain ⟨b, hb, hbu, rfl, hreq⟩ := hw.block_of_live hq
  have hout := havoid b hb hbu hne
  unfold Block.fin at hout
  omega

/-- A large allocation at the beginning of the heap leaves no room for another one. -/
theorem not_room (hw : Owned h live bs) (hp : live (heapStart + sizeofBlock) = some o)
    (hne : heapStart + sizeofBlock ≠ p) (hn : 0 < n) (hbig : heapSize < o.req + sizeofBlock + n) :
    ¬ Room h p n := by
  rw [hw.room_iff]
  rintro ⟨x, hx, hxn, havoid⟩
  have hfront := hw.avoids_live hp hne havoid
  unfold heapEnd at hxn
  omega

/-- Nor do two allocations that take almost all of the heap together, one of them at its
beginning. -/
theorem not_room_pair {q : Nat} {o' : Obj} (hw : Owned h live bs)
    (hp : live (heapStart + sizeofBlock) = some o) (hq : live q = some o')
    (hpq : q ≠ heapStart + sizeofBlock) (hne : heapStart + sizeofBlock ≠ p) (hne' : q ≠ p)
    (hn : 0 < n) (hbig : heapSize < o.req + sizeofBlock + (o'.req + sizeofBlock) + n) :
    ¬ Room h p n := by
  rw [hw.room_iff]
  rintro ⟨x, hx, hxn, havoid⟩
  have hfront := hw.avoids_live hp hne havoid
  have hother := hw.avoids_live hq hne' havoid
  have hapart := hw.header_apart hp hq hpq.symm
  obtain ⟨b, hb, _, rfl, hreq⟩ := hw.block_of_live hq
  have hbounds := hw.rep.linked.tiles.mem_bounds hb
  unfold Block.fin heapEnd at hbounds
  unfold heapEnd at hxn
  omega

end Owned

/-- A use of the heap that takes `total` bytes at its beginning for one allocation, and leaves the
others free. -/
theorem exists_large {req total : Nat} (hpos : 0 < req) (hmax : req ≤ maxRequest)
    (ha : alloc (totalSize req) splitSlack
        [{ addr := heapStart, size := heapSize, used := false }] =
      some ({ addr := heapStart, size := total, used := true },
        [{ addr := heapStart, size := total, used := true },
          { addr := heapStart + total, size := heapSize - total, used := false }])) :
    ∃ w, Reachable Careful w ∧ (∃ o, w.live (heapStart + sizeofBlock) = some o ∧ o.req = req) ∧
      ∀ n, total + n ≤ heapSize → Room w.heap null n := by
  have hw₀ : Owned (Clients.init fun _ ↦ 0).heap (Clients.init fun _ ↦ 0).live _ := Owned.init _
  obtain ⟨w, hexec, hlive, hw⟩ := hw₀.exec_kmalloc hpos hmax ha
  have hlt : req < 2 ^ 32 := Nat.lt_of_le_of_lt hmax (by decide)
  refine ⟨w, ⟨_, [.kmalloc req], .single ⟨⟨hlt, .inl hmax⟩, _, hexec⟩⟩,
    ⟨.fresh req, by simp [hlive], rfl⟩, fun n hn ↦ hw.room_iff.mpr ⟨heapStart + total, ?_, ?_, ?_⟩⟩
  · exact Nat.le_add_right _ _
  · unfold heapEnd
    omega
  · intro b hb hbu _
    simp only [List.mem_cons, List.not_mem_nil, or_false] at hb
    rcases hb with rfl | rfl
    · exact .inl (Nat.le_refl _)
    · cases hbu

/-- There is a use of the heap that takes all but 36 bytes of it for one allocation. -/
theorem nearly_full : ∃ w, Reachable Careful w ∧
    (∃ o, w.live (heapStart + sizeofBlock) = some o ∧ o.req = 4194256) ∧
    Room w.heap null (totalSize 1) := by
  have ha : alloc (totalSize 4194256) splitSlack
      [{ addr := heapStart, size := heapSize, used := false }] =
      some ({ addr := heapStart, size := 4194268, used := true },
        [{ addr := heapStart, size := 4194268, used := true },
          { addr := heapStart + 4194268, size := heapSize - 4194268, used := false }]) := by decide
  obtain ⟨w, hreach, hlive, hroom⟩ := exists_large (by decide) (by decide) ha
  exact ⟨w, hreach, hlive, hroom _ (by decide)⟩

end KontolOS.Memory
