import KontolOS.Memory.Room

/-!
# What `krealloc` does to the heap

`krealloc` may allocate, copy and free, and each of these may rearrange the block list.  The
result is stated about the heap alone: `Holds h p n` says that `p` is the pointer to a used
block with `n` bytes of payload, whoever requested them.

The client invariant speaks of the bytes that were requested.  It holds as well of the record
in which every owner knows its whole block (`Owned.whole`), and so what it says of the
requested bytes it says of all of them.
-/

namespace KontolOS.Memory

open KontolOS.Lib Function

/-- `p` leads to a used block with `n` bytes of payload. -/
def Holds (h : Heap) (p n : Nat) : Prop :=
  ∃ bs, BlockList h.mem h.heapStart bs ∧ ∃ b ∈ bs, b.used = true ∧ b.addr + sizeofBlock = p ∧
    b.size = n + sizeofBlock

/-- What a pointer holds is written in the header in front of it. -/
theorem Holds.blockSize_eq {h : Heap} {c n : Nat} (hp : Holds h (c + sizeofBlock) n) :
    blockSize h.mem c = n + sizeofBlock := by
  obtain ⟨bs, hbs, b, hb, _, hbc, hsize⟩ := hp
  rw [← hsize, ← hbs.blockSize_eq hb, Nat.add_right_cancel hbc]

/-! ## The record in which every owner knows its whole block -/

/-- Every used block is live, with all of its bytes as they are in memory. -/
def wholeLive (m : Mem) (bs : List Block) : Live := fun p ↦
  (bs.find? fun b ↦ b.used && b.addr + sizeofBlock == p).map fun b ↦
    ⟨b.size - sizeofBlock, fun i ↦ some (m (p + i))⟩

theorem wholeLive_isSome_iff {m : Mem} {bs : List Block} {p : Nat} :
    (wholeLive m bs p).isSome ↔ ∃ b ∈ bs, b.used = true ∧ b.addr + sizeofBlock = p := by
  simp [wholeLive, List.find?_isSome]

section Whole

variable {h h' : Heap} {live : Live} {bs : List Block} {b : Block} {p n : Nat} {o : Obj}

theorem Owned.wholeLive_eq (hw : Owned h live bs) (hb : b ∈ bs) (hbu : b.used = true) (m : Mem) :
    wholeLive m bs (b.addr + sizeofBlock) =
      some ⟨b.size - sizeofBlock, fun i ↦ some (m (b.addr + sizeofBlock + i))⟩ := by
  have hsome := wholeLive_isSome_iff (m := m).mpr ⟨b, hb, hbu, rfl⟩
  unfold wholeLive at hsome ⊢
  rw [Option.isSome_map] at hsome
  obtain ⟨c, hc⟩ := Option.isSome_iff_exists.mp hsome
  have hcb : c = b := by
    have hprop := List.find?_some hc
    simp only [Bool.and_eq_true, beq_iff_eq] at hprop
    exact hw.rep.linked.tiles.eq_of_addr_eq (List.mem_of_find?_eq_some hc) hb
      (Nat.add_right_cancel hprop.2)
  rw [hc, hcb]
  rfl

/-- **The invariant holds of the whole blocks.** -/
theorem Owned.whole (hw : Owned h live bs) : Owned h (wholeLive h.mem bs) bs := by
  refine ⟨hw.rep, fun p ↦ wholeLive_isSome_iff, fun b hb o ho ↦ ?_, fun p o hp i hi v hv ↦ ?_⟩
  · obtain ⟨c, hc, hcu, hcb⟩ := wholeLive_isSome_iff.mp (Option.isSome_of_mem ho)
    obtain rfl := hw.rep.linked.tiles.eq_of_addr_eq hc hb (Nat.add_right_cancel hcb)
    rw [hw.wholeLive_eq hc hcu] at ho
    cases ho
    exact Nat.le_of_eq (Nat.sub_add_cancel (hw.rep.linked.sized c hb).1)
  · obtain ⟨b, hb, hbu, rfl⟩ := wholeLive_isSome_iff.mp (Option.isSome_of_mem hp)
    rw [hw.wholeLive_eq hb hbu] at hp
    cases hp
    exact Option.some.inj hv

/-- The used blocks, read off the block list. -/
theorem Owned.holds_iff (hw : Owned h live bs) :
    Holds h p n ↔
      ∃ b ∈ bs, b.used = true ∧ b.addr + sizeofBlock = p ∧ b.size = n + sizeofBlock := by
  constructor
  · rintro ⟨cs, hcs, hb⟩
    rwa [BlockList.eq_of_rep hw.rep hcs] at hb
  · exact fun hb ↦ ⟨bs, BlockList.of_rep hw.rep, hb⟩

/-- What a pointer holds, it holds in the record of the whole blocks. -/
theorem Owned.whole_of_holds (hw : Owned h live bs) (hp : Holds h p n) (m : Mem) :
    wholeLive m bs p = some ⟨n, fun i ↦ some (m (p + i))⟩ := by
  obtain ⟨b, hb, hbu, rfl, hsize⟩ := hw.holds_iff.mp hp
  rw [hw.wholeLive_eq hb hbu, hsize, Nat.add_sub_cancel]

/-- The live pointers are those that hold something. -/
theorem Owned.exists_holds_iff (hw : Owned h live bs) : (∃ n, Holds h p n) ↔ (live p).isSome := by
  rw [hw.live_iff]
  constructor
  · rintro ⟨n, hp⟩
    obtain ⟨b, hb, hbu, hbp, _⟩ := hw.holds_iff.mp hp
    exact ⟨b, hb, hbu, hbp⟩
  · rintro ⟨b, hb, hbu, hbp⟩
    exact ⟨b.size - sizeofBlock, hw.holds_iff.mpr ⟨b, hb, hbu, hbp,
      (Nat.sub_add_cancel (hw.rep.linked.sized b hb).1).symm⟩⟩

end Whole

/-! ## The effect of `krealloc` -/

/-- What `krealloc(p, size)` owes its caller when it turns `h` into `h'` and returns `q`, `p`
having held `cap` bytes before. -/
structure Reallocates (h : Heap) (p cap size q : Nat) (h' : Heap) : Prop where
  /-- when it fails, nothing changes -/
  unchanged : q = null → h' = h
  /-- otherwise the pointer returned holds what was requested -/
  room : q ≠ null → ∃ n, size ≤ n ∧ Holds h' q n
  /-- the old bytes are carried over, as far as there is room for them -/
  copied : q ≠ null → ∀ i < min cap size, h'.mem (q + i) = h.mem (p + i)
  /-- the old pointer is given up, unless it is returned -/
  freed : q ≠ null → q ≠ p → ∀ n, ¬ Holds h' p n
  /-- every other allocation stays where it is, as large as it is -/
  others : ∀ r ≠ p, ∀ n, Holds h r n → r ≠ q ∧ Holds h' r n
  /-- and keeps its bytes -/
  kept : ∀ r ≠ p, ∀ n, Holds h r n → ∀ i < n, h'.mem (r + i) = h.mem (r + i)

/-- On a heap that satisfies the invariant `krealloc` does what it should. -/
theorem Owned.reallocates {h : Heap} {live : Live} {bs : List Block} {p cap size : Nat}
    (hw : Owned h live bs) (hp : Holds h p cap) (hpos : 0 < size) (hs : Harmless h size) :
    ∃ q h', Memory.krealloc h p size = some (q, h') ∧ Reallocates h p cap size q h' := by
  have hww := hw.whole
  have hlive := hw.whole_of_holds hp h.mem
  rcases hww.krealloc hlive hpos hs with hk | ⟨q, h', bs', hk, hq, hfrom, hw', hrest⟩
  · refine ⟨null, h, hk, fun _ ↦ rfl, fun hne ↦ absurd rfl hne, fun hne ↦ absurd rfl hne,
      fun hne ↦ absurd rfl hne, fun r _ n hr ↦ ⟨?_, hr⟩, fun _ _ _ _ _ _ ↦ rfl⟩
    rintro rfl
    have hsome := hw.whole_of_holds hr h.mem
    rw [hww.live_null] at hsome
    cases hsome
  -- another allocation is not at the pointer returned
  have hother : ∀ r ≠ p, ∀ n, Holds h r n → r ≠ q := by
    rintro r hrp n hr rfl
    rcases hfrom with heq | hnone
    · exact hrp heq
    · rw [hw.whole_of_holds hr] at hnone
      cases hnone
  refine ⟨q, h', hk, fun hnull ↦ absurd hnull hq, fun _ ↦ ?_, fun _ i hi ↦ ?_,
    fun _ hqp n hn ↦ ?_, fun r hrp n hr ↦ ⟨hother r hrp n hr, ?_⟩, fun r hrp n hr i hi ↦ ?_⟩
  · obtain ⟨b, hb, hbu, hbq, hreq⟩ := hw'.block_of_live (update_self q _ _)
    have hreq : size + sizeofBlock ≤ b.size := hreq
    exact ⟨b.size - sizeofBlock, by omega, hw'.holds_iff.mpr ⟨b, hb, hbu, hbq, by omega⟩⟩
  · obtain ⟨hicap, hisize⟩ := Nat.lt_min.mp hi
    exact hw'.kept q _ (update_self q _ _) i hisize _ (if_pos hicap)
  · have hnone := hw'.exists_holds_iff.mp ⟨n, hn⟩
    rw [update_of_ne hqp.symm, update_self] at hnone
    cases hnone
  · obtain ⟨b, hb, hbu, rfl, hsize⟩ := hw.holds_iff.mp hr
    have hb' := (hrest b hbu hrp (hother _ hrp n hr)).mpr hb
    exact hw'.holds_iff.mpr ⟨b, hb', hbu, rfl, hsize⟩
  · refine hw'.kept r ⟨n, fun i ↦ some (h.mem (r + i))⟩ ?_ i hi _ rfl
    rw [update_of_ne (hother r hrp n hr), update_of_ne hrp]
    exact hw.whole_of_holds hr h.mem

/-- **`krealloc`** of a live pointer, in every reachable state. -/
theorem reachable_reallocates {w : Clients} (hr : Reachable Careful w) {p size : Nat}
    (hp : (w.live p).isSome) (hpos : 1 ≤ size) (hmax : size ≤ heapSize) :
    ∃ cap, Holds w.heap p cap ∧
      ∃ q h', krealloc w.heap p size = some (q, h') ∧ Reallocates w.heap p cap size q h' := by
  obtain ⟨bs, hw⟩ := hr.owned
  obtain ⟨cap, hcap⟩ := hw.exists_holds_iff.mpr hp
  have hs : Harmless w.heap size := .inl (Nat.le_trans hmax (by decide))
  exact ⟨cap, hcap, hw.reallocates hcap hpos hs⟩

/-- An allocation that takes nearly all of the heap is to grow to all of it. -/
theorem reachable_reallocates_nearly_full : ∃ (w : Clients) (cap : Nat),
    Holds w.heap (heapStart + sizeofBlock) cap ∧
    ∃ q h', krealloc w.heap (heapStart + sizeofBlock) heapSize = some (q, h') ∧
      Reallocates w.heap (heapStart + sizeofBlock) cap heapSize q h' := by
  obtain ⟨w, hr, ⟨o, hp, _⟩, _⟩ := nearly_full
  have hlive : (w.live (heapStart + sizeofBlock)).isSome := by
    rw [hp]
    rfl
  exact ⟨w, reachable_reallocates hr hlive (by decide) (Nat.le_refl _)⟩

end KontolOS.Memory
