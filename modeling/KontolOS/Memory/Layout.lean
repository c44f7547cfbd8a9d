import KontolOS.Lib.FirstFit
import KontolOS.Memory.Heap

/-!
# The block list in memory

`Linked m bs` says that the memory `m` holds the block list `bs`: the blocks tile the
heap, and each of them has its header at its first address.  The `next` field needs no
separate bookkeeping, because in a tiling the successor of a block begins where the
block ends; this makes the representation pointwise, so an edit of a few headers is
checked header by header (`Linked.edit`).

`Rep h bs` adds the static variables and that the list is coalesced.  It is the
representation invariant of the allocator.

`BlockList m p bs` says what one meets by following `next` pointers from `p`, with no
invariant assumed; it is what statements about the list are made of.
-/

namespace KontolOS.Memory

open KontolOS.Lib

/-! ## Reading a header back -/

section Fields

variable {m m' : Mem} {b c v x : Nat} {u : Bool}

@[simp] theorem blockSize_setSize : blockSize (setSize m b v) b = v % 2 ^ 32 :=
  Mem.load32_store32_same m b v

@[simp] theorem blockUsed_setSize : blockUsed (setSize m b v) b = blockUsed m b := by
  unfold blockUsed setSize
  rw [Mem.store32_off (by omega)]

@[simp] theorem blockNext_setSize : blockNext (setSize m b v) b = blockNext m b :=
  Mem.load32_store32_of_disjoint (by omega)

@[simp] theorem blockSize_setUsed : blockSize (setUsed m b u) b = blockSize m b :=
  Mem.load32_store8_of_off (by omega)

@[simp] theorem blockUsed_setUsed : blockUsed (setUsed m b u) b = u := by
  unfold blockUsed setUsed
  rw [Mem.store8_same]
  cases u <;> rfl

@[simp] theorem blockNext_setUsed : blockNext (setUsed m b u) b = blockNext m b :=
  Mem.load32_store8_of_off (by omega)

@[simp] theorem blockSize_setNext : blockSize (setNext m b v) b = blockSize m b :=
  Mem.load32_store32_of_disjoint (by omega)

@[simp] theorem blockUsed_setNext : blockUsed (setNext m b v) b = blockUsed m b := by
  unfold blockUsed setNext
  rw [Mem.store32_off (by omega)]

@[simp] theorem blockNext_setNext : blockNext (setNext m b v) b = v % 2 ^ 32 :=
  Mem.load32_store32_same m (b + 8) v

/-! A store to a field stays inside the header it belongs to. -/

theorem setSize_off (h : x < b ∨ b + sizeofBlock ≤ x) : setSize m b v x = m x :=
  Mem.store32_off (by unfold sizeofBlock at h; omega)

theorem setUsed_off (h : x < b ∨ b + sizeofBlock ≤ x) : setUsed m b u x = m x :=
  Mem.store8_of_ne (by unfold sizeofBlock at h; omega)

theorem setNext_off (h : x < b ∨ b + sizeofBlock ≤ x) : setNext m b v x = m x :=
  Mem.store32_off (by unfold sizeofBlock at h; omega)

/-- The byte `x` is in neither the `size` nor the `next` field of the header at `b`. -/
def OffLinks (b x : Nat) : Prop := x < b ∨ (b + 4 ≤ x ∧ x < b + 8) ∨ b + sizeofBlock ≤ x

theorem OffLinks.of_off (h : x < b ∨ b + sizeofBlock ≤ x) : OffLinks b x := h.imp id .inr

/-- Coalescing writes these two fields only. -/
theorem absorb_off (h : OffLinks b x) : absorb m b c x = m x := by
  unfold OffLinks sizeofBlock at h
  have hnext : ∀ {m : Mem} {v : Nat}, setNext m b v x = m x := Mem.store32_off (by omega)
  have hsize : ∀ {m : Mem} {v : Nat}, setSize m b v x = m x := Mem.store32_off (by omega)
  exact hnext.trans hsize

/-! The fields of a header depend on its twelve bytes only. -/

theorem blockSize_congr (h : ∀ i < sizeofBlock, m' (b + i) = m (b + i)) :
    blockSize m' b = blockSize m b :=
  Mem.load32_congr fun i hi ↦ h i (by unfold sizeofBlock; omega)

theorem blockUsed_congr (h : ∀ i < sizeofBlock, m' (b + i) = m (b + i)) :
    blockUsed m' b = blockUsed m b := by
  unfold blockUsed
  rw [h 4 (by unfold sizeofBlock; omega)]

theorem blockNext_congr (h : ∀ i < sizeofBlock, m' (b + i) = m (b + i)) :
    blockNext m' b = blockNext m b :=
  Mem.load32_congr fun i hi ↦ by
    rw [Nat.add_assoc]
    exact h (8 + i) (by unfold sizeofBlock; omega)

end Fields

/-! ## The representation -/

/-- The `next` pointer of a block of a tiling of the heap. -/
def nextAddr (b : Block) : Nat := if b.fin = heapEnd then null else b.fin

/-- The address of the first block of a list, `NULL` if there is none. -/
def headAddr : List Block → Nat
  | [] => null
  | b :: _ => b.addr

/-- The header of the block `b` is in memory. -/
structure HeaderAt (m : Mem) (b : Block) : Prop where
  /-- its `size` field -/
  size : blockSize m b.addr = b.size
  /-- its `used` field -/
  used : blockUsed m b.addr = b.used
  /-- its `next` field -/
  next : blockNext m b.addr = nextAddr b

/-- The memory holds the block list `bs`. -/
structure Linked (m : Mem) (bs : List Block) : Prop where
  /-- the blocks tile the heap -/
  tiles : Tiles heapStart bs heapEnd
  /-- they have room for a header, and keep the alignment of the heap -/
  sized : WellSized sizeofBlock 4 bs
  /-- their headers are in place -/
  headers : ∀ b ∈ bs, HeaderAt m b

/-- **The representation invariant** of the allocator. -/
structure Rep (h : Heap) (bs : List Block) : Prop where
  /-- the list is in memory -/
  linked : Linked h.mem bs
  /-- no two neighbouring blocks are free -/
  coalesced : Coalesced bs
  /-- `heap_start` never moves -/
  head : h.heapStart = heapStart
  /-- `total_memory` never changes -/
  total : h.totalMemory = heapSize
  /-- `used_memory` counts the used blocks -/
  used : h.usedMemory = extent true bs

theorem HeaderAt.congr {m m' : Mem} {b : Block} (h : HeaderAt m b)
    (hmm : ∀ i < sizeofBlock, m' (b.addr + i) = m (b.addr + i)) : HeaderAt m' b where
  size := (blockSize_congr hmm).trans h.size
  used := (blockUsed_congr hmm).trans h.used
  next := (blockNext_congr hmm).trans h.next

namespace Linked

variable {m m' : Mem} {bs pre mid post : List Block} {b c : Block}

/-- A block lies inside the heap and has room for its header. -/
theorem bounds (h : Linked m bs) (hb : b ∈ bs) :
    heapStart ≤ b.addr ∧ b.addr + sizeofBlock ≤ b.fin ∧ b.fin ≤ heapEnd := by
  obtain ⟨h₁, _, h₃⟩ := h.tiles.mem_bounds hb
  exact ⟨h₁, Nat.add_le_add_left (h.sized b hb).1 _, h₃⟩

theorem addr_ne_null (h : Linked m bs) (hb : b ∈ bs) : b.addr ≠ null := by
  have hlo := (h.bounds hb).1
  exact Nat.ne_of_gt (Nat.lt_of_lt_of_le (by decide) hlo)

theorem size_lt (h : Linked m bs) (hb : b ∈ bs) : b.size ≤ heapSize := by
  have := h.bounds hb
  unfold heapEnd Block.fin at this
  omega

/-- From the pointer that a client holds back to the header. -/
theorem sub_header (h : Linked m bs) (hb : b ∈ bs) :
    sub32 (b.addr + sizeofBlock) sizeofBlock = b.addr := by
  have hbound := h.bounds hb
  have hlt : b.addr + sizeofBlock < 2 ^ 32 := by
    unfold heapEnd heapStart heapSize at hbound
    omega
  rw [sub32_of_le (Nat.le_add_left _ _) hlt, Nat.add_sub_cancel]

/-- The payload of a block, as `krealloc` computes it. -/
theorem sub_size (h : Linked m bs) (hb : b ∈ bs) :
    sub32 (blockSize m b.addr) sizeofBlock = b.size - sizeofBlock := by
  have hle := h.size_lt hb
  rw [(h.headers b hb).size]
  exact sub32_of_le (h.sized b hb).1 (by unfold heapSize at hle; omega)

/-- The walk from a block leads to the rest of the list. -/
theorem next_eq (h : Linked m (pre ++ b :: post)) : blockNext m b.addr = headAddr post := by
  rw [(h.headers b (by simp)).next]
  obtain ⟨_, _, _, _, hpost⟩ := Tiles.append_iff.mp h.tiles
  cases post with
  | nil => exact if_pos hpost
  | cons c post =>
      have hne : b.fin ≠ heapEnd := by
        have := hpost.mem_bounds List.mem_cons_self
        omega
      exact (if_neg hne).trans hpost.1.symm

/-- A list that is in memory begins at `HEAP_START`. -/
theorem headAddr_eq (h : Linked m bs) : headAddr bs = heapStart := by
  cases bs with
  | nil =>
      have : heapStart = heapEnd := h.tiles
      exact absurd this (by decide)
  | cons b bs => exact h.tiles.1

theorem length_lt (h : Linked m bs) : bs.length < walkFuel := by
  have hlen : ∀ {lo hi : Nat} {cs : List Block}, Tiles lo cs hi → WellSized sizeofBlock 4 cs →
      lo + sizeofBlock * cs.length ≤ hi := by
    intro lo hi cs
    induction cs generalizing lo with
    | nil => exact fun ht _ ↦ Nat.le_of_eq ht
    | cons c cs ih =>
        intro ht hw
        obtain ⟨rfl, _, ht⟩ := ht
        have h₁ := ih ht fun d hd ↦ hw d (List.mem_cons_of_mem _ hd)
        have h₂ := (hw c List.mem_cons_self).1
        simp only [Block.fin] at h₁
        simp only [List.length_cons, sizeofBlock] at *
        omega
  have := hlen h.tiles h.sized
  simp only [heapEnd, heapStart, heapSize, walkFuel, sizeofBlock] at *
  omega

/-- **Editing the list.**  Replacing some consecutive blocks by others that tile the same
addresses leaves the list in memory, provided the new headers are in place and nothing
outside those addresses was written. -/
theorem edit (mid mid' : List Block) {lo hi : Nat} (h : Linked m (pre ++ (mid ++ post)))
    (hpre : Tiles heapStart pre lo) (hmid : Tiles lo mid' hi) (hpost : Tiles hi post heapEnd)
    (hsized : WellSized sizeofBlock 4 mid') (hheaders : ∀ b ∈ mid', HeaderAt m' b)
    (hoff : ∀ x, x < lo ∨ hi ≤ x → m' x = m x) : Linked m' (pre ++ (mid' ++ post)) where
  tiles := Tiles.append_iff.mpr ⟨lo, hpre, Tiles.append_iff.mpr ⟨hi, hmid, hpost⟩⟩
  sized := by
    intro b hb
    simp only [List.mem_append] at hb
    rcases hb with hb | hb | hb
    · exact h.sized b (by simp [hb])
    · exact hsized b hb
    · exact h.sized b (by simp [hb])
  headers := by
    intro b hb
    simp only [List.mem_append] at hb
    rcases hb with hb | hb | hb
    · have hb' : b ∈ pre ++ (mid ++ post) := by simp [hb]
      have := (h.bounds hb').2.1
      have := (hpre.mem_bounds hb).2.2
      exact (h.headers b hb').congr fun i hi ↦ hoff _ (by omega)
    · exact hheaders b hb
    · have hb' : b ∈ pre ++ (mid ++ post) := by simp [hb]
      have := (hpost.mem_bounds hb).1
      exact (h.headers b hb').congr fun i hi ↦ hoff _ (by omega)

/-- Writes outside all headers leave the list in memory. -/
theorem congr (h : Linked m bs)
    (hmm : ∀ b ∈ bs, ∀ i < sizeofBlock, m' (b.addr + i) = m (b.addr + i)) : Linked m' bs where
  tiles := h.tiles
  sized := h.sized
  headers b hb := (h.headers b hb).congr (hmm b hb)

/-! ## The three edits of the allocator -/

/-- Changing the `used` flag of one block. -/
theorem setUsed (h : Linked m (pre ++ b :: post)) (u : Bool) :
    Linked (setUsed m b.addr u) (pre ++ { b with used := u } :: post) := by
  have hmem : b ∈ pre ++ b :: post := by simp
  have hb := h.headers b hmem
  have hbound := h.bounds hmem
  obtain ⟨_, hpre, rfl, hpos, hpost⟩ := Tiles.append_iff.mp h.tiles
  have htile : Tiles b.addr [{ b with used := u }] b.fin := ⟨rfl, hpos, rfl⟩
  refine edit [b] [{ b with used := u }] h hpre htile hpost ?_ ?_ fun x hx ↦ setUsed_off (by omega)
  · simpa [WellSized] using h.sized b hmem
  · intro c hc
    rw [List.mem_singleton] at hc
    subst hc
    exact ⟨by simpa using hb.size, by simp, blockNext_setUsed.trans hb.next⟩

/-- Splitting a free block: a block of the first `n` addresses, and a free rest. -/
theorem split {n : Nat} (h : Linked m (pre ++ b :: post)) (hn : sizeofBlock ≤ n) (hqn : 4 ∣ n)
    (hnb : n + sizeofBlock ≤ b.size)
    (hnew : HeaderAt m' { addr := b.addr + n, size := b.size - n, used := false })
    (hold : HeaderAt m' { b with size := n })
    (hoff : ∀ x, x < b.addr ∨ b.fin ≤ x → m' x = m x) :
    Linked m' (pre ++ { b with size := n } ::
      { addr := b.addr + n, size := b.size - n, used := false } :: post) := by
  have hmem : b ∈ pre ++ b :: post := by simp
  have hb := h.sized b hmem
  obtain ⟨_, hpre, rfl, hpos, hpost⟩ := Tiles.append_iff.mp h.tiles
  unfold sizeofBlock at hn hnb
  refine edit [b] [{ b with size := n }, _] h hpre
    ⟨rfl, ?_, rfl, ?_, ?_⟩ hpost ?_ ?_ hoff
  · change 0 < n
    omega
  · change 0 < b.size - n
    omega
  · change b.addr + n + (b.size - n) = b.addr + b.size
    omega
  · intro c hc
    simp only [List.mem_cons, List.not_mem_nil, or_false] at hc
    rcases hc with rfl | rfl
    · exact ⟨hn, hqn⟩
    · exact ⟨by change 12 ≤ b.size - n; omega, Nat.dvd_sub hb.2 hqn⟩
  · intro c hc
    simp only [List.mem_cons, List.not_mem_nil, or_false] at hc
    rcases hc with rfl | rfl
    · exact hold
    · exact hnew

/-- Merging a block with its successor. -/
theorem absorb (h : Linked m (pre ++ b :: c :: post)) :
    Linked (absorb m b.addr c.addr) (pre ++ { b with size := b.size + c.size } :: post) := by
  have hbm : b ∈ pre ++ b :: c :: post := by simp
  have hcm : c ∈ pre ++ b :: c :: post := by simp
  have hb := h.headers b hbm
  have hc := h.headers c hcm
  have hsize : b.size + c.size < 2 ^ 32 := by
    have h₁ := h.size_lt hbm
    have h₂ := h.size_lt hcm
    unfold heapSize at h₁ h₂
    omega
  have hbound := h.bounds hbm
  have hdisj : b.addr + sizeofBlock ≤ c.addr := by
    obtain ⟨_, _, _, _, hcaddr, _⟩ := Tiles.append_iff.mp h.tiles
    rw [hcaddr]
    exact hbound.2.1
  obtain ⟨_, hpre, rfl, hpos, hcaddr, hcpos, hpost⟩ := Tiles.append_iff.mp h.tiles
  have hfin : Block.fin { b with size := b.size + c.size } = c.fin := by
    unfold Block.fin at hcaddr ⊢
    simp only
    omega
  have hcfin := (h.bounds hcm).2.2
  refine edit [b, c] [{ b with size := b.size + c.size }] h hpre
    ⟨rfl, Nat.lt_of_lt_of_le hpos (Nat.le_add_right _ _), rfl⟩ (hfin ▸ hpost) ?_ ?_ ?_
  · intro d hd
    rw [List.mem_singleton] at hd
    subst hd
    have h₁ := h.sized b hbm
    have h₂ := h.sized c hcm
    exact ⟨Nat.le_trans h₁.1 (Nat.le_add_right _ _), Nat.dvd_add h₁.2 h₂.2⟩
  · intro d hd
    rw [List.mem_singleton] at hd
    subst hd
    refine ⟨?_, ?_, ?_⟩
    · simp only [Memory.absorb, blockSize_setNext, blockSize_setSize, hb.size, hc.size]
      rw [add32_of_lt hsize, Nat.mod_eq_of_lt hsize]
    · simpa [Memory.absorb] using hb.used
    · have hnext : blockNext (setSize m b.addr (add32 (blockSize m b.addr) (blockSize m c.addr)))
          c.addr = nextAddr c :=
        (blockNext_congr fun i _ ↦ setSize_off (.inr (by omega))).trans hc.next
      have hlt : nextAddr c < 2 ^ 32 := hnext ▸ Mem.load32_lt _ _
      simp only [Memory.absorb, blockNext_setNext, hnext, Nat.mod_eq_of_lt hlt]
      simp only [nextAddr, hfin]
  · intro x hx
    rw [hfin] at hx
    exact absorb_off (.of_off (by have := (h.bounds hcm).2.1; omega))

end Linked

/-! ## The list in memory, followed by hand -/

/-- `BlockList m p bs`: following `next` pointers from `p` to `NULL` one meets the blocks
`bs`, in this order. -/
inductive BlockList (m : Mem) : Nat → List Block → Prop
  | /-- `NULL` ends the list. -/
    nil : BlockList m null []
  | /-- A block, and the list its `next` field leads to. -/
    cons {p : Nat} {bs : List Block} : p ≠ null → BlockList m (blockNext m p) bs →
      BlockList m p ({ addr := p, size := blockSize m p, used := blockUsed m p } :: bs)

namespace BlockList

variable {m : Mem} {p : Nat} {bs cs : List Block}

/-- There is at most one such list. -/
theorem unique (hb : BlockList m p bs) (hc : BlockList m p cs) : bs = cs := by
  induction hb generalizing cs with
  | nil =>
      cases hc with
      | nil => rfl
      | cons hne _ => exact absurd rfl hne
  | cons hne _ ih =>
      cases hc with
      | nil => exact absurd rfl hne
      | cons _ hc => rw [ih hc]

/-- The blocks of the list are as their headers say. -/
theorem blockSize_eq (hb : BlockList m p bs) {b : Block} (hmem : b ∈ bs) :
    blockSize m b.addr = b.size := by
  induction hb with
  | nil => cases hmem
  | cons hne _ ih =>
      rcases List.mem_cons.mp hmem with rfl | hmem
      · rfl
      · exact ih hmem

/-- A linked list is the list in memory. -/
theorem of_linked {suf pre : List Block} (hl : Linked m (pre ++ suf)) :
    BlockList m (headAddr suf) suf := by
  induction suf generalizing pre with
  | nil => exact .nil
  | cons b suf ih =>
      have hmem : b ∈ pre ++ b :: suf := by simp
      have hl' : Linked m ((pre ++ [b]) ++ suf) := by simpa using hl
      have hrest := ih hl'
      rw [← hl.next_eq] at hrest
      have := cons (hl.addr_ne_null hmem) hrest
      rwa [(hl.headers b hmem).size, (hl.headers b hmem).used] at this

/-- The representation invariant speaks about the list in memory. -/
theorem of_rep {h : Heap} (hr : Rep h bs) : BlockList h.mem h.heapStart bs := by
  have hl : Linked h.mem ([] ++ bs) := hr.linked
  rw [hr.head, ← hr.linked.headAddr_eq]
  exact of_linked hl

theorem eq_of_rep {h : Heap} (hr : Rep h bs) (hc : BlockList h.mem h.heapStart cs) : cs = bs :=
  unique hc (of_rep hr)

end BlockList

end KontolOS.Memory
