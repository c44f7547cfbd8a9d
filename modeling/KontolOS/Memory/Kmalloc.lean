import KontolOS.Memory.Layout

/-!
# `kmalloc` is first fit

On a heap that represents a block list, `kmalloc` returns what first fit on the list
returns (`kmalloc_none`, `kmalloc_some`), and it writes only to addresses that
were free.  The search terminates because the list in memory is finite.

Requests above `maxRequest` are excluded here: for them the rounding or the addition of
the header wraps around.  What happens then is the subject of `Memory/Overflow.lean`.
-/

namespace KontolOS.Memory

open KontolOS.Lib

/-! ## Sizes -/

/-- The largest request whose rounding and header do not wrap around. -/
def maxRequest : Nat := 0xFFFFFFF0

/-- `sizeof(struct mem_block) + 16`: the least rest worth splitting off. -/
def splitSlack : Nat := 28

/-- `& ~7` clears the three low bits. -/
theorem land_mask {x : Nat} (h : x < 2 ^ 32) : x &&& 0xFFFFFFF8 = x / 8 * 8 := by
  have hmask : (0xFFFFFFF8 : Nat) = (2 ^ 29 - 1) <<< 3 := by decide
  have hshift : x / 8 * 8 = (x >>> 3) <<< 3 := by
    rw [Nat.shiftRight_eq_div_pow, Nat.shiftLeft_eq]
  rw [hmask, hshift]
  apply Nat.eq_of_testBit_eq
  intro i
  rw [Nat.testBit_and, Nat.testBit_shiftLeft, Nat.testBit_shiftLeft, Nat.testBit_shiftRight,
    Nat.testBit_two_pow_sub_one]
  by_cases hi : 3 ≤ i
  · rw [show 3 + (i - 3) = i by omega]
    by_cases hlt : i - 3 < 29
    · simp [hi, hlt]
    · have : x.testBit i = false :=
        Nat.testBit_lt_two_pow (Nat.lt_of_lt_of_le h (Nat.pow_le_pow_right (by decide) (by omega)))
      simp [this]
  · simp [hi]

/-- What a request is charged when nothing wraps. -/
theorem totalSize_eq {size : Nat} (h : size ≤ maxRequest) :
    totalSize size = (size + 7) / 8 * 8 + 12 := by
  unfold maxRequest at h
  have halign : alignUp size = (size + 7) / 8 * 8 := by
    unfold alignUp
    rw [add32_of_lt (by omega), land_mask (by omega)]
  unfold totalSize sizeofBlock
  rw [halign, add32_of_lt (by omega)]

theorem totalSize_bounds {size : Nat} (h : size ≤ maxRequest) :
    size + sizeofBlock ≤ totalSize size ∧ sizeofBlock ≤ totalSize size ∧ 4 ∣ totalSize size ∧
      totalSize size ≤ size + 19 := by
  rw [totalSize_eq h]
  unfold sizeofBlock
  omega

/-! ## The search -/

/-- The addresses of the free blocks. -/
def InFree (bs : List Block) (x : Nat) : Prop :=
  ∃ c ∈ bs, c.used = false ∧ c.addr ≤ x ∧ x < c.fin

/-- The search of `kmalloc` is a linear search of the list. -/
theorem kmallocWalk_eq {h : Heap} {n : Nat} :
    ∀ {suf pre : List Block} {fuel : Nat}, Linked h.mem (pre ++ suf) → suf.length < fuel →
      kmallocWalk h n fuel (headAddr suf) = some (match suf.find? (Block.fits n) with
        | none => (null, h)
        | some b => kmallocTake h n b.addr) := by
  intro suf
  induction suf with
  | nil =>
      intro pre fuel _ hfuel
      cases fuel with
      | zero => omega
      | succ fuel => rfl
  | cons b suf ih =>
      intro pre fuel hl hfuel
      cases fuel with
      | zero => omega
      | succ fuel =>
          have hmem : b ∈ pre ++ b :: suf := by simp
          have hhead := hl.headers b hmem
          have hfits : (!blockUsed h.mem b.addr && decide (n ≤ blockSize h.mem b.addr))
              = b.fits n := by
            rw [hhead.used, hhead.size]; rfl
          rw [headAddr, kmallocWalk, if_neg (hl.addr_ne_null hmem), hfits, hl.next_eq]
          cases hf : b.fits n with
          | true => simp [hf]
          | false =>
              have hl' : Linked h.mem ((pre ++ [b]) ++ suf) := by simpa using hl
              simpa [hf] using ih hl' (by simpa using hfuel)

/-! ## Taking a block -/

section Take

variable {h : Heap} {n : Nat} {pre post : List Block} {c : Block}

/-- `kmallocTake` returns the address after the header of the block. -/
@[simp] theorem kmallocTake_ptr : (kmallocTake h n c.addr).1 = c.addr + sizeofBlock := rfl

/-- The memory after the split of `kmallocTake`, when the block is split. -/
private def splitMem (m : Mem) (n : Nat) (c : Block) : Mem :=
  let m := setSize m (c.addr + n) (sub32 (blockSize m c.addr) n)
  let m := setUsed m (c.addr + n) false
  let m := setNext m (c.addr + n) (blockNext m c.addr)
  let m := setSize m c.addr n
  setNext m c.addr (c.addr + n)

/-- The five stores of a split put the two headers in place. -/
private theorem linked_splitMem {m : Mem} (hl : Linked m (pre ++ c :: post))
    (hn : sizeofBlock ≤ n) (hqn : 4 ∣ n) (hnc : n + splitSlack ≤ c.size) :
    Linked (splitMem m n c) (pre ++ { c with size := n } ::
      { addr := c.addr + n, size := c.size - n, used := false } :: post) ∧
    ∀ x, x < c.addr ∨ c.fin ≤ x → splitMem m n c x = m x := by
  have hmem : c ∈ pre ++ c :: post := by simp
  have hc := hl.headers c hmem
  have hbound := hl.bounds hmem
  have hsize := hl.size_lt hmem
  unfold splitSlack at hnc
  unfold sizeofBlock at hn
  have hoff : ∀ x, x < c.addr ∨ c.fin ≤ x → splitMem m n c x = m x := by
    intro x hx
    unfold Block.fin at hx
    unfold splitMem
    rw [setNext_off (by unfold sizeofBlock; omega), setSize_off (by unfold sizeofBlock; omega),
      setNext_off (by unfold sizeofBlock; omega), setUsed_off (by unfold sizeofBlock; omega),
      setSize_off (by unfold sizeofBlock; omega)]
  have hsub : sub32 (blockSize m c.addr) n = c.size - n := by
    rw [hc.size]
    exact sub32_of_le (by omega) (by unfold heapSize at hsize; omega)
  -- the stores to the new header do not reach the old one, nor the other way round
  have hlow : ∀ {m' : Mem} {i : Nat}, i < sizeofBlock →
      setUsed (setSize m' (c.addr + n) (c.size - n)) (c.addr + n) false (c.addr + i)
        = m' (c.addr + i) := by
    intro m' i hi
    rw [setUsed_off (by unfold sizeofBlock at *; omega),
      setSize_off (by unfold sizeofBlock at *; omega)]
  have hnextc : blockNext (setUsed (setSize m (c.addr + n) (c.size - n)) (c.addr + n) false)
      c.addr = nextAddr c := (blockNext_congr fun i hi ↦ hlow hi).trans hc.next
  have hnextlt : nextAddr c < 2 ^ 32 := hc.next ▸ Mem.load32_lt _ _
  have hhigh : ∀ i < sizeofBlock, splitMem m n c (c.addr + n + i) =
      setNext (setUsed (setSize m (c.addr + n) (c.size - n)) (c.addr + n) false) (c.addr + n)
        (nextAddr c) (c.addr + n + i) := by
    intro i hi
    unfold splitMem
    rw [setNext_off (by unfold sizeofBlock; omega), setSize_off (by unfold sizeofBlock; omega),
      hsub, hnextc]
  have hheapEnd : c.addr + n < 2 ^ 32 := by
    unfold heapEnd heapStart heapSize Block.fin at hbound
    omega
  unfold heapSize at hsize
  refine ⟨hl.split hn hqn (by unfold sizeofBlock; omega) ⟨?_, ?_, ?_⟩ ⟨?_, ?_, ?_⟩ hoff, hoff⟩
  · rw [blockSize_congr hhigh, blockSize_setNext, blockSize_setUsed, blockSize_setSize]
    exact Nat.mod_eq_of_lt (by omega)
  · rw [blockUsed_congr hhigh, blockUsed_setNext, blockUsed_setUsed]
  · rw [blockNext_congr hhigh, blockNext_setNext, Nat.mod_eq_of_lt hnextlt]
    have hfin : Block.fin { addr := c.addr + n, size := c.size - n, used := false } = c.fin := by
      simp only [Block.fin]
      omega
    simp only [nextAddr, hfin]
  · simp only [splitMem, blockSize_setNext, blockSize_setSize]
    exact Nat.mod_eq_of_lt (by omega)
  · simp only [splitMem, blockUsed_setNext, blockUsed_setSize]
    rw [blockUsed_congr fun i hi ↦ setNext_off (by unfold sizeofBlock at *; omega), hsub,
      blockUsed_congr fun i hi ↦ hlow hi]
    exact hc.used
  · simp only [splitMem, blockNext_setNext, Nat.mod_eq_of_lt hheapEnd]
    have hne : Block.fin { c with size := n } ≠ heapEnd := by
      have := hbound.2.2
      simp only [Block.fin] at *
      omega
    exact (if_neg hne).symm

/-- Taking a block carves it as the list does. -/
theorem kmallocTake_spec (hr : Rep h (pre ++ c :: post)) (hc : c.fits n = true)
    (hn : sizeofBlock ≤ n) (hqn : 4 ∣ n) :
    Linked (kmallocTake h n c.addr).2.mem
      (pre ++ (c.carve n splitSlack).1 :: ((c.carve n splitSlack).2 ++ post)) ∧
    (kmallocTake h n c.addr).2.usedMemory
      = add32 h.usedMemory (c.carve n splitSlack).1.size ∧
    ∀ x, x < c.addr ∨ c.fin ≤ x → (kmallocTake h n c.addr).2.mem x = h.mem x := by
  obtain ⟨_, hnc⟩ := Block.fits_iff.mp hc
  have hl := hr.linked
  have hmem : c ∈ pre ++ c :: post := by simp
  have hhead := hl.headers c hmem
  have hsize := hl.size_lt hmem
  have hbound := hl.bounds hmem
  unfold heapSize at hsize
  have hslack : add32 (add32 n sizeofBlock) 16 = n + splitSlack := by
    have hinner : add32 n sizeofBlock = n + sizeofBlock :=
      add32_of_lt (by unfold sizeofBlock; omega)
    rw [hinner, add32_of_lt (by unfold sizeofBlock; omega)]
    rfl
  by_cases hs : n + splitSlack ≤ c.size
  · obtain ⟨hl₁, hoff⟩ := linked_splitMem hl hn hqn hs
    have hl₂ := hl₁.setUsed true
    have hmem₂ : (kmallocTake h n c.addr).2.mem = setUsed (splitMem h.mem n c) c.addr true := by
      simp only [kmallocTake, hslack, hhead.size, if_pos hs, splitMem]
    have hcarve : c.carve n splitSlack = ({ c with size := n, used := true },
        [{ addr := c.addr + n, size := c.size - n, used := false }]) := if_pos hs
    refine ⟨by rw [hmem₂, hcarve]; exact hl₂, ?_, ?_⟩
    · rw [hcarve]
      have := (hl₂.headers { c with size := n, used := true } (by simp)).size
      change add32 h.usedMemory (blockSize (kmallocTake h n c.addr).2.mem c.addr) = _
      rw [hmem₂, this]
    · intro x hx
      rw [hmem₂, setUsed_off (by unfold sizeofBlock at *; omega)]
      exact hoff x hx
  · have hl₂ := hl.setUsed true
    have hmem₂ : (kmallocTake h n c.addr).2.mem = setUsed h.mem c.addr true := by
      simp only [kmallocTake, hslack, hhead.size, if_neg hs]
    have hcarve : c.carve n splitSlack = ({ c with used := true }, []) := if_neg hs
    refine ⟨by rw [hmem₂, hcarve]; exact hl₂, ?_, ?_⟩
    · rw [hcarve]
      have := (hl₂.headers { c with used := true } (by simp)).size
      change add32 h.usedMemory (blockSize (kmallocTake h n c.addr).2.mem c.addr) = _
      rw [hmem₂, this]
    · intro x hx
      rw [hmem₂, setUsed_off (by unfold sizeofBlock at *; omega)]

end Take

/-! ## The specification of `kmalloc` -/

section Spec

variable {h : Heap} {n size : Nat} {bs bs' : List Block} {b : Block}

/-- The search of `kmalloc` from `heap_start` finds the first block that fits. -/
theorem search_eq (hr : Rep h bs) :
    kmallocWalk h n walkFuel h.heapStart = some (match bs.find? (Block.fits n) with
      | none => (null, h)
      | some b => kmallocTake h n b.addr) := by
  have hl : Linked h.mem ([] ++ bs) := hr.linked
  rw [hr.head, ← hr.linked.headAddr_eq]
  exact kmallocWalk_eq hl hr.linked.length_lt

/-- If first fit finds no block, the search returns `NULL` and changes nothing. -/
theorem search_none (hr : Rep h bs) (ha : alloc n splitSlack bs = none) :
    kmallocWalk h n walkFuel h.heapStart = some (null, h) := by
  have hfind : bs.find? (Block.fits n) = none := by
    rw [List.find?_eq_none]
    intro b hb hf
    obtain ⟨hu, hle⟩ := Block.fits_iff.mp hf
    have := alloc_eq_none_iff.mp ha b hb hu
    omega
  rw [search_eq hr, hfind]

/-- If first fit finds a block, the search returns the address after its header, and the
heap then represents the list first fit returns.  Only free addresses were written. -/
theorem search_some (hr : Rep h bs) (hn : sizeofBlock ≤ n) (hqn : 4 ∣ n)
    (ha : alloc n splitSlack bs = some (b, bs')) :
    ∃ h', kmallocWalk h n walkFuel h.heapStart = some (b.addr + sizeofBlock, h') ∧
      Rep h' bs' ∧ ∀ x, ¬ InFree bs x → h'.mem x = h.mem x := by
  obtain ⟨pre, c, post, rfl, hpre, hc, rfl, rfl⟩ := alloc_eq_some ha
  have hfind : (pre ++ c :: post).find? (Block.fits n) = some c := by
    rw [List.find?_append, List.find?_eq_none.mpr fun d hd ↦ by simp [hpre d hd]]
    simp [hc]
  obtain ⟨hl, hused, hoff⟩ := kmallocTake_spec hr hc hn hqn
  refine ⟨(kmallocTake h n c.addr).2, ?_, ⟨?_, hr.coalesced.alloc ha, hr.head, hr.total, ?_⟩, ?_⟩
  · rw [search_eq hr, hfind, carve_addr]
    rfl
  · simpa using hl
  · have hext := extent_alloc ha
    have hlinked : Linked (kmallocTake h n c.addr).2.mem
        (pre ++ (c.carve n splitSlack).1 :: (c.carve n splitSlack).2 ++ post) := by
      simpa using hl
    have hsum := hlinked.tiles.extent_add
    rw [hused, hr.used, hext]
    refine add32_of_lt ?_
    rw [← hext]
    unfold heapEnd heapStart heapSize at hsum
    omega
  · intro x hx
    refine hoff x ?_
    by_contra hin
    exact hx ⟨c, by simp, (Block.fits_iff.mp hc).1, by omega, by omega⟩

/-- `kmalloc` returns `NULL`, and changes nothing, when first fit finds no block. -/
theorem kmalloc_none (hr : Rep h bs) (hpos : 0 < size)
    (ha : alloc (totalSize size) splitSlack bs = none) : kmalloc h size = some (null, h) := by
  rw [kmalloc, if_neg (by omega)]
  exact search_none hr ha

/-- `kmalloc` hands out the block that first fit finds. -/
theorem kmalloc_some (hr : Rep h bs) (hpos : 0 < size) (hmax : size ≤ maxRequest)
    (ha : alloc (totalSize size) splitSlack bs = some (b, bs')) :
    ∃ h', kmalloc h size = some (b.addr + sizeofBlock, h') ∧ Rep h' bs' ∧
      ∀ x, ¬ InFree bs x → h'.mem x = h.mem x := by
  obtain ⟨_, hn, hqn, _⟩ := totalSize_bounds hmax
  rw [kmalloc, if_neg (by omega)]
  exact search_some hr hn hqn ha

/-- The addresses of a used block are not free. -/
theorem not_inFree_of_used {m : Mem} (hl : Linked m bs) (hb : b ∈ bs) (hbu : b.used = true)
    {x : Nat} (hx : b.addr ≤ x) (hx' : x < b.fin) : ¬ InFree bs x := by
  rintro ⟨c, hc, hcu, hcx⟩
  have := hl.tiles.eq_of_mem_of_mem hb hc ⟨hx, hx'⟩ hcx
  rw [this, hcu] at hbu
  cases hbu

end Spec

end KontolOS.Memory
