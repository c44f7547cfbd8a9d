import KontolOS.Memory.Overflow
import KontolOS.Memory.Complete
import KontolOS.Memory.Realloc

/-!
# When `kcalloc` may be trusted

`kcalloc(num, size)` multiplies in 32 bits and hands the product to `kmalloc`, which rounds it
up and adds a header in 32 bits.  None of the three is checked.  If the product of the integers
is at most `maxRequest` nothing wraps, and the block is as large as it should be and full of
zeros.  If it is larger, the block is too small, unless there is none: the 32-bit product is 0,
or `kmalloc` finds no free block for it.
-/

namespace KontolOS.Memory

open KontolOS.Lib Function

/-! ## What `kcalloc` owes its caller -/

/-- What `kcalloc(num, size)` owes its caller when it turns `h` into `h'` and returns the
pointer `ptr`, which is not `NULL`. -/
structure Zeroed (h : Heap) (num size ptr : Nat) (h' : Heap) : Prop where
  /-- the block has `num * size` bytes of payload -/
  room : ∃ n, num * size ≤ n ∧ Holds h' ptr n
  /-- all of them are zero -/
  zero : ∀ i < num * size, h'.mem (ptr + i) = 0
  /-- no byte of another allocation has changed -/
  kept : ∀ r n, Holds h r n → ∀ i < n, h'.mem (r + i) = h.mem (r + i)

/-- `kcalloc(num, size)` returns, with `NULL` or with what it owes its caller. -/
def Callocates (h : Heap) (num size : Nat) : Prop :=
  ∃ ptr h', kcalloc h num size = some (ptr, h') ∧ (ptr ≠ null → Zeroed h num size ptr h')

/-- No free block has room for `t` bytes: the free blocks are too small for `t` bytes and a
header, or `t` is so large that this would wrap around, and there is no free block at all. -/
def NoFreeBlock (h : Heap) (t : Nat) : Prop :=
  ∀ bs, BlockList h.mem h.heapStart bs → ∀ b ∈ bs, b.used = false →
    t ≤ maxRequest ∧ b.size < needed t

/-! ## The two cases -/

namespace Owned

variable {h : Heap} {live : Live} {bs : List Block} {num size : Nat}

/-- **A product that does not wrap.** -/
theorem callocates (hw : Owned h live bs) (hmax : num * size ≤ maxRequest) :
    Callocates h num size := by
  have hmul : mul32 num size = num * size :=
    mul32_of_lt (Nat.lt_of_le_of_lt hmax (by decide))
  have hs : Harmless h (mul32 num size) := .inl (by rwa [hmul])
  rcases hw.whole.kcalloc hs with hk | ⟨ptr, h', bs', hk, hne, hfresh, hw'⟩
  · exact ⟨null, h, hk, fun hne ↦ absurd rfl hne⟩
  rw [hmul] at hw'
  refine ⟨ptr, h', hk, fun _ ↦ ⟨?_, fun i hi ↦ ?_, fun r n hr i hi ↦ ?_⟩⟩
  · obtain ⟨b, hb, hbu, hbp, hreq⟩ := hw'.block_of_live (update_self ptr _ _)
    have hreq : num * size + sizeofBlock ≤ b.size := hreq
    exact ⟨b.size - sizeofBlock, by omega, hw'.holds_iff.mpr ⟨b, hb, hbu, hbp, by omega⟩⟩
  · exact hw'.kept ptr _ (update_self ptr _ _) i hi 0 rfl
  · have hlive := hw.whole_of_holds hr h.mem
    have hrp : r ≠ ptr := by
      rintro rfl
      rw [hfresh] at hlive
      cases hlive
    refine hw'.kept r ⟨n, fun i ↦ some (h.mem (r + i))⟩ ?_ i hi _ rfl
    rw [update_of_ne hrp]
    exact hlive

/-- `kmalloc` refuses what no free block has room for. -/
theorem kmalloc_refuses (hw : Owned h live bs) {t : Nat} (hno : t = 0 ∨ NoFreeBlock h t) :
    Memory.kmalloc h t = some (null, h) := by
  rcases Nat.eq_zero_or_pos t with rfl | hpos
  · rfl
  have hno : NoFreeBlock h t := hno.resolve_left (Nat.ne_of_gt hpos)
  refine kmalloc_none hw.rep hpos (alloc_eq_none_iff.mpr fun b hb hbu ↦ ?_)
  obtain ⟨hmax, hlt⟩ := hno bs (BlockList.of_rep hw.rep) b hb hbu
  exact (totalSize_eq hmax).symm ▸ hlt

/-- Where some free block has room, `kmalloc` hands out a block that is small: no larger than
the heap, and if the request wraps, hardly larger than a header. -/
theorem kmalloc_small (hw : Owned h live bs) {t : Nat} (ht : t < 2 ^ 32) (hpos : 0 < t)
    (hfree : ¬ NoFreeBlock h t) :
    ∃ c h', Memory.kmalloc h t = some (c + sizeofBlock, h') ∧ blockSize h'.mem c ≤ heapSize := by
  unfold NoFreeBlock at hfree
  push Not at hfree
  obtain ⟨cs, hcs, b, hb, hbu, hbt⟩ := hfree
  rw [BlockList.eq_of_rep hw.rep hcs] at hb
  by_cases hmax : t ≤ maxRequest
  · cases ha : alloc (totalSize t) splitSlack bs with
    | none =>
        have hlt := alloc_eq_none_iff.mp ha b hb hbu
        have hneeded : totalSize t = needed t := totalSize_eq hmax
        exact absurd (hbt hmax) (by omega)
    | some r =>
        obtain ⟨h', hk, _, hw'⟩ := hw.kmalloc_some hpos hmax ha
        refine ⟨r.1.addr, h', hk, ?_⟩
        have hl := hw'.rep.linked
        rw [(hl.headers r.1 (alloc_mem ha)).size]
        exact hl.size_lt (alloc_mem ha)
  · obtain ⟨c, _, h', hk, hlt⟩ := kmalloc_of_wrap hw.rep hb hbu ht (Nat.not_le.mp hmax)
    exact ⟨c.addr, h', hk, Nat.le_trans (Nat.le_of_lt hlt) (by decide)⟩


/-- **A product that wraps**, for which there is a block: it is too small. -/
theorem not_callocates (hw : Owned h live bs) (hwrap : maxRequest < num * size)
    (hpos : 0 < mul32 num size) (hfree : ¬ NoFreeBlock h (mul32 num size)) :
    ¬ Callocates h num size := by
  rintro ⟨ptr, h', hk, howed⟩
  obtain ⟨c, h₁, hk₁, hsmall⟩ := hw.kmalloc_small (t := mul32 num size)
    (Nat.mod_lt _ (by decide)) hpos hfree
  have hptr : c + sizeofBlock ≠ null := Nat.ne_of_gt (Nat.succ_pos _)
  simp only [Memory.kcalloc, hk₁, Option.bind_eq_bind, Option.bind_some, hptr, ↓reduceIte,
    Option.pure_def, Option.some.injEq, Prod.mk.injEq] at hk
  obtain ⟨rfl, rfl⟩ := hk
  obtain ⟨n, hn, hholds⟩ := (howed hptr).room
  -- the zeros are written behind the header
  have hheader : blockSize (memset h₁.mem (c + sizeofBlock) 0 (mul32 num size)) c =
      blockSize h₁.mem c := blockSize_congr fun i hi ↦ by
    rw [memset_eq_write]
    exact Mem.write_off (.inl (Nat.add_lt_add_left hi c))
  have hsize := hholds.blockSize_eq
  rw [hheader] at hsize
  unfold maxRequest at hwrap
  unfold heapSize at hsmall
  omega

end Owned

/-! ## Which calls keep the promise -/

/-- **`kcalloc` returns what it owes exactly if** the product of the integers does not wrap, or
the 32-bit product is 0, or no free block has room for the 32-bit product. -/
theorem callocates_iff {w : Clients} (hr : Reachable Careful w) (num size : Nat) :
    Callocates w.heap num size ↔
      num * size ≤ maxRequest ∨ num * size % 2 ^ 32 = 0 ∨
        NoFreeBlock w.heap (num * size % 2 ^ 32) := by
  obtain ⟨bs, hw⟩ := hr.owned
  constructor
  · intro hc
    by_contra hnot
    obtain ⟨hwrap, hnot⟩ := not_or.mp hnot
    obtain ⟨hzero, hfree⟩ := not_or.mp hnot
    exact hw.not_callocates (Nat.not_le.mp hwrap) (Nat.pos_of_ne_zero hzero) hfree hc
  · rintro (hmax | hno)
    · exact hw.callocates hmax
    · refine ⟨null, w.heap, ?_, fun hne ↦ absurd rfl hne⟩
      rw [Memory.kcalloc, mul32, hw.kmalloc_refuses hno]
      rfl

/-- Where no byte was zero, a hole among other allocations is filled with zeros. -/
theorem callocates_iff_fragmented : ∃ w, Run (ClientStep (Legal heapSize))
      (Clients.init fun _ ↦ 0xFF) fragmenting w ∧
    (Callocates w.heap 3 5 ↔ 3 * 5 ≤ maxRequest ∨ 3 * 5 % 2 ^ 32 = 0 ∨
      NoFreeBlock w.heap (3 * 5 % 2 ^ 32)) ∧
    ∃ h', kcalloc w.heap 3 5 = some (heapStart + 68 + sizeofBlock, h') ∧
      Zeroed w.heap 3 5 (heapStart + 68 + sizeofBlock) h' ∧
      Holds w.heap (heapStart + 328 + sizeofBlock) 304 := by
  obtain ⟨w, hrun, hw, _⟩ := fragmented fun _ ↦ 0xFF
  have hr : Reachable Careful w :=
    Reachable.mono ⟨_, _, hrun⟩ fun _ _ ↦ Legal.careful (by decide)
  have hiff := callocates_iff hr 3 5
  obtain ⟨ptr, h', hk, hzero⟩ := hiff.mpr (.inl (by decide))
  obtain ⟨h₁, hk₁, _⟩ := hw.kmalloc_some (by decide : 0 < 15) (by decide)
    (show _ = some (⟨heapStart + 68, 28, true⟩, [⟨heapStart, 68, true⟩,
      ⟨heapStart + 68, 28, true⟩, ⟨heapStart + 96, 232, false⟩, ⟨heapStart + 328, 316, true⟩,
      ⟨heapStart + 644, heapSize - 644, false⟩]) by decide)
  have hptr : ptr = heapStart + 68 + sizeofBlock := by
    have hk₁ : kmalloc w.heap (mul32 3 5) = _ := hk₁
    rw [kcalloc, hk₁] at hk
    exact (congrArg Prod.fst (Option.some.inj hk)).symm
  subst hptr
  exact ⟨w, hrun, hiff, h', hk, hzero (by decide),
    hw.holds_iff.mpr ⟨⟨heapStart + 328, 316, true⟩, by decide, rfl, rfl, rfl⟩⟩

/-- On the heap of `memory_init`, `2 ^ 28 + 1` elements of 16 bytes are granted 16 bytes. -/
theorem not_callocates_init : Reachable Careful (Clients.init fun _ ↦ 0) ∧
    ¬ Callocates (memoryInit fun _ ↦ 0) 0x10000001 16 ∧
    ∃ h', kcalloc (memoryInit fun _ ↦ 0) 0x10000001 16 = some (heapStart + sizeofBlock, h') ∧
      Holds h' (heapStart + sizeofBlock) 16 := by
  have hw := Owned.init fun _ ↦ 0
  have ha : alloc (totalSize 16) splitSlack
      [{ addr := heapStart, size := heapSize, used := false }] =
      some ({ addr := heapStart, size := 28, used := true },
        [{ addr := heapStart, size := 28, used := true },
          { addr := heapStart + 28, size := 4194276, used := false }]) := by decide
  have hfree : ¬ NoFreeBlock (memoryInit fun _ ↦ 0) (mul32 0x10000001 16) := fun hno ↦
    absurd (hno _ (BlockList.of_rep hw.rep) _ (List.mem_singleton.mpr rfl) rfl).2 (by decide)
  refine ⟨⟨_, [], .nil _⟩, hw.not_callocates (by decide) (by decide) hfree, ?_⟩
  obtain ⟨h', hk, _, hw'⟩ := hw.kmalloc_some (by decide : 0 < 16) (by decide) ha
  have hzero := hw'.overwrite_all (update_self _ _ _)
    (m := memset h'.mem (heapStart + sizeofBlock) 0 16) fun x hx ↦ by
      rw [memset_eq_write]
      exact Mem.write_off (by rw [List.length_replicate]; exact hx)
  refine ⟨_, ?_, hzero.holds_iff.mpr ⟨_, alloc_mem ha, rfl, rfl, rfl⟩⟩
  have hk : kmalloc (memoryInit fun _ ↦ 0) (mul32 0x10000001 16) = _ := hk
  rw [kcalloc, hk]
  rfl

end KontolOS.Memory
