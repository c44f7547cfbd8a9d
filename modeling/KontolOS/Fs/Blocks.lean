import KontolOS.Fs.Steps
import KontolOS.Memory.UsedBlocks

/-!
# The blocks of the files

What the calls of another client do to the used blocks of the heap, and what writing a file does:
but for the block of the file itself, which is replaced, it leaves them as they are.
-/

namespace KontolOS.Fs

open KontolOS.Lib KontolOS.Memory KontolOS.Strings Function

variable {tight : Prop} {s s' : Sys} {others : Live} {heap : Heap} {i : Slot} {p size : Nat}
  {code : Int} {n : List UInt8}

/-- The block of the data of the file `n`, if there is one. -/
def dataBlocks (s : Sys) (n : List UInt8) : Set Block :=
  blocksAt ((slotOf s n).toList.map fun i ↦ (s.fileTable i).data)

theorem dataBlocks_of_some (h : slotOf s n = some i) :
    dataBlocks s n = blocksAt [(s.fileTable i).data] := by
  rw [dataBlocks, h]
  rfl

theorem dataBlocks_of_none (h : slotOf s n = none) : dataBlocks s n = ∅ := by
  rw [dataBlocks, h]
  exact blocksAt_nil

/-! ## The calls of another client -/

/-- No block is at `NULL`. -/
theorem Inv.sdiff_null (hI : Inv tight s others) :
    usedBlocks s.heap \ blocksAt [null] = usedBlocks s.heap := by
  obtain ⟨_, _, hs, _⟩ := hI.heap
  exact hs.owned.sdiff_of_none hs.owned.live_null

theorem Inv.usedBlocks_kmalloc (hI : Inv tight s others) (hsize : size ≤ maxRequest)
    (hk : Memory.kmalloc s.heap size = some (p, heap)) :
    usedBlocks heap \ blocksAt [p] = usedBlocks s.heap := by
  obtain ⟨_, _, hs, _⟩ := hI.heap
  exact hs.owned.usedBlocks_kmalloc (.inl hsize) hk

theorem Inv.usedBlocks_kfree (hI : Inv tight s others) (hp : (others p).isSome)
    (hk : Memory.kfree s.heap p = some heap) :
    usedBlocks heap = usedBlocks s.heap \ blocksAt [p] := by
  obtain ⟨live, _, hs, _⟩ := hI.heap
  obtain ⟨o, ho⟩ := Option.isSome_iff_exists.mp hp
  have hlive : (live p).isSome := by
    rw [hs.others_le p o ho]
    rfl
  exact hs.owned.usedBlocks_kfree hlive hk

/-! ## Writing -/

/-- `if (data != NULL) kfree(data)` takes away the block of the data. -/
theorem usedBlocks_freeData {h h' : Heap} {live : Live} {bs : List Block} (hw : Owned h live bs)
    (hp : p ≠ null → (live p).isSome) (hfree : freeData h p = some h') :
    usedBlocks h' = usedBlocks h \ blocksAt [p] := by
  rw [freeData] at hfree
  by_cases hnull : p = null
  · rw [if_pos hnull] at hfree
    cases hfree
    rw [hnull, hw.sdiff_of_none hw.live_null]
  · rw [if_neg hnull] at hfree
    exact hw.usedBlocks_kfree (hp hnull) hfree

/-- **`fs_write`** replaces the block of the file, and leaves the other blocks alone. -/
theorem usedBlocks_fsWrite {src : List UInt8} (hI : Inv tight s others) (hsrc : size ≤ src.length)
    (hcall : fsWrite Memory.kmalloc s (some i) (some src) size = some (code, s')) :
    usedBlocks s'.heap \ blocksAt [(s'.fileTable i).data] =
      usedBlocks s.heap \ blocksAt [(s.fileTable i).data] := by
  have hmax : fsMaxFilesize ≤ maxRequest := by decide
  obtain ⟨_, _, hs, _⟩ := hI.heap
  obtain ⟨h₁, bs₁, hfree, hw₁, _⟩ := freeData_spec hs.owned (hs.data_isSome (i := i))
  have hblocks₁ := usedBlocks_freeData hs.owned hs.data_isSome hfree
  simp only [fsWrite, hfree, Option.bind_eq_bind, Option.bind_some] at hcall
  split at hcall
  · obtain ⟨_, rfl⟩ := Prod.mk.inj (Option.some.inj hcall)
    rfl
  next hsize =>
  split at hcall
  · obtain ⟨_, rfl⟩ := Prod.mk.inj (Option.some.inj hcall)
    rw [TableOk.setFile_same]
    exact (hw₁.sdiff_of_none hw₁.live_null).trans hblocks₁
  have hreq : size ≤ maxRequest := Nat.le_trans (Nat.not_lt.mp hsize) hmax
  obtain ⟨⟨ptr, h₂⟩, hk, hcall⟩ := Option.bind_eq_some_iff.mp hcall
  have hblocks₂ := hw₁.usedBlocks_kmalloc (.inl hreq) hk
  simp only at hcall
  split at hcall
  next hptr =>
    obtain ⟨_, rfl⟩ := Prod.mk.inj (Option.some.inj hcall)
    rw [TableOk.setFile_same]
    rw [hptr] at hblocks₂
    exact hblocks₂.trans hblocks₁
  next hptr =>
    rw [copyIn_eq hsrc] at hcall
    obtain ⟨_, rfl⟩ := Prod.mk.inj (Option.some.inj hcall)
    rw [TableOk.setFile_same]
    -- the new contents are written into the new block
    rcases hw₁.kmalloc (.inl hreq) with hnull | ⟨b, bs₂, _, _, hsome, _, hw₂⟩
    · cases hnull.symm.trans hk
      exact absurd rfl hptr
    · cases hsome.symm.trans hk
      have hlen : (src.take size).length = size := List.length_take_of_le hsrc
      have hw₃ := hw₂.overwrite_all (update_self _ _ _)
        (m := h₂.mem.write (b.addr + sizeofBlock) (src.take size))
        fun x hx ↦ Mem.write_off (by rw [hlen]; exact hx)
      rw [← hblocks₁, ← hblocks₂, ← hw₂.usedBlocks_eq hw₃]
      rfl

end KontolOS.Fs
