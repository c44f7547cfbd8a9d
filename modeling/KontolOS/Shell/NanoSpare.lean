import KontolOS.Fs.Spare
import KontolOS.Shell.NanoFile

/-!
# An editor with memory to spare

With enough memory to spare at the end of the heap, every allocation of the editor succeeds:
those of the lines, the one for the contents of the file, and those for the text and the new
data when it is saved.
-/

namespace KontolOS.Shell

open KontolOS.Lib KontolOS.Memory KontolOS.Strings KontolOS.Fs Function

variable {tight : Prop} {s s' : Sys} {others : Live} {filename n c : List UInt8}
  {size p k : Nat} {heap : Heap}

/-! ## Lines -/

/-- What the allocation of a line takes. -/
def lineCost : Nat := nanoLineLen + overhead

/-- The loop that allocates the lines. -/
theorem nanoAlloc_spare {ptrs : List Nat} {m : Nat} (hI : Inv tight s others)
    (hk : m * lineCost + k ≤ heapSize) (hs : Spare s.heap (m * lineCost + k))
    (hcall : nanoAlloc s.heap m = some (ptrs, heap)) :
    (∀ p ∈ ptrs, p ≠ null) ∧ Spare heap k := by
  induction m generalizing s others ptrs with
  | zero =>
      cases hcall
      rw [Nat.zero_mul, Nat.zero_add] at hs
      exact ⟨nofun, hs⟩
  | succ m ih =>
      have hcost : (m + 1) * lineCost + k = nanoLineLen + overhead + (m * lineCost + k) := by
        rw [Nat.succ_mul, lineCost]
        omega
      rw [hcost] at hk hs
      obtain ⟨ptr, heap₁, hk₁, hI₁, _⟩ := hI.kmalloc (show nanoLineLen ≤ maxRequest by decide)
      obtain ⟨hptr, hs₁⟩ := hI.spare_kmalloc (by decide) hk hs hk₁
      simp only [nanoAlloc, hk₁, Option.bind_eq_bind, Option.bind_some,
        Option.bind_eq_some_iff] at hcall
      obtain ⟨⟨ptrs', heap'⟩, hloop, heq⟩ := hcall
      cases heq
      obtain ⟨hall, hs'⟩ := ih hI₁ (by omega) hs₁ hloop
      exact ⟨List.forall_mem_cons.mpr ⟨hptr, hall⟩, hs'⟩

/-- What the allocations at the beginning of `cmd_nano` take. -/
def nanoCost : Nat := nanoMaxLines * sizeofPtr + overhead + nanoMaxLines * lineCost

/-- **The beginning of `cmd_nano`** allocates all lines. -/
theorem nanoAllocate_spare (hI : Inv tight s others) (hn : Holds filename n)
    (hk : nanoCost + k ≤ heapSize) (hs : Spare s.heap (nanoCost + k)) :
    ∃ b s', nanoAllocate filename s = some (some b, s') ∧ (∀ p ∈ b.ptrs, p ≠ null) ∧
      Spare s'.heap k := by
  have hcost : nanoCost + k =
      nanoMaxLines * sizeofPtr + overhead + (nanoMaxLines * lineCost + k) := by
    rw [nanoCost, Nat.add_assoc]
  rw [hcost] at hk hs
  obtain ⟨s₁, hcreate, hI, hheap, _⟩ := nanoCreate_spec hI hn
  rw [← hheap] at hs
  obtain ⟨table, heap₁, hk₁, hI₁, _⟩ := hI.kmalloc
    (show nanoMaxLines * sizeofPtr ≤ maxRequest by decide)
  obtain ⟨htable, hs₁⟩ := hI.spare_kmalloc (by decide) hk hs hk₁
  obtain ⟨ptrs, heap₂, _, halloc, _⟩ := nanoAlloc_spec hI₁ nanoMaxLines
  obtain ⟨hall, hs₂⟩ := nanoAlloc_spare hI₁ (by omega) hs₁ halloc
  refine ⟨⟨table, ptrs⟩, { s₁ with heap := heap₂ }, ?_, hall, hs₂⟩
  simp only [nanoAllocate, hcreate, hk₁, if_neg htable, halloc, Option.bind_eq_bind,
    Option.bind_some]
  rfl

/-! ## Reading and saving -/

/-- What reading a file takes, at most. -/
def readCost : Nat := fsMaxFilesize + 1 + overhead

theorem readSucceeds_of_spare (hI : Inv tight s others) (hs : Spare s.heap readCost) :
    ReadSucceeds s n := by
  intro i _ hpos
  have hsize := (hI.table.file i).size_le
  have hle : (s.fileTable i).size + 1 + overhead ≤ readCost := by
    unfold readCost
    omega
  have hheap : readCost ≤ heapSize := by decide
  exact hI.succeeds_of_spare (Nat.succ_pos _) (Nat.le_trans hle hheap) (hs.mono hle)

/-- Reading a file gives back what it takes of the memory, but perhaps not at its end. -/
theorem nanoRead_spare {junk : Mem} {ls ls' : Lines} {m : Int} (hI : Inv tight s others)
    (hk : readCost + k ≤ heapSize) (hs : Spare s.heap (readCost + k))
    (hcall : nanoRead junk filename ls s = some (m, ls', s')) : Spare s'.heap k := by
  rcases nanoRead_cases hI hcall with rfl | ⟨file, ptr, heap₁, hsize, hk₁, hcases⟩
  · exact hs.mono (Nat.le_add_left _ _)
  have hle : fsGetSize s file + 1 + overhead + k ≤ readCost + k := by
    unfold readCost
    omega
  obtain ⟨hptr, hs₁⟩ := hI.spare_kmalloc (Nat.succ_pos _) (Nat.le_trans hle hk) (hs.mono hle) hk₁
  have hreq : fsGetSize s file + 1 ≤ maxRequest := Nat.le_trans (Nat.succ_le_succ hsize) (by decide)
  obtain ⟨ptr', heap', hk', hI₁, _⟩ := hI.kmalloc hreq
  cases hk'.symm.trans hk₁
  rcases hcases with ⟨hnull, _⟩ | ⟨_, heap₂, hfree, rfl⟩
  · exact absurd hnull hptr
  · rw [Live.grant_of_ne hptr] at hI₁
    exact hI₁.spare_kfree (by rw [update_self]; rfl) hfree hs₁

theorem nanoOpen_spare {junk : Mem} {b : NanoBlocks} {e : Nano} (hI : Inv tight s others)
    (hk : readCost + k ≤ heapSize) (hs : Spare s.heap (readCost + k))
    (hcall : nanoOpen junk filename b s = some (e, s')) : Spare s'.heap k := by
  obtain ⟨⟨m, ls, s₁⟩, hread, heq⟩ := Option.bind_eq_some_iff.mp hcall
  cases heq
  exact nanoRead_spare hI hk hs hread

/-- What saving takes, at most. -/
def saveCost : Nat :=
  nanoMaxLines * nanoLineLen + 1 + overhead + (nanoMaxLines * nanoLineLen + overhead)

theorem saveSucceeds_of_spare (hI : Inv tight s others) (hc : c.length ≤ nanoMaxLines * nanoLineLen)
    (hs : Spare s.heap saveCost) : SaveSucceeds s n c := by
  have hle : c.length + 1 + overhead + (c.length + overhead) ≤ saveCost := by
    unfold saveCost
    omega
  have hheap : saveCost ≤ heapSize := by decide
  have hmax : c.length + 1 ≤ maxRequest := by
    have hbig : nanoMaxLines * nanoLineLen + 1 ≤ maxRequest := by decide
    omega
  replace hs := hs.mono hle
  have hk := Nat.le_trans hle hheap
  obtain ⟨ptr, heap, hcall, hI₁, _⟩ := hI.kmalloc hmax
  obtain ⟨hptr, hs₁⟩ := hI.spare_kmalloc (Nat.succ_pos _) hk hs hcall
  refine ⟨ptr, heap, hcall, hptr, fun i _ hne ↦ ?_⟩
  obtain ⟨heap', live, bs, hfree, hw, hs₂⟩ := hI₁.spare_freeData (i := i) hs₁
  have hk' : c.length + overhead ≤ heapSize := Nat.le_trans (Nat.le_add_left _ _) hk
  exact ⟨heap', hfree, hw.succeeds_of_spare (Nat.le_of_succ_le hmax)
    (List.length_pos_of_ne_nil hne) hs₂ hk'⟩

/-- **Ctrl+S** takes what the text takes, and what the file takes. -/
theorem nanoSave_spare {texts : List (List UInt8)} {e e' : Nano} {junk : Mem} {i : Slot}
    (hI : Inv tight s others) (hn : Holds filename n) (hslot : slotOf s n = some i)
    (hcount : e.numLines.toNat = texts.length) (hlines : LinesFrom e.lines 0 texts)
    (hpos : 0 < (unlines texts).length)
    (hsize : (unlines texts).length ≤ nanoMaxLines * nanoLineLen)
    (hk : saveCost + k ≤ heapSize) (hs : Spare s.heap (saveCost + k))
    (hcall : nanoSave junk filename e s = some (e', s')) : Spare s'.heap k := by
  have hle : (unlines texts).length + 1 + overhead + ((unlines texts).length + overhead + k) ≤
      saveCost + k := by
    unfold saveCost
    omega
  have hbig : nanoMaxLines * nanoLineLen ≤ fsMaxFilesize ∧ fsMaxFilesize + 1 ≤ maxRequest := by
    decide
  have hfile : (unlines texts).length ≤ fsMaxFilesize := Nat.le_trans hsize hbig.1
  replace hs := hs.mono hle
  replace hk := Nat.le_trans hle hk
  obtain ⟨ptr, heap, hk₁, _, hsave⟩ := nanoSave_eq hI junk filename hcount hlines hsize
  obtain ⟨hptr, hs₁⟩ := hI.spare_kmalloc (Nat.succ_pos _) hk hs hk₁
  obtain ⟨ptr', heap', hk₁', hI₁, _⟩ := hI.kmalloc
    (Nat.le_trans (Nat.add_le_add_right hfile 1) hbig.2)
  cases hk₁'.symm.trans hk₁
  rw [Live.grant_of_ne hptr] at hI₁
  obtain ⟨content, hc, hsave⟩ := hsave hptr
  have hopen : fsOpen { s with heap := heap } filename = some (some i) :=
    (hI₁.table.fsFind_eq hn).trans (congrArg some hslot)
  obtain ⟨⟨found, s₂⟩, hwrite, hrest⟩ := Option.bind_eq_some_iff.mp (hsave.symm.trans hcall)
  obtain ⟨heap₂, hfree, heq⟩ := Option.map_eq_some_iff.mp hrest
  cases heq
  have hspare₂ : Spare s₂.heap k := by
    have hstrlen := hc.strlen_eq
    simp only [nanoWrite, hopen, hstrlen, Option.bind_eq_bind, Option.bind_some] at hwrite
    obtain ⟨⟨code, s₃⟩, hfs, heq⟩ := Option.bind_eq_some_iff.mp hwrite
    cases heq
    exact fsWrite_spare hI₁ hpos hfile (Nat.le_of_lt hc.length_lt)
      (Nat.le_trans (Nat.le_add_left _ _) hk) hs₁ hfs
  rcases nanoWrite_spec hI₁ hn hc hfile with ⟨hnone, _⟩ | ⟨_, _, _, hwrite', hI₂, _⟩
  · cases hslot.symm.trans hnone
  · cases hwrite'.symm.trans hwrite
    exact hI₂.spare_kfree (by rw [update_self]; rfl) hfree hspare₂

end KontolOS.Shell
