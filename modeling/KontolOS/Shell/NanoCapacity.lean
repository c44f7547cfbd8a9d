import KontolOS.Fs.Capacity
import KontolOS.Fs.Refinement
import KontolOS.Shell.Balance
import KontolOS.Shell.NanoDraw

/-!
# The editor does not run out of memory

Nothing that the commands allocate is larger than `blockMax` bytes: the pointers of `nano`, its 100
lines, the contents of a file that `nano` has written, and the text that is put together for
Ctrl+S.  So, as long as `Modest` holds with this bound and few blocks are left to others, all
allocations of `nano` and `cat` succeed, and both leave the heap as modest as it was.
-/

namespace KontolOS.Shell

open KontolOS.Lib KontolOS.Memory KontolOS.Strings KontolOS.Drivers KontolOS.Fs Function

/-- The most that the editor puts into a file. -/
def textMax : Nat := nanoMaxLines * nanoLineLen

/-- The most that is allocated at once, with the header and the rest that is not split off. -/
def blockMax : Nat := textMax + 1 + overhead

variable {m k : Nat} {ptrs lines : List Nat} {s s' : Sys} {others : Live} {i : Slot} {e e' : Nano}
  {filename n c : List UInt8} {t : Text UInt8} {d : Directory} {junk : Mem}

/-- Where only the heap is different, the same map is there. -/
theorem refines_of_sameFiles (hR : Refines s d) (h : SameFiles s s') : Refines s' d := by
  have hfile : ∀ j, s'.fileTable j = s.fileTable j := fun j ↦ by rw [h.sys]
  refine ⟨fun n j hj ↦ ?_, fun n hnone ↦ hR.missing n (h.slotOf_eq n.chars ▸ hnone)⟩
  rw [h.slotOf_eq] at hj
  rw [hfile j, h.contents j]
  exact hR.found n j hj

/-! ## Lines -/

/-- **The lines** are all allocated. -/
theorem nanoAlloc_modest (h : Modest m ptrs s others) (hfit : Affords m (ptrs.length + k))
    (hle : nanoLineLen + overhead ≤ m) :
    ∃ lines heap others', nanoAlloc s.heap k = some (lines, heap) ∧ lines.length = k ∧
      (∀ p ∈ lines, p ≠ null) ∧ Modest m (lines ++ ptrs) { s with heap := heap } others' ∧
      SameFiles s { s with heap := heap } := by
  induction k generalizing ptrs s others with
  | zero => exact ⟨[], s.heap, others, rfl, rfl, nofun, h, .refl s⟩
  | succ k ih =>
      obtain ⟨ptr, heap, hk, hptr, h₁, hsame₁⟩ :=
        h.kmalloc (hfit.mono (Nat.le_add_right _ _)) (by decide) hle
      have hfit₁ : Affords m ((ptr :: ptrs).length + k) :=
        hfit.mono (by rw [List.length_cons]; omega)
      obtain ⟨lines, heap', others', hloop, hlen, hne, h', hsame⟩ := ih h₁ hfit₁
      refine ⟨ptr :: lines, heap', others', ?_, by rw [List.length_cons, hlen],
        List.forall_mem_cons.mpr ⟨hptr, hne⟩, h'.perm List.perm_middle, .trans ⟨rfl, hsame₁⟩ hsame⟩
      simp only [nanoAlloc, hk, hloop, Option.bind_eq_bind, Option.bind_some]
      rfl

/-- The lines are freed. -/
theorem nanoFree_modest (h : Modest m (lines ++ ptrs) s others) (hne : ∀ p ∈ lines, p ≠ null) :
    ∃ heap others', nanoFree s.heap lines = some heap ∧
      Modest m ptrs { s with heap := heap } others' ∧ SameFiles s { s with heap := heap } := by
  induction lines generalizing s others with
  | nil => exact ⟨s.heap, others, rfl, h, .refl s⟩
  | cons ptr lines ih =>
      obtain ⟨hptr, hlines⟩ := List.forall_mem_cons.mp hne
      obtain ⟨heap, hk, h₁, hsame₁⟩ := h.kfree
      obtain ⟨heap', others', hloop, h', hsame⟩ := ih h₁ hlines
      refine ⟨heap', others', ?_, h', .trans ⟨rfl, hsame₁⟩ hsame⟩
      simp only [nanoFree, if_neg hptr, hk, Option.bind_eq_bind, Option.bind_some, hloop]

/-! ## The beginning and the end of `cmd_nano` -/

/-- "Create file if it doesn't exist" is the same as creating it: what exists is left alone. -/
theorem nanoCreate_eq (hI : Inv True s others) (hn : Holds filename n) :
    ∃ code s', fsNew fsFlagUsed s (some filename) = some (code, s') ∧
      nanoCreate filename s = some s' := by
  have hfind := hI.table.fsFind_eq hn
  obtain ⟨code, s', hnew, hsame⟩ : ∃ code s', fsNew fsFlagUsed s (some filename) = some (code, s') ∧
      ((slotOf s n).isSome → s' = s) := by
    rcases fsNew_spec hI hn (.inl rfl) with ⟨_, hnew⟩ | ⟨_, _, ⟨_, hnew⟩ | ⟨_, _, hnew⟩ |
      ⟨hnone, j, f, _, hnew, _⟩⟩
    · exact ⟨_, s, hnew, fun _ ↦ rfl⟩
    · exact ⟨_, s, hnew, fun _ ↦ rfl⟩
    · exact ⟨_, s, hnew, fun _ ↦ rfl⟩
    · exact ⟨_, _, hnew, fun hsome ↦ by rw [hnone] at hsome; cases hsome⟩
  refine ⟨code, s', hnew, ?_⟩
  cases hslot : slotOf s n with
  | some j =>
      rw [hsame (by rw [hslot]; rfl)]
      simp [nanoCreate, fsExists, hfind, hslot]
  | none => simp [nanoCreate, fsExists, fsCreate, hfind, hslot, hnew]

/-- **All 101 allocations succeed.** -/
theorem nanoAllocate_modest (h : Modest blockMax ptrs s others) (hn : Holds filename n)
    (hfit : Affords blockMax (ptrs.length + 1 + nanoMaxLines)) :
    ∃ b s' others' code s₁, nanoAllocate filename s = some (some b, s') ∧
      b.ptrs.length = nanoMaxLines ∧ (∀ p ∈ b.ptrs, p ≠ null) ∧
      Modest blockMax (b.ptrs ++ b.table :: ptrs) s' others' ∧
      fsNew fsFlagUsed s (some filename) = some (code, s₁) ∧ SameFiles s₁ s' := by
  obtain ⟨code, s₁, hnew, hcreate⟩ := nanoCreate_eq h.inv hn
  have h₁ := h.fsNew hn (.inl rfl) hnew
  have hpos : 0 < nanoMaxLines * sizeofPtr := by decide
  obtain ⟨table, heap, hk, htable, h₂, hsame₂⟩ := h₁.kmalloc (hfit.mono (by omega)) hpos (by decide)
  have hfit₂ : Affords blockMax ((table :: ptrs).length + nanoMaxLines) := hfit
  obtain ⟨lines, heap', others', halloc, hlen, hne, h₃, hsame₃⟩ :=
    nanoAlloc_modest h₂ hfit₂ (by decide)
  refine ⟨⟨table, lines⟩, { s₁ with heap := heap' }, others', code, s₁, ?_, hlen, hne, h₃, hnew,
    SameFiles.trans ⟨rfl, hsame₂⟩ hsame₃⟩
  simp only [nanoAllocate, hcreate, hk, if_neg htable, halloc, Option.bind_eq_bind,
    Option.bind_some]
  rfl

/-- The end frees them. -/
theorem nanoClose_modest {b : NanoBlocks} (h : Modest m (b.ptrs ++ b.table :: ptrs) s others)
    (hne : ∀ p ∈ b.ptrs, p ≠ null) :
    ∃ s' others', nanoClose b s = some s' ∧ Modest m ptrs s' others' ∧ SameFiles s s' := by
  obtain ⟨heap, others', hloop, h₁, hsame₁⟩ := nanoFree_modest h hne
  obtain ⟨heap', hk, h', hsame⟩ := h₁.kfree
  refine ⟨{ s with heap := heap' }, _, ?_, h', SameFiles.trans hsame₁ ⟨rfl, hsame⟩⟩
  simp only [nanoClose, hloop, hk, Option.bind_eq_bind, Option.bind_some]
  rfl

/-! ## Reading a file -/

theorem succeeds_read (h : Modest blockMax ptrs s others) (hfit : Affords blockMax ptrs.length)
    (hsize : ∀ i, (s.fileTable i).size ≤ textMax) : ReadSucceeds s n := by
  intro i _ hpos
  have hle : (s.fileTable i).size + 1 + overhead ≤ blockMax :=
    Nat.add_le_add_right (Nat.add_le_add_right (hsize i) 1) overhead
  obtain ⟨ptr, heap, hk, hptr, _⟩ := h.kmalloc hfit (Nat.succ_pos _) hle
  exact ⟨ptr, heap, hk, hptr⟩

/-- Reading the file gives the buffer back. -/
theorem small_nanoRead {ls ls' : Lines} {num : Int} (h : Modest blockMax ptrs s others)
    (hfit : Affords blockMax ptrs.length) (hsize : ∀ i, (s.fileTable i).size ≤ textMax)
    (hcall : nanoRead junk filename ls s = some (num, ls', s')) : Small s'.heap blockMax := by
  rcases nanoRead_cases h.inv hcall with rfl | ⟨file, ptr, heap, _, hk, hcases⟩
  · exact h.small
  have hle : fsGetSize s file ≤ textMax := by
    cases file with
    | none => exact Nat.zero_le _
    | some i => exact hsize i
  obtain ⟨ptr', heap', hk', hptr, h₁, _⟩ := h.kmalloc hfit (Nat.succ_pos (fsGetSize s file))
    (Nat.add_le_add_right (Nat.add_le_add_right hle 1) overhead)
  cases hk'.symm.trans hk
  rcases hcases with ⟨hnull, _⟩ | ⟨_, heap'', hfree, rfl⟩
  · exact absurd hnull hptr
  · obtain ⟨_, hfree', h', _⟩ := h₁.kfree
    cases hfree'.symm.trans hfree
    exact h'.small

/-- **Opening the file** shows its contents, on whatever memory. -/
theorem nanoOpen_modest {b : NanoBlocks} (h : Modest blockMax ptrs s others)
    (hfit : Affords blockMax ptrs.length) (hsize : ∀ i, (s.fileTable i).size ≤ textMax)
    (hn : Holds filename n) (hlen : b.ptrs.length = nanoMaxLines) (hne : ∀ p ∈ b.ptrs, p ≠ null)
    (junk : Mem) :
    ∃ e s' text l rest, nanoOpen junk filename b s = some (e, s') ∧
      Modest blockMax ptrs s' others ∧ SameFiles s s' ∧ fileLines text = l :: rest ∧
      Shows e (Text.start l rest) ∧ e.running = true ∧
      ∀ i c, slotOf s n = some i → s.contents i = some c → 0 ∉ c → text = c := by
  obtain ⟨text, e, s', l, rest, hopen, hI, hlines, hS, hrunning, hsame, htext⟩ :=
    nanoOpen_spec h.inv hn junk hlen hne
  obtain ⟨⟨num, ls, s₁⟩, hread, heq⟩ := Option.bind_eq_some_iff.mp hopen
  cases heq
  exact ⟨_, s', text, l, rest, hopen, ⟨hI, small_nanoRead h hfit hsize hread, h.held, h.nodup⟩,
    hsame, hlines, hS, hrunning, fun i c hslot hc h0 ↦
      htext i c hslot hc h0 (succeeds_read h hfit hsize)⟩

/-! ## Ctrl+S -/

/-- What is stored, with the heap changed before and afterwards. -/
theorem Stored.sameFiles {s₁ s₂ : Sys} (h : Stored s₁ s₂ i c) (hbefore : SameFiles s s₁)
    (hafter : SameFiles s₂ s') : Stored s s' i c := by
  have hfile₁ : s₁.fileTable = s.fileTable := by rw [hbefore.sys]
  have hfile₂ : s'.fileTable = s₂.fileTable := by rw [hafter.sys]
  have hcwd₁ : s₁.currentDir = s.currentDir := by rw [hbefore.sys]
  have hcwd₂ : s'.currentDir = s₂.currentDir := by rw [hafter.sys]
  refine ⟨⟨fun j hj ↦ ?_, fun j hj ↦ ?_, ?_⟩, ?_, (hafter.contents i).trans h.contents⟩
  · rw [hfile₂, ← hfile₁]
    exact h.frame.file j hj
  · exact (hafter.contents j).trans ((h.frame.contents j hj).trans (hbefore.contents j))
  · rw [hcwd₂, ← hcwd₁]
    exact h.frame.cwd
  · rw [hfile₂, ← hfile₁]
    exact h.file

/-- **Ctrl+S does not fail**: the text is stored in the file, if there is one, and the mark is
cleared then. -/
theorem nanoSave_modest (h : Modest blockMax ptrs s others)
    (hfit : Affords blockMax (ptrs.length + 1)) (hn : Holds filename n) (hS : Shows e t)
    (junk : Mem) :
    ∃ e' s' others', nanoSave junk filename e s = some (e', s') ∧ Shows e' t ∧
      e'.running = e.running ∧ Modest blockMax ptrs s' others' ∧
      (slotOf s n = none ∧ SameFiles s s' ∧ e'.modified = e.modified ∨
        ∃ i, slotOf s n = some i ∧ Stored s s' i (unlines t.lines) ∧ e'.modified = false) := by
  have hlen : (unlines t.lines).length ≤ textMax :=
    length_unlines_le hS.height_le fun l hl ↦ lt_lineLen (hS.fits.width_le l hl)
  have hle : (unlines t.lines).length + 1 + overhead ≤ blockMax :=
    Nat.add_le_add_right (Nat.add_le_add_right hlen 1) overhead
  have hbig : textMax ≤ fsMaxFilesize := by decide
  obtain ⟨ptr, heap, hk, _, hsave⟩ := nanoSave_eq h.inv junk filename
    (by rw [hS.numLines, Int.toNat_natCast]) hS.linesFrom hlen
  obtain ⟨ptr', heap', hk', hptr, h₁, hsame₁⟩ :=
    h.kmalloc (hfit.mono (Nat.le_succ _)) (Nat.succ_pos (unlines t.lines).length) hle
  cases hk.symm.trans hk'
  obtain ⟨content, hc, hsave⟩ := hsave hptr
  have hopen : fsOpen { s with heap := heap } filename = some (slotOf s n) :=
    h₁.inv.table.fsFind_eq hn
  have hshows : ∀ modified, Shows { e with modified := modified } t := fun _ ↦
    ⟨hS.numLines, hS.curLine, hS.curCol, hS.height_le, hS.lines⟩
  cases hslot : slotOf s n with
  | none =>
      have hwrite : nanoWrite filename content { s with heap := heap } =
          some (false, { s with heap := heap }) := by
        rw [nanoWrite, hopen, hslot]
        rfl
      obtain ⟨heap₂, hfree, h₂, hsame₂⟩ := h₁.kfree
      refine ⟨{ e with modified := e.modified }, { s with heap := heap₂ }, _, ?_, hshows _, rfl, h₂,
        .inl ⟨rfl, SameFiles.trans ⟨rfl, hsame₁⟩ ⟨rfl, hsame₂⟩, rfl⟩⟩
      simp only [hsave, hwrite, Option.bind_some, hfree, Option.map_some]
      rfl
  | some i =>
      have hu : (s.fileTable i).used = true := (h.inv.table.slotOf_eq_some_iff.mp hslot).1
      obtain ⟨s₂, hfs, h₂, hstored⟩ := h₁.fsWrite (i := i) hfit hu (Nat.le_of_lt hc.length_lt)
        (Nat.le_trans (Nat.add_le_add_right (Nat.le_succ _) _) hle) (Nat.le_trans hlen hbig)
      have htake : content.take (unlines t.lines).length = unlines t.lines := by
        obtain ⟨_, rest, rfl⟩ := hc
        exact List.take_left
      rw [htake] at hstored
      have hwrite : nanoWrite filename content { s with heap := heap } = some (true, s₂) := by
        simp only [nanoWrite, hopen, hslot, hc.strlen_eq, hfs, Option.bind_eq_bind,
          Option.bind_some]
        rfl
      obtain ⟨heap₂, hfree, h₃, hsame₃⟩ := h₂.kfree
      refine ⟨{ e with modified := false }, { s₂ with heap := heap₂ }, _, ?_, hshows _, rfl, h₃,
        .inr ⟨i, rfl, Stored.sameFiles hstored ⟨rfl, hsame₁⟩ ⟨rfl, hsame₃⟩, rfl⟩⟩
      simp only [hsave, hwrite, Option.bind_some, hfree, Option.map_some]
      rfl

/-! ## `cat` -/

/-- What `cat` prints of a file. -/
def catText (c : List UInt8) : List UInt8 :=
  if c = [] then chars "(empty file)\n" else c ++ (if c.getLast? = some 0x0A then [] else [0x0A])

/-- A file is read into a buffer of one byte more, and the byte is then the terminator. -/
theorem read_terminated {tight : Prop} {dest : List UInt8} (hI : Inv tight s others)
    (hc : s.contents i = some c) (hdest : dest.length = c.length + 1) :
    ∃ b, fsRead s (some i) (some dest) c.length 0 = some ((c.length : Int), some (c ++ [b])) ∧
      store (c ++ [b]) c.length 0 = some (c ++ [0]) := by
  have hroom : c.length ≤ dest.length := by
    rw [hdest]
    exact Nat.le_succ _
  have hread := @fsRead_spec _ _ _ _ _ _ _ 0 hI hc hroom
  rw [Nat.sub_zero, Nat.min_self, List.drop_zero, List.take_length] at hread
  have hrest : (dest.drop c.length).length = 1 := by
    rw [List.length_drop, hdest, Nat.add_sub_cancel_left]
  obtain ⟨b, hb⟩ := List.length_eq_one_iff.mp hrest
  rw [hb] at hread
  refine ⟨b, hread, ?_⟩
  rw [store_eq (by rw [List.length_append]; exact Nat.lt_succ_self _), List.set_append_right _ _
    (Nat.le_refl _), Nat.sub_self]
  rfl

/-- The file is printed, and the line is ended if the file does not do so. -/
theorem prints_catText {last : UInt8} (h0 : 0 ∉ c) (hne : c ≠ []) (hlast : c.getLast? = some last) :
    Prints (.print (c ++ [0]) :: if last ≠ 0x0A then [.print (literal "\n")] else [])
      (catText c) := by
  rw [catText, if_neg hne, hlast]
  refine .print ⟨h0, [], rfl⟩ ?_
  by_cases hnl : last = 0x0A
  · rw [hnl]
    exact .nil
  · rw [if_pos hnl, if_neg fun heq ↦ hnl (Option.some.inj heq)]
    exact Prints.nil.literal "\n"

/-- **`cat` prints the file.** -/
theorem cmdCat_modest (h : Modest blockMax ptrs s others) (hfit : Affords blockMax ptrs.length)
    (hn : Holds filename n) (hslot : slotOf s n = some i) (hc : s.contents i = some c) (h0 : 0 ∉ c)
    (hlen : c.length ≤ textMax) (junk : Mem) (arg : List UInt8) (args : List (List UInt8)) :
    ∃ calls s' others', cmdCat junk (arg :: filename :: args) s = some (calls, s') ∧
      Prints calls (catText c) ∧ Modest blockMax ptrs s' others' ∧ SameFiles s s' := by
  have hopen : fsOpen s filename = some (some i) :=
    (h.inv.table.fsFind_eq hn).trans (by rw [hslot])
  have hsize : (s.fileTable i).size = c.length := (length_of_contents hc).symm
  have hget : fsGetSize s (some i) = c.length := hsize
  by_cases hnil : c = []
  · have hzero : fsGetSize s (some i) = 0 := by rw [hget, hnil, List.length_nil]
    refine ⟨[.setColor 8 0, .print (literal "(empty file)\n"), .setColor 15 0], s, others, ?_, ?_,
      h, .refl s⟩
    · simp only [cmdCat, hopen, hzero, Option.bind_eq_bind, Option.bind_some, reduceCtorEq,
        if_false, if_true]
      rfl
    · rw [catText, if_pos hnil]
      have hprints := ((Prints.nil.color 15 0).literal "(empty file)\n").color 8 0
      rwa [List.append_nil] at hprints
  have hpos : c.length ≠ 0 := fun hzero ↦ hnil (List.length_eq_zero_iff.mp hzero)
  have hadd : add32 c.length 1 = c.length + 1 :=
    add32_of_lt (Nat.lt_of_le_of_lt (Nat.succ_le_succ hlen) (by decide))
  obtain ⟨ptr, heap, hk, hptr, h₁, hsame₁⟩ := h.kmalloc hfit (Nat.succ_pos c.length)
    (Nat.add_le_add_right (Nat.add_le_add_right hlen 1) overhead)
  have hc₁ : Sys.contents { s with heap := heap } i = some c := (hsame₁ i).trans hc
  obtain ⟨b, hread, hstore⟩ := read_terminated h₁.inv hc₁
    (show (junk.bytes ptr (c.length + 1)).length = c.length + 1 from Mem.length_bytes _ _ _)
  obtain ⟨last, hlast⟩ : ∃ last, c.getLast? = some last :=
    Option.ne_none_iff_exists'.mp fun hnone ↦ hnil (List.getLast?_eq_none_iff.mp hnone)
  have hat : (c ++ [0])[c.length - 1]? = some last := by
    rw [List.getElem?_append_left (by omega), ← List.getLast?_eq_getElem?]
    exact hlast
  obtain ⟨heap', hfree, h', hsame'⟩ := h₁.kfree
  refine ⟨.print (c ++ [0]) :: (if last ≠ 0x0A then [.print (literal "\n")] else []),
    { s with heap := heap' }, _, ?_, ?_, h', SameFiles.trans ⟨rfl, hsame₁⟩ ⟨rfl, hsame'⟩⟩
  · simp only [cmdCat, hopen, hget, hpos, hadd, hk, hptr, hread, hstore, hat, hfree,
      Option.bind_eq_bind, Option.bind_some, reduceCtorEq, if_false]
    rfl
  · exact prints_catText h0 hnil hlast

end KontolOS.Shell
