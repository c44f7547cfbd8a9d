import KontolOS.Memory.Complete
import KontolOS.Shell.NanoSpare

/-!
# The mark for unsaved changes

Ctrl+S clears `modified` once it has found the file, without a look at what `fs_write` returns.
When the heap has no room for the data of the file after the text has been put together,
`fs_write` has given up the old data already, and the mark is cleared all the same.
`save_modified_iff` says that a cleared mark is wrong in this case (`SaveLoses`), and right in
all others.
-/

namespace KontolOS.Shell

open KontolOS.Lib KontolOS.Memory KontolOS.Strings KontolOS.Fs Function

variable {tight : Prop} {s s' : Sys} {others : Live} {ls : Lines} {filename n c : List UInt8}
  {i k : Nat} {e e' : Nano} {junk : Mem}

/-! ## Lines, as they are read -/

/-- `NANO_MAX_LINES` lines, each of `NANO_LINE_LEN` bytes or not allocated. -/
structure LinesShape (ls : Lines) : Prop where
  /-- the number of lines -/
  length : ls.length = nanoMaxLines
  /-- the length of those that are allocated -/
  line : ∀ buf, some buf ∈ ls → buf.length = nanoLineLen

/-- The string in line `i`. -/
def lineText (ls : Lines) (i : Nat) : List UInt8 := cstr ((lineAt ls i).getD [])

/-- The lines of an editor. -/
def Nano.text (e : Nano) : List (List UInt8) :=
  (List.range' 0 e.numLines.toNat).map (lineText e.lines)

theorem LinesShape.of_lineAt (h : LinesShape ls) {buf : List UInt8}
    (hat : lineAt ls i = some buf) : i < nanoMaxLines ∧ buf.length = nanoLineLen := by
  rw [lineAt, if_pos (Int.natCast_nonneg i), Int.toNat_natCast, Option.join_eq_some_iff] at hat
  refine ⟨?_, h.line buf (List.mem_of_getElem? hat)⟩
  rw [← h.length]
  exact (List.getElem?_eq_some_iff.mp hat).1

/-- A line that is read holds a string. -/
theorem holds_lineText {buf : List UInt8} {len : Nat} (hat : lineAt ls i = some buf)
    (hlen : strlen buf = some len) : Holds buf (lineText ls i) := by
  rw [lineText, hat]
  exact Holds.of_strlen hlen

/-- Lines whose lengths are added up can all be read. -/
theorem linesFrom_of_nanoTotal {total r : Nat} (h : nanoTotal ls total i k = some r) :
    LinesFrom ls i ((List.range' i k).map (lineText ls)) := by
  induction k generalizing i total with
  | zero => exact fun _ _ hk ↦ nomatch hk
  | succ k ih =>
      simp only [nanoTotal, Option.bind_eq_bind, Option.bind_eq_some_iff] at h
      obtain ⟨buf, hat, len, hlen, hrest⟩ := h
      intro j t hj
      cases j with
      | zero =>
          obtain rfl : lineText ls i = t := Option.some.inj hj
          exact ⟨buf, hat, holds_lineText hat hlen⟩
      | succ j =>
          obtain ⟨buf', hat', hb'⟩ := ih hrest j t hj
          refine ⟨buf', ?_, hb'⟩
          have hnext : i + (j + 1) = i + 1 + j := by omega
          rwa [hnext]

/-- The lines that are read have the lengths and the number of lines. -/
theorem LinesShape.length_unlines_le (h : LinesShape ls)
    (hfrom : LinesFrom ls 0 ((List.range' 0 k).map (lineText ls))) :
    (unlines ((List.range' 0 k).map (lineText ls))).length ≤ nanoMaxLines * nanoLineLen := by
  have hread : ∀ j < k, ∃ buf, lineAt ls j = some buf ∧ Holds buf (lineText ls j) := by
    intro j hj
    have hget : ((List.range' 0 k).map (lineText ls))[j]? = some (lineText ls j) := by
      rw [List.getElem?_map, List.getElem?_range' hj, Option.map_some, Nat.one_mul, Nat.zero_add]
    obtain ⟨buf, hat, hb⟩ := hfrom j _ hget
    rw [Nat.zero_add] at hat
    exact ⟨buf, hat, hb⟩
  refine Shell.length_unlines_le ?_ ?_
  · rw [List.length_map, List.length_range']
    cases k with
    | zero => exact Nat.zero_le _
    | succ k =>
        obtain ⟨_, hat, _⟩ := hread k (Nat.lt_succ_self k)
        exact (h.of_lineAt hat).1
  · intro l hl
    obtain ⟨j, hj, rfl⟩ := List.mem_map.mp hl
    have hlt : j < k := by simpa using (List.mem_range'_1.mp hj).2
    obtain ⟨buf, hat, hb⟩ := hread j hlt
    rw [← (h.of_lineAt hat).2]
    exact hb.length_lt

/-! ## When the text is lost -/

/-- The file `n` exists, and the heap has a range for the text `c`, but beside the bytes that are
taken for it there is no room for the new data of the file, not even where the old data is. -/
def SaveLoses (s : Sys) (n c : List UInt8) : Prop :=
  ∃ i lo hi, slotOf s n = some i ∧ c ≠ [] ∧ TakenFor s.heap (totalSize (c.length + 1)) lo hi ∧
    ¬ RoomBeside s.heap (s.fileTable i).data lo hi (totalSize c.length)

/-- The same, in terms of the heap after the text has been put together. -/
theorem saveLoses_iff (hI : Inv tight s others) (hmax : c.length + 1 ≤ maxRequest) :
    SaveLoses s n c ↔ ∃ ptr heap i, kmalloc s.heap (c.length + 1) = some (ptr, heap) ∧
      ptr ≠ null ∧ slotOf s n = some i ∧ c ≠ [] ∧
      ¬ Room heap (s.fileTable i).data (totalSize c.length) := by
  obtain ⟨live, bs, hheld, _⟩ := hI.heap
  have hiff : ∀ i : Slot,
      (∃ ptr heap, kmalloc s.heap (c.length + 1) = some (ptr, heap) ∧ ptr ≠ null ∧
        ¬ Room heap (s.fileTable i).data (totalSize c.length)) ↔
      ∃ lo hi, TakenFor s.heap (totalSize (c.length + 1)) lo hi ∧
        ¬ RoomBeside s.heap (s.fileTable i).data lo hi (totalSize c.length) := fun i ↦ by
    refine hheld.owned.kmalloc_not_room_iff (Nat.succ_pos _) hmax ?_
    by_cases hd : (s.fileTable i).data = null
    · exact .inl hd
    · exact .inr (hheld.data_isSome hd)
  constructor
  · rintro ⟨i, lo, hi, hslot, hne, htaken, hno⟩
    obtain ⟨ptr, heap, hk, hptr, hroom⟩ := (hiff i).mpr ⟨lo, hi, htaken, hno⟩
    exact ⟨ptr, heap, i, hk, hptr, hslot, hne, hroom⟩
  · rintro ⟨ptr, heap, i, hk, hptr, hslot, hne, hroom⟩
    obtain ⟨lo, hi, htaken, hno⟩ := (hiff i).mp ⟨ptr, heap, hk, hptr, hroom⟩
    exact ⟨i, lo, hi, hslot, hne, htaken, hno⟩

/-- **What a cleared mark says**, by what came of the save. -/
theorem SaveResult.stored_iff (h : SaveResult s n c e e' s') (hI : Inv tight s others)
    (hI' : Inv tight s' others) (hmax : c.length + 1 ≤ maxRequest) :
    (e.modified = true → e'.modified = false →
      ∃ i, slotOf s' n = some i ∧ s'.contents i = some c) ↔
      ¬ (e.modified = true ∧ SaveLoses s n c) := by
  rw [saveLoses_iff hI hmax]
  have hkept : ∀ {i : Slot}, s'.contents i ≠ some c → slotOf s' n = some i →
      ¬ ∃ i, slotOf s' n = some i ∧ s'.contents i = some c := by
    rintro i hne hslot ⟨j, hj, hc⟩
    cases hslot.symm.trans hj
    exact hne hc
  cases h with
  | noBuffer hk he =>
      refine iff_of_true (fun hm hm' ↦ ?_) ?_
      · rw [he, hm] at hm'
        cases hm'
      · rintro ⟨_, ptr, heap, i, hk', hptr, _⟩
        cases hk.symm.trans hk'
        exact hptr rfl
  | noFile hslot he =>
      refine iff_of_true (fun hm hm' ↦ ?_) ?_
      · rw [he, hm] at hm'
        cases hm'
      · rintro ⟨_, ptr, heap, i, _, _, hslot', _⟩
        cases hslot.symm.trans hslot'
  | stored hk _ hslot hroom _ hstored =>
      refine iff_of_true (fun _ _ ↦ ?_) ?_
      · obtain ⟨data, hfile⟩ := hstored.file
        exact ⟨_, slotOf_of_data hI hI' hslot hfile, hstored.contents⟩
      · rintro ⟨_, ptr, heap, i, hk', _, hslot', hne, hno⟩
        cases hk.symm.trans hk'
        cases hslot.symm.trans hslot'
        exact hno (hroom.resolve_left hne)
  | @lost i ptr heap hk hptr hslot hne hroom he hframe hfile =>
      have hslot' : slotOf s' n = some i := slotOf_of_data hI hI' hslot hfile
      have hcontents : s'.contents i ≠ some c := by
        intro hc
        have hlen := length_of_contents hc
        have hsize := contents_isSome_iff.mp (by rw [hc]; rfl) (by rw [hfile])
        rw [hsize, List.length_eq_zero_iff] at hlen
        exact hne hlen
      have hm' : e'.modified = false := by rw [he]
      constructor
      · rintro h ⟨hm, _⟩
        exact hkept hcontents hslot' (h hm hm')
      · intro h hm _
        exact absurd ⟨hm, _, _, _, hk, hptr, hslot, hne, hroom⟩ h

/-- A line of six characters. -/
def six : List UInt8 := [0x61, 0x62, 0x63, 0x64, 0x65, 0x66]

/-- Lines that all hold these characters. -/
def sixLines : Lines := List.replicate nanoMaxLines (some (six ++ List.replicate 74 0))

/-- An editor with these characters in its only line, not saved yet. -/
def sixEditor : Nano := ⟨sixLines, 1, 0, 0, true, true⟩

theorem linesShape_sixLines : LinesShape sixLines := by
  refine ⟨List.length_replicate, fun buf hbuf ↦ ?_⟩
  rw [Option.some.inj (List.eq_of_mem_replicate hbuf)]
  rfl

theorem linesFrom_sixLines : LinesFrom sixLines 0 [six] := by
  intro k t hk
  cases k with
  | zero => exact ⟨_, rfl, Option.some.inj hk ▸ ⟨by decide, List.replicate 73 0, rfl⟩⟩
  | succ k => cases hk

/-- **When a cleared mark is right.**  After any use of the filesystem and the heap, and whatever
the editor holds: that Ctrl+S clears `modified` only if the file exists and contains the lines
is the case exactly if it does not lose the text of an editor with unsaved changes. -/
theorem save_modified_iff {w₀ w : World} {acts : List (Act (Option Slot))} (hb : Booted w₀)
    (hr : Run WorldStep w₀ acts w) (hn : Holds filename n) (hshape : LinesShape e.lines)
    (hsave : nanoHandle junk filename 19 e w.sys = some (e', s')) :
    (e.modified = true → e'.modified = false →
      ∃ i, slotOf s' n = some i ∧ s'.contents i = some (unlines e.text)) ↔
      ¬ (e.modified = true ∧ SaveLoses w.sys n (unlines e.text)) := by
  have hI := Inv.run hb.inv.1 hr
  have hsave' : nanoSave junk filename e w.sys = some (e', s') := hsave
  obtain ⟨total, htotal, _⟩ := Option.bind_eq_some_iff.mp hsave'
  have hfrom : LinesFrom e.lines 0 e.text := linesFrom_of_nanoTotal htotal
  have hcount : e.numLines.toNat = e.text.length := by
    rw [Nano.text, List.length_map, List.length_range']
  obtain ⟨e₁, s₁, hsave₁, hI', hresult⟩ := nanoSave_spec hI hn junk hcount hfrom
    (hshape.length_unlines_le hfrom)
  cases hsave₁.symm.trans hsave'
  have hlen := hshape.length_unlines_le hfrom
  have hbig : nanoMaxLines * nanoLineLen + 1 ≤ maxRequest := by decide
  exact hresult.stored_iff hI hI' (Nat.le_trans (Nat.succ_le_succ hlen) hbig)

/-- A file of one character is there, and memory for the six that are saved to it. -/
theorem save_modified_iff_six : ∃ w i e' s',
    Run WorldStep (bootWorld (Clients.init fun _ ↦ 0))
      [.fs false (.create (some [0x61, 0])) (.ofCode 0),
        .fs false (.write (some i) (some [0x78]) 1) (.ofCode 1)] w ∧
    w.sys.contents i = some [0x78] ∧
    nanoHandle (fun _ ↦ 0) [0x61, 0] 19 sixEditor w.sys = some (e', s') ∧
    sixEditor.modified = true ∧ e'.modified = false ∧
    (∃ i, slotOf s' [0x61] = some i ∧ s'.contents i = some (unlines [six])) ∧
    ¬ SaveLoses w.sys [0x61] (unlines [six]) := by
  obtain ⟨w, i, hr, hslot, hc, hs⟩ := exists_file (List.cons_ne_nil 0x78 []) (by decide)
  have hb := booted_bootWorld (w := Clients.init fun _ ↦ 0) ⟨_, [], .nil _⟩
  have hn : Holds [0x61, 0] [0x61] := ⟨by decide, [], rfl⟩
  have hI := Inv.run hb.inv.1 hr
  have hsucc : SaveSucceeds w.sys [0x61] (unlines [six]) :=
    saveSucceeds_of_spare hI (by decide) (hs.mono (by decide))
  obtain ⟨e', s', hsave, hI', hresult⟩ := nanoSave_spec hI hn (fun _ ↦ 0)
    (e := sixEditor) rfl linesFrom_sixLines (by decide)
  obtain ⟨rfl, hstored⟩ := hresult.of_succeeds hI hsucc hslot (by decide)
  obtain ⟨data, hfile⟩ := hstored.file
  have hsaved : ∃ i, slotOf s' [0x61] = some i ∧ s'.contents i = some (unlines [six]) :=
    ⟨i, slotOf_of_data hI hI' hslot hfile, hstored.contents⟩
  have hiff := save_modified_iff hb hr hn linesShape_sixLines hsave
  exact ⟨w, i, _, s', hr, hc, hsave, rfl, rfl, hsaved,
    fun hloses ↦ hiff.mp (fun _ _ ↦ hsaved) ⟨rfl, hloses⟩⟩

/-! ## A save that loses the text -/

/-- With room for 20 bytes in the heap there is room for the text of one line of six characters,
but then not for the file. -/
theorem exists_saveLoses : ∃ w₀ w, Booted w₀ ∧
    Run WorldStep w₀ [.fs false (.create (some [0x61, 0])) (.ofCode 0)] w ∧
    SaveLoses w.sys [0x61] (unlines [six]) := by
  obtain ⟨v, hreach, ⟨o, ho, hreq⟩, hroom⟩ := nearly_full
  have hb := booted_bootWorld hreach
  have hn : Holds [0x61, 0] [0x61] := ⟨by decide, [], rfl⟩
  obtain ⟨i, f, hstep, hI, hname, hdata, _, hu, _⟩ :=
    hb.create hn (by decide) (by decide) (.inl ⟨rfl, rfl⟩)
  rw [← TableOk.setFile_same (i := i) (f := f)] at hname
  have hslot := hI.table.slotOf_eq_some_iff.mpr ⟨hu, hname⟩
  obtain ⟨ptr, heap, hk, hI', _, hnone⟩ := hI.kmalloc (show 8 ≤ maxRequest by decide)
  have hptr : ptr ≠ null := by
    obtain ⟨live, bs, hs, _⟩ := hI.heap
    exact hs.owned.kmalloc_ne_null (by decide) (by decide) hroom hk
  refine ⟨_, _, hb, .single hstep,
    (saveLoses_iff hI (by decide)).mpr ⟨ptr, heap, i, hk, hptr, hslot, by decide, ?_⟩⟩
  rw [Live.grant_of_ne hptr] at hI'
  obtain ⟨live, bs, hs, _⟩ := hI'.heap
  have hne : heapStart + sizeofBlock ≠ ptr := by
    rintro rfl
    cases (hnone hptr).symm.trans ho
  have hfirst := hs.others_le (heapStart + sizeofBlock) o (by rw [update_of_ne hne]; exact ho)
  have hsecond := hs.others_le ptr (Obj.fresh 8) (update_self _ _ _)
  rw [TableOk.setFile_same, hdata]
  refine hs.owned.not_room_pair hfirst hsecond hne.symm (by decide) hptr (by decide) ?_
  rw [hreq]
  decide

/-- Ctrl+S clears the mark of an editor with six characters in it, and the file it is for is
there, but it does not contain them. -/
theorem save_loses_six : ∃ w₀ w e e' s', Booted w₀ ∧
    Run WorldStep w₀ [.fs false (.create (some [0x61, 0])) (.ofCode 0)] w ∧
    LinesShape e.lines ∧ e.text = [six] ∧
    nanoHandle (fun _ ↦ 0) [0x61, 0] 19 e w.sys = some (e', s') ∧
    ¬ (e.modified = true → e'.modified = false →
      ∃ i, slotOf s' [0x61] = some i ∧ s'.contents i = some (unlines e.text)) := by
  obtain ⟨w₀, w, hb, hr, hloses⟩ := exists_saveLoses
  have hn : Holds [0x61, 0] [0x61] := ⟨by decide, [], rfl⟩
  have hI := Inv.run hb.inv.1 hr
  obtain ⟨e', s', hsave, hI', hresult⟩ := nanoSave_spec hI hn (fun _ ↦ 0)
    (e := sixEditor) rfl linesFrom_sixLines (by decide)
  refine ⟨w₀, w, _, e', s', hb, hr, linesShape_sixLines, rfl, hsave, fun h ↦ ?_⟩
  exact (hresult.stored_iff hI hI' (by decide)).mp h ⟨rfl, hloses⟩

end KontolOS.Shell
