import KontolOS.Fs.Spare
import KontolOS.Lib.Split
import KontolOS.Shell.NanoText

/-!
# Saving

Ctrl+S puts the lines together, each followed by a newline, and writes them to the file.  It
needs memory twice, for this text and for the data of the file, and it needs a file to write to
(`SaveResult`).  The text that is edited is not changed, and whatever happens the filesystem
keeps its invariant, and the other clients of the heap what they hold.
-/

namespace KontolOS.Shell

open KontolOS.Lib KontolOS.Memory KontolOS.Strings KontolOS.Fs Function

variable {tight : Prop} {s s' : Sys} {others : Live} {ls : Lines} {filename n c : List UInt8}
  {texts : List (List UInt8)} {t : List UInt8} {i k : Nat} {e e' : Nano}

/-! ## Putting the lines together -/

/-- Lines as they are stored: each followed by a newline. -/
def unlines (ls : List (List UInt8)) : List UInt8 := ls.flatMap (· ++ [0x0A])

theorem unlines_eq (ls : List (List UInt8)) : unlines ls = joinLines 0x0A ls := rfl

theorem newline_holds : Holds newline [0x0A] := ⟨by decide, [], rfl⟩

/-- The lines hold these strings, from line `i` on. -/
def LinesFrom (ls : Lines) (i : Nat) (texts : List (List UInt8)) : Prop :=
  ∀ k t, texts[k]? = some t → ∃ buf, lineAt ls ((i + k : Nat) : Int) = some buf ∧ Holds buf t

theorem LinesFrom.head (h : LinesFrom ls i (t :: texts)) :
    ∃ buf, lineAt ls i = some buf ∧ Holds buf t := h 0 t rfl

theorem LinesFrom.tail (h : LinesFrom ls i (t :: texts)) : LinesFrom ls (i + 1) texts := by
  intro k u hk
  have hline := h (k + 1) u hk
  have hnext : i + (k + 1) = i + 1 + k := by omega
  rwa [hnext] at hline

/-- The loop that adds up the lengths of the lines. -/
theorem LinesFrom.nanoTotal_eq (h : LinesFrom ls i texts)
    (htotal : k + (unlines texts).length < 2 ^ 32) :
    nanoTotal ls k i texts.length = some (k + (unlines texts).length) := by
  induction texts generalizing i k with
  | nil => rfl
  | cons t texts ih =>
      obtain ⟨buf, hat, hb⟩ := h.head
      have hlen : (unlines (t :: texts)).length = (t.length + 1) + (unlines texts).length := by
        rw [unlines_eq, joinLines_cons, List.length_append, List.length_cons, ← unlines_eq]
        omega
      rw [hlen, ← Nat.add_assoc] at htotal ⊢
      have hadd : add32 k (add32 t.length 1) = k + (t.length + 1) := by
        have hone : t.length + 1 < 2 ^ 32 := by omega
        rw [add32_of_lt hone, add32_of_lt (by omega)]
      simp only [List.length_cons, nanoTotal, hat, Option.bind_eq_bind, Option.bind_some,
        hb.strlen_eq, hadd]
      exact ih h.tail htotal

/-- The loop that puts the lines together. -/
theorem LinesFrom.nanoConcat_eq (h : LinesFrom ls i texts) {content acc : List UInt8}
    (hc : Holds content acc) (hroom : acc.length + (unlines texts).length < content.length) :
    ∃ content', nanoConcat ls content i texts.length = some content' ∧
      Holds content' (acc ++ unlines texts) := by
  induction texts generalizing i content acc with
  | nil => exact ⟨content, rfl, by rwa [unlines, List.flatMap_nil, List.append_nil]⟩
  | cons t texts ih =>
      obtain ⟨buf, hat, hb⟩ := h.head
      have hsplit : acc ++ unlines (t :: texts) = acc ++ t ++ [0x0A] ++ unlines texts := by
        rw [unlines_eq, joinLines_cons, ← unlines_eq, ← List.append_cons, List.append_assoc acc]
      have hlen : acc.length + t.length + 1 + (unlines texts).length < content.length := by
        have hsum := congrArg List.length hsplit
        simp only [List.length_append, List.length_singleton] at hsum
        omega
      obtain ⟨c₁, hcat₁, hlen₁, hold₁⟩ := hc.strcat_holds hb (by omega)
      have hroom₁ : (acc ++ t).length + [(0x0A : UInt8)].length < c₁.length := by
        rw [hlen₁, List.length_append, List.length_singleton]
        omega
      obtain ⟨c₂, hcat₂, hlen₂, hold₂⟩ := hold₁.strcat_holds newline_holds hroom₁
      have hroom₂ : (acc ++ t ++ [0x0A]).length + (unlines texts).length < c₂.length := by
        rw [hlen₂, hlen₁, List.length_append, List.length_append, List.length_singleton]
        exact hlen
      obtain ⟨content', hloop, hold'⟩ := ih h.tail hold₂ hroom₂
      refine ⟨content', ?_, hsplit ▸ hold'⟩
      simp only [List.length_cons, nanoConcat, hat, Option.bind_eq_bind, Option.bind_some, hcat₁,
        hcat₂]
      exact hloop

/-! ## Writing the file -/

/-- **The file is written**, or its old contents are lost, or there is no file. -/
theorem nanoWrite_spec (hI : Inv tight s others) (hn : Holds filename n) {content : List UInt8}
    (hc : Holds content c) (hlen : c.length ≤ fsMaxFilesize) :
    (slotOf s n = none ∧ nanoWrite filename content s = some (false, s)) ∨
    ∃ i s', slotOf s n = some i ∧ nanoWrite filename content s = some (true, s') ∧
      Inv tight s' others ∧
      ((c = [] ∨ Room s.heap (s.fileTable i).data (totalSize c.length)) ∧ Stored s s' i c ∨
        c ≠ [] ∧ ¬ Room s.heap (s.fileTable i).data (totalSize c.length) ∧ Frame s s' i ∧
          s'.fileTable i = { s.fileTable i with data := null }) := by
  have hopen : fsOpen s filename = some (slotOf s n) := hI.table.fsFind_eq hn
  cases hslot : slotOf s n with
  | none => exact .inl ⟨rfl, by simp [nanoWrite, hopen, hslot]⟩
  | some i =>
      obtain ⟨hu, _⟩ := hI.table.slotOf_eq_some_iff.mp hslot
      have htake : content.take c.length = c := by
        obtain ⟨_, rest, rfl⟩ := hc
        exact List.take_left
      rcases fsWrite_spec false hI hu (Nat.le_of_lt hc.length_lt) with
        ⟨hbig, _⟩ | ⟨_, s', hI', ⟨hwhy, hw, hstored⟩ | ⟨⟨hpos, hwhy⟩, hw, hframe, hf, _⟩⟩
      · exact absurd hbig (Nat.not_lt.mpr hlen)
      · have hw' : fsWrite kmalloc s (some i) (some content) c.length = some (_, s') := hw
        rw [htake] at hstored
        refine .inr ⟨i, s', rfl, ?_, hI', .inl ⟨?_, hstored⟩⟩
        · simp [nanoWrite, hopen, hslot, hc.strlen_eq, hw']
        · exact hwhy.imp List.length_eq_zero_iff.mp And.right
      · have hw' : fsWrite kmalloc s (some i) (some content) c.length = some (_, s') := hw
        refine .inr ⟨i, s', rfl, ?_, hI', .inr ⟨List.ne_nil_of_length_pos hpos, ?_, hframe, hf⟩⟩
        · simp [nanoWrite, hopen, hslot, hc.strlen_eq, hw']
        · exact hwhy.resolve_left fun h ↦ nomatch h

/-- A change of its data leaves a file where it is. -/
theorem slotOf_of_data {i : Slot} {data size : Nat} (hI : Inv tight s others)
    (hI' : Inv tight s' others) (hslot : slotOf s n = some i)
    (hfile : s'.fileTable i = { s.fileTable i with data := data, size := size }) :
    slotOf s' n = some i := by
  obtain ⟨hu, hname⟩ := hI.table.slotOf_eq_some_iff.mp hslot
  refine hI'.table.slotOf_eq_some_iff.mpr ?_
  rw [hfile]
  exact ⟨hu, hname⟩

/-- A frame, with the heap changed before and afterwards, but not the contents of files. -/
theorem Frame.heap {i : Slot} {h₁ h₂ : Heap} (h : Frame { s with heap := h₁ } s' i)
    (hbefore : ∀ j, Sys.contents { s with heap := h₁ } j = s.contents j)
    (hafter : ∀ j, Sys.contents { s' with heap := h₂ } j = s'.contents j) :
    Frame s { s' with heap := h₂ } i :=
  ⟨h.file, fun j hj ↦ (hafter j).trans ((h.contents j hj).trans (hbefore j)), h.cwd⟩

/-! ## Ctrl+S -/

/-- **What comes of Ctrl+S**, for the text `c` and the file `n`. -/
inductive SaveResult (s : Sys) (n c : List UInt8) (e e' : Nano) (s' : Sys) : Prop
  | /-- there is no memory for the text -/
    noBuffer {heap : Heap} (hk : kmalloc s.heap (c.length + 1) = some (null, heap))
      (he : e' = e)
  | /-- there is no file -/
    noFile (hslot : slotOf s n = none) (he : e' = e)
  | /-- the text is stored -/
    stored {i : Slot} {ptr : Nat} {heap : Heap}
      (hk : kmalloc s.heap (c.length + 1) = some (ptr, heap)) (hptr : ptr ≠ null)
      (hslot : slotOf s n = some i)
      (hroom : c = [] ∨ Room heap (s.fileTable i).data (totalSize c.length))
      (he : e' = { e with modified := false }) (hstored : Stored s s' i c)
  | /-- there is no memory for the data of the file, and the old data is given up -/
    lost {i : Slot} {ptr : Nat} {heap : Heap}
      (hk : kmalloc s.heap (c.length + 1) = some (ptr, heap)) (hptr : ptr ≠ null)
      (hslot : slotOf s n = some i) (hne : c ≠ [])
      (hroom : ¬ Room heap (s.fileTable i).data (totalSize c.length))
      (he : e' = { e with modified := false }) (hframe : Frame s s' i)
      (hfile : s'.fileTable i = { s.fileTable i with data := null })

/-- What Ctrl+S does: it allocates a block for the text, writes the file if there is memory for
the block, and frees the block again, whatever became of the file. -/
theorem nanoSave_eq (hI : Inv tight s others) (junk : Mem) (filename : List UInt8)
    (hcount : e.numLines.toNat = texts.length) (hlines : LinesFrom e.lines 0 texts)
    (hsize : (unlines texts).length ≤ nanoMaxLines * nanoLineLen) :
    ∃ ptr heap, kmalloc s.heap ((unlines texts).length + 1) = some (ptr, heap) ∧
      (ptr = null → nanoSave junk filename e s = some (e, { s with heap := heap })) ∧
      (ptr ≠ null → ∃ content, Holds content (unlines texts) ∧
        nanoSave junk filename e s =
          (nanoWrite filename content { s with heap := heap }).bind fun (found, s₂) ↦
            (kfree s₂.heap ptr).map fun heap ↦
              ({ e with modified := if found then false else e.modified },
                { s₂ with heap := heap })) := by
  have hbig : nanoMaxLines * nanoLineLen + 1 ≤ maxRequest ∧ maxRequest < 2 ^ 32 := by decide
  have htotal := hlines.nanoTotal_eq (k := 0) (by omega)
  rw [Nat.zero_add] at htotal
  have hadd : add32 (unlines texts).length 1 = (unlines texts).length + 1 :=
    add32_of_lt (by omega)
  obtain ⟨ptr, heap, hk, _⟩ := hI.kmalloc (show (unlines texts).length + 1 ≤ maxRequest by omega)
  refine ⟨ptr, heap, hk, fun hptr ↦ ?_, fun hptr ↦ ?_⟩
  · simp only [nanoSave, hcount, Int.natCast_zero ▸ htotal, hadd, hk, hptr, Option.bind_eq_bind,
      Option.bind_some, if_true]
    rfl
  · have hbuffer : 0 < (junk.bytes ptr ((unlines texts).length + 1)).length := by
      rw [Mem.length_bytes]
      exact Nat.succ_pos _
    obtain ⟨c₀, hstore, hlen₀, hc₀⟩ := store_zero hbuffer
    have hroom₀ : ([] : List UInt8).length + (unlines texts).length < c₀.length := by
      rw [hlen₀, Mem.length_bytes, List.length_nil]
      omega
    obtain ⟨content, hcat, hc⟩ := hlines.nanoConcat_eq hc₀ hroom₀
    rw [List.nil_append] at hc
    refine ⟨content, hc, ?_⟩
    simp only [nanoSave, hcount, Int.natCast_zero ▸ htotal, hadd, hk, if_neg hptr, hstore,
      Int.natCast_zero ▸ hcat, Option.bind_eq_bind, Option.bind_some]
    cases nanoWrite filename content { s with heap := heap } with
    | none => rfl
    | some r =>
        simp only [Option.bind_some]
        cases kfree r.2.heap ptr <;> rfl

/-- **Saving** the lines of an editor. -/
theorem nanoSave_spec (hI : Inv tight s others) (hn : Holds filename n) (junk : Mem)
    (hcount : e.numLines.toNat = texts.length) (hlines : LinesFrom e.lines 0 texts)
    (hsize : (unlines texts).length ≤ nanoMaxLines * nanoLineLen) :
    ∃ e' s', nanoSave junk filename e s = some (e', s') ∧ Inv tight s' others ∧
      SaveResult s n (unlines texts) e e' s' := by
  have hbig : nanoMaxLines * nanoLineLen + 1 ≤ fsMaxFilesize := by decide
  have hbig' : fsMaxFilesize ≤ maxRequest := by decide
  have hreq : (unlines texts).length + 1 ≤ maxRequest := by omega
  obtain ⟨ptr, heap, hk, hfail, hsave⟩ := nanoSave_eq hI junk filename hcount hlines hsize
  obtain ⟨_, _, hk₁, hI₁, hcontents₁, hnone⟩ := hI.kmalloc hreq
  cases hk₁.symm.trans hk
  by_cases hptr : ptr = null
  · refine ⟨e, { s with heap := heap }, hfail hptr, ?_, .noBuffer (hptr ▸ hk) rfl⟩
    rw [hptr, Live.grant_null] at hI₁
    exact hI₁
  rw [Live.grant_of_ne hptr] at hI₁
  obtain ⟨content, hc, hsave⟩ := hsave hptr
  -- the block of the text is given back, whatever became of the file
  have hdone : ∀ {found : Bool} {s₂ : Sys}, nanoWrite filename content { s with heap := heap } =
      some (found, s₂) → Inv tight s₂ (update others ptr
        (some (Obj.fresh ((unlines texts).length + 1)))) →
      ∃ h₃, nanoSave junk filename e s =
          some ({ e with modified := if found then false else e.modified },
            { s₂ with heap := h₃ }) ∧ Inv tight { s₂ with heap := h₃ } others ∧
        ∀ j, Sys.contents { s₂ with heap := h₃ } j = s₂.contents j := by
    intro found s₂ hw hI₂
    obtain ⟨h₃, hfree, hI₃, hcontents₃⟩ := hI₂.kfree (p := ptr) (by rw [update_self]; rfl)
    rw [update_idem, ← hnone hptr, update_eq_self] at hI₃
    refine ⟨h₃, ?_, hI₃, hcontents₃⟩
    simp only [hsave, hw, Option.bind_some, hfree, Option.map_some]
  rcases nanoWrite_spec hI₁ hn hc (by omega) with
    ⟨hslot, hw⟩ | ⟨i, s₂, hslot, hw, hI₂, ⟨hroom, hstored⟩ | ⟨hne, hroom, hframe, hfile⟩⟩
  · obtain ⟨h₃, hsave, hI₃, _⟩ := hdone hw hI₁
    exact ⟨_, _, hsave, hI₃, .noFile hslot rfl⟩
  · obtain ⟨h₃, hsave, hI₃, hcontents₃⟩ := hdone hw hI₂
    refine ⟨_, _, hsave, hI₃, .stored hk hptr hslot hroom rfl ⟨?_, hstored.file, ?_⟩⟩
    · exact Frame.heap hstored.frame hcontents₁ hcontents₃
    · exact (hcontents₃ i).trans hstored.contents
  · obtain ⟨h₃, hsave, hI₃, hcontents₃⟩ := hdone hw hI₂
    exact ⟨_, _, hsave, hI₃,
      .lost hk hptr hslot hne hroom rfl (Frame.heap hframe hcontents₁ hcontents₃) hfile⟩

/-- The lines, the cursor and the loop of the editor are left alone. -/
theorem SaveResult.modified (h : SaveResult s n c e e' s') :
    ∃ m, e' = { e with modified := m } := by
  cases h with
  | noBuffer _ he => exact ⟨e.modified, he⟩
  | noFile _ he => exact ⟨e.modified, he⟩
  | stored _ _ _ _ he _ => exact ⟨false, he⟩
  | lost _ _ _ _ _ he _ _ => exact ⟨false, he⟩

/-- The allocations of Ctrl+S succeed: the one for the text `c`, and the one for the new data of
the file, once its old data is freed. -/
def SaveSucceeds (s : Sys) (n c : List UInt8) : Prop :=
  ∃ ptr heap, kmalloc s.heap (c.length + 1) = some (ptr, heap) ∧ ptr ≠ null ∧
    ∀ i, slotOf s n = some i → c ≠ [] →
      ∃ heap', freeData heap (s.fileTable i).data = some heap' ∧ Succeeds heap' c.length

/-- **If its allocations succeed, Ctrl+S stores the text.** -/
theorem SaveResult.of_succeeds {i : Slot} (h : SaveResult s n c e e' s') (hI : Inv tight s others)
    (hsucc : SaveSucceeds s n c) (hslot : slotOf s n = some i) (hmax : c.length + 1 ≤ maxRequest) :
    e' = { e with modified := false } ∧ Stored s s' i c := by
  obtain ⟨ptr, heap, hk, hptr, hdata⟩ := hsucc
  cases h with
  | noBuffer hk' _ =>
      cases hk.symm.trans hk'
      exact absurd rfl hptr
  | noFile hslot' _ => cases hslot.symm.trans hslot'
  | stored _ _ hslot' _ he hstored =>
      cases hslot.symm.trans hslot'
      exact ⟨he, hstored⟩
  | lost hk' _ hslot' hne hroom _ _ _ =>
      cases hslot.symm.trans hslot'
      cases hk.symm.trans hk'
      -- there is no room for the data, but its allocation succeeds
      obtain ⟨heap', hfree, ptr', h', hk₂, hptr'⟩ := hdata i hslot hne
      obtain ⟨ptr₁, heap₁, hk₁, hI₁, _⟩ := hI.kmalloc hmax
      cases hk.symm.trans hk₁
      obtain ⟨live, bs, hheld, _⟩ := hI₁.heap
      obtain ⟨heap₂, bs₂, hfree₂, hw₂, hroom₂⟩ :=
        freeData_spec hheld.owned (hheld.data_isSome (i := i))
      cases hfree.symm.trans hfree₂
      have hpos : 0 < c.length := List.length_pos_of_ne_nil hne
      have hnull := (hw₂.kmalloc_eq_null_iff hpos (Nat.le_of_succ_le hmax)).mpr
        (mt (hroom₂ _).mp hroom)
      cases hk₂.symm.trans hnull
      exact absurd rfl hptr'

/-! ## Saving a text -/

/-- The lines of a text. -/
theorem Shows.linesFrom {t : Text UInt8} (hS : Shows e t) : LinesFrom e.lines 0 t.lines := by
  intro k l hk
  obtain ⟨str, hs, ht⟩ := hS.lines
  have hlt : k < t.lines.length := (List.getElem?_eq_some_iff.mp hk).1
  obtain ⟨buf, hat, _, hb⟩ := hs.lineAt_eq (Nat.lt_of_lt_of_le hlt hS.height_le)
  refine ⟨buf, ?_, ht.lines hk ▸ hb⟩
  rw [Nat.zero_add]
  exact hat

/-- A text is not too long to be saved. -/
theorem length_unlines_le (hcount : texts.length ≤ nanoMaxLines)
    (hwidth : ∀ l ∈ texts, l.length < nanoLineLen) :
    (unlines texts).length ≤ nanoMaxLines * nanoLineLen :=
  Nat.le_trans (length_joinLines_le hwidth) (Nat.mul_le_mul_right _ hcount)

/-- **Saving** does not change the text. -/
theorem Shows.save {t : Text UInt8} (hS : Shows e t) (hI : Inv tight s others)
    (hn : Holds filename n) (junk : Mem) :
    ∃ e' s', nanoSave junk filename e s = some (e', s') ∧ Inv tight s' others ∧ Shows e' t ∧
      SaveResult s n (unlines t.lines) e e' s' := by
  have hsize : (unlines t.lines).length ≤ nanoMaxLines * nanoLineLen :=
    length_unlines_le hS.height_le fun l hl ↦ lt_lineLen (hS.fits.width_le l hl)
  have hcount : e.numLines.toNat = t.lines.length := by rw [hS.numLines, Int.toNat_natCast]
  obtain ⟨e', s', hsave, hI', hresult⟩ := nanoSave_spec hI hn junk hcount hS.linesFrom hsize
  obtain ⟨m, rfl⟩ := hresult.modified
  exact ⟨_, s', hsave, hI', ⟨hS.numLines, hS.curLine, hS.curCol, hS.height_le, hS.lines⟩, hresult⟩

end KontolOS.Shell
