import KontolOS.Shell.NanoModified
import KontolOS.Shell.NanoRun

/-!
# Saving and opening again

What Ctrl+S stores is read back as it was when the file is opened again: the same number of
lines, and the same lines (`save_reopen`).  In the other direction the limits of the editor show.
A file that is opened and saved keeps its first `NANO_MAX_LINES` lines, and of each the first
`NANO_LINE_LEN - 1` characters; nothing is lost if there is no more than that, but for the last
line being ended by a newline (`open_save_exit`).
-/

namespace KontolOS.Shell

open KontolOS.Lib KontolOS.Memory KontolOS.Strings KontolOS.Fs Function

variable {tight : Prop} {s s' s₁ : Sys} {others : Live} {filename n c : List UInt8}
  {texts : List (List UInt8)} {e e' : Nano} {b : NanoBlocks} {i : Slot}

/-! ## What is read back -/

/-- Lines that the editor can hold are read back from what is saved of them. -/
theorem fileLines_unlines (hne : texts ≠ []) (hcount : texts.length ≤ nanoMaxLines)
    (hwidth : ∀ l ∈ texts, l.length ≤ nanoWidth) (hnl : ∀ l ∈ texts, 0x0A ∉ l) :
    fileLines (unlines texts) = texts := by
  have hunlines : unlines texts ≠ [] := by
    obtain ⟨l, rest, rfl⟩ := List.exists_cons_of_ne_nil hne
    rw [unlines_eq, joinLines_cons]
    exact List.append_ne_nil_of_right_ne_nil _ (List.cons_ne_nil _ _)
  rw [fileLines, if_neg hunlines, loaded, unlines_eq, splitLines_joinLines hnl]
  exact clipLines_eq_self_iff.mpr ⟨hcount, hwidth⟩

/-- No NUL is saved. -/
theorem zero_not_mem_unlines (h : ∀ l ∈ texts, 0 ∉ l) : 0 ∉ unlines texts := by
  intro hmem
  obtain ⟨l, hl, h0⟩ := exists_of_mem_joinLines (by decide) hmem
  exact h l hl h0

theorem length_fileLines_le (text : List UInt8) : (fileLines text).length ≤ nanoMaxLines := by
  rw [fileLines]
  split
  · decide
  · exact length_loaded_le text

/-- The lines of a text that is opened fit, and consist of its characters. -/
theorem mem_fileLines {text l : List UInt8} (hl : l ∈ fileLines text) :
    l.length ≤ nanoWidth ∧ ∀ c ∈ l, c ∈ text ∧ c ≠ 0x0A := by
  rw [fileLines] at hl
  split at hl
  · rw [List.mem_singleton.mp hl]
    exact ⟨Nat.zero_le _, nofun⟩
  · obtain ⟨k, hk, rfl⟩ := mem_clipLines hl
    exact ⟨List.length_take_le _ _, fun c hc ↦ mem_of_mem_splitLines hk (List.mem_of_mem_take hc)⟩

/-! ## Saving, and opening again -/

/-- What the other clients of the heap do leaves the files alone. -/
theorem SameFiles.of_run {w w' : World} {acts : List (Act (Option Slot))}
    (hr : Run WorldStep w acts w') (hI : Inv tight w.sys w.others)
    (hothers : ∀ a ∈ acts, ∃ c, a = .other c) :
    SameFiles w.sys w'.sys ∧ Inv tight w'.sys w'.others := by
  induction hr with
  | nil w => exact ⟨.refl w.sys, hI⟩
  | @cons w w₁ w' a acts hstep _ ih =>
      obtain ⟨⟨call, rfl⟩, hrest⟩ := List.forall_mem_cons.mp hothers
      obtain ⟨hcareful, hsys, ptr, hexec⟩ := hstep
      obtain ⟨ptr', heap, others', hexec', hI', hcontents⟩ := hI.other hcareful
      cases hexec'.symm.trans hexec
      rw [← hsys] at hI' hcontents
      obtain ⟨hsame, hI''⟩ := ih hI' hrest
      exact ⟨SameFiles.trans ⟨hsys, hcontents⟩ hsame, hI''⟩

/-! ## Saving, and opening again -/

/-- **Saving and opening again loses nothing.**  After any use of the filesystem and the heap, an
editor with up to `NANO_MAX_LINES` lines, without newlines in them, saves them to its file if
the allocations succeed: each line is followed by one newline.  Whatever the other clients of the
heap do then, if the file is opened again and all allocations succeed, there are as many lines
as before, and the same. -/
theorem save_reopen {w₀ w : World} {acts : List (Act (Option Slot))} (hb : Booted w₀)
    (hr : Run WorldStep w₀ acts w) (hn : Holds filename n) (hslot : slotOf w.sys n = some i)
    (hnum : e.numLines = texts.length) (hpos : 1 ≤ texts.length)
    (hcount : texts.length ≤ nanoMaxLines) (hlines : LinesFrom e.lines 0 texts)
    (hwidth : ∀ l ∈ texts, l.length ≤ nanoWidth) (hnl : ∀ l ∈ texts, 0x0A ∉ l)
    (hsave : SaveSucceeds w.sys n (unlines texts)) (junk : Mem) :
    ∃ e' s', nanoHandle junk filename 19 e w.sys = some (e', s') ∧ slotOf s' n = some i ∧
      s'.contents i = some (unlines texts) ∧
      ∀ acts' w' b s₁, Run WorldStep ⟨s', w.others⟩ acts' w' → (∀ a ∈ acts', ∃ c, a = .other c) →
        nanoAllocate filename w'.sys = some (some b, s₁) → (∀ p ∈ b.ptrs, p ≠ null) →
        ReadSucceeds s₁ n → ∀ junk', ∃ e₂ s₂, nanoOpen junk' filename b s₁ = some (e₂, s₂) ∧
          e₂.numLines = e.numLines ∧ LinesFrom e₂.lines 0 texts := by
  have hI := Inv.run hb.inv.1 hr
  have hsize : (unlines texts).length ≤ nanoMaxLines * nanoLineLen :=
    length_unlines_le hcount fun l hl ↦ lt_lineLen (hwidth l hl)
  have hmax : (unlines texts).length + 1 ≤ maxRequest := by
    have hbig : nanoMaxLines * nanoLineLen + 1 ≤ maxRequest := by decide
    omega
  have hne : texts ≠ [] := List.ne_nil_of_length_pos hpos
  have h0 : 0 ∉ unlines texts := by
    refine zero_not_mem_unlines fun l hl ↦ ?_
    obtain ⟨k, hk⟩ := List.mem_iff_getElem?.mp hl
    obtain ⟨buf, _, hbuf⟩ := hlines k l hk
    exact hbuf.1
  obtain ⟨e', s', hcall, hI', hresult⟩ := nanoSave_spec hI hn junk
    (by rw [hnum, Int.toNat_natCast]) hlines hsize
  obtain ⟨_, hstored⟩ := hresult.of_succeeds hI hsave hslot hmax
  obtain ⟨data, hfile⟩ := hstored.file
  have hslot' : slotOf s' n = some i := slotOf_of_data hI hI' hslot hfile
  refine ⟨e', s', hcall, hslot', hstored.contents, ?_⟩
  intro acts' w' b s₁ hr' hothers halloc hall hread junk'
  obtain ⟨hsame, hI''⟩ := SameFiles.of_run hr' hI' hothers
  obtain ⟨e₂, s₂, _, l, rest, hopen, _, _, _, htexts, hS, _⟩ := open_spec hI'' hn
    ((hsame.slotOf_eq n).trans hslot') ((hsame.contents i).trans hstored.contents) h0 halloc hall
    hread junk'
  rw [fileLines_unlines hne hcount hwidth hnl] at htexts
  subst htexts
  exact ⟨e₂, s₂, hopen, hS.numLines.trans hnum.symm, hS.linesFrom⟩

/-- Four lines, of which the second and the last are empty. -/
def fourTexts : List (List UInt8) := [[0x61, 0x62], [], [0x63], []]

/-- An editor with these lines. -/
def fourEditor : Nano :=
  ⟨fourTexts.map fun t ↦ some (t ++ List.replicate (nanoLineLen - t.length) 0), 4, 3, 0, true, true⟩

theorem linesFrom_fourEditor : LinesFrom fourEditor.lines 0 fourTexts := by
  intro k t hk
  have hholds : ∀ t ∈ fourTexts, Holds (t ++ List.replicate (nanoLineLen - t.length) 0) t := by
    intro t ht
    have hlt : ∀ t ∈ fourTexts, 0 ∉ t ∧ nanoLineLen - t.length =
        nanoLineLen - t.length - 1 + 1 := by decide
    obtain ⟨h0, hlen⟩ := hlt t ht
    rw [hlen, List.replicate_succ]
    exact ⟨h0, _, rfl⟩
  refine ⟨_, ?_, hholds t (List.mem_of_getElem? hk)⟩
  rw [Nat.zero_add, lineAt, if_pos (Int.natCast_nonneg k), Int.toNat_natCast, fourEditor,
    List.getElem?_map, hk]
  rfl

/-- The four lines are saved to a file with one character in it, and are there again when it is
opened. -/
theorem save_reopen_four : ∃ w i e' s' b s₁ e₂ s₂,
    Run WorldStep (bootWorld (Clients.init fun _ ↦ 0))
      [.fs false (.create (some [0x61, 0])) (.ofCode 0),
        .fs false (.write (some i) (some [0x78]) 1) (.ofCode 1)] w ∧
    w.sys.contents i = some [0x78] ∧
    nanoHandle (fun _ ↦ 0) [0x61, 0] 19 fourEditor w.sys = some (e', s') ∧
    s'.contents i = some (unlines fourTexts) ∧
    nanoAllocate [0x61, 0] s' = some (some b, s₁) ∧
    nanoOpen (fun _ ↦ 0xFF) [0x61, 0] b s₁ = some (e₂, s₂) ∧
    e₂.numLines = 4 ∧ LinesFrom e₂.lines 0 fourTexts := by
  obtain ⟨w, i, hr, hslot, hc, hs⟩ := exists_file (List.cons_ne_nil 0x78 []) (by decide)
  have hb := booted_bootWorld (w := Clients.init fun _ ↦ 0) ⟨_, [], .nil _⟩
  have hn : Holds [0x61, 0] [0x61] := ⟨by decide, [], rfl⟩
  have hI := Inv.run hb.inv.1 hr
  have hcost : saveCost + (nanoCost + readCost) ≤ heapSize - ([0x78].length + overhead) := by decide
  have hheap : saveCost + (nanoCost + readCost) ≤ heapSize := by decide
  have hsave : SaveSucceeds w.sys [0x61] (unlines fourTexts) :=
    saveSucceeds_of_spare hI (by decide) (hs.mono (Nat.le_trans (Nat.le_add_right _ _) hcost))
  have hnum : fourEditor.numLines = fourTexts.length := rfl
  have hone : 1 ≤ fourTexts.length := by decide
  obtain ⟨e', s', hcall, _, hcontents, hreopen⟩ := save_reopen hb hr hn hslot hnum hone (by decide)
    linesFrom_fourEditor (by decide) (by decide) hsave fun _ ↦ 0
  obtain ⟨_, _, hcall', hI', _⟩ := nanoSave_spec hI hn (fun _ ↦ 0) (e := fourEditor) rfl
    linesFrom_fourEditor (by decide)
  cases hcall'.symm.trans hcall
  have hs' : Spare s'.heap (nanoCost + readCost) :=
    nanoSave_spare hI hn hslot (e := fourEditor) rfl linesFrom_fourEditor (by decide) (by decide)
      hheap (hs.mono hcost) hcall
  obtain ⟨b, s₁, halloc, hall, hs₁⟩ := nanoAllocate_spare hI' hn
    (Nat.le_trans (Nat.le_add_left _ _) hheap) hs'
  obtain ⟨_, _, _, halloc', hI₁, _⟩ := nanoAllocate_spec hI' hn
  cases halloc'.symm.trans halloc
  obtain ⟨e₂, s₂, hopen, hsame, hlines⟩ :=
    hreopen [] _ b s₁ (.nil _) (List.forall_mem_nil _) halloc hall
      (readSucceeds_of_spare hI₁ hs₁) fun _ ↦ 0xFF
  exact ⟨w, i, e', s', b, s₁, e₂, s₂, hr, hc, hcall, hcontents, halloc, hopen, hsame, hlines⟩

/-! ## Opening, and saving -/

/-- A text within the limits of the editor. -/
def InLimits (text : List UInt8) : Prop :=
  (splitLines 0x0A text).length ≤ nanoMaxLines ∧
    ∀ l ∈ splitLines 0x0A text, l.length ≤ nanoWidth

/-- **What is saved of a text that was opened** is this text, if it is within the limits. -/
theorem terminates_fileLines_iff (text : List UInt8) :
    Terminates 0x0A text (unlines (fileLines text)) ↔ InLimits text := by
  by_cases hempty : text = []
  · subst hempty
    exact iff_of_true (.inr ⟨nofun, rfl⟩) ⟨Nat.zero_le _, nofun⟩
  · rw [fileLines, if_neg hempty]
    exact terminates_clipLines_iff hempty

/-- Ctrl+X ends the loop. -/
theorem Shows.exitKey {t : Text UInt8} (hS : Shows e t) (junk : Mem) :
    nanoKey junk filename 24 e s = some ({ e with running := false }, s) := by
  have hS' : Shows { e with running := false } t :=
    ⟨hS.numLines, hS.curLine, hS.curCol, hS.height_le, hS.lines⟩
  have hhandle : nanoHandle junk filename 24 e s = some ({ e with running := false }, s) := rfl
  simp only [nanoKey, hhandle, hS'.nanoClamp_eq, Option.bind_eq_bind, Option.bind_some]
  rfl

/-- Ctrl+S stores the text. -/
theorem Shows.saveKey {t : Text UInt8} (hS : Shows e t) (hI : Inv tight s others)
    (hn : Holds filename n) (hslot : slotOf s n = some i)
    (hsave : SaveSucceeds s n (unlines t.lines)) (junk : Mem) :
    ∃ e' s', nanoKey junk filename 19 e s = some (e', s') ∧ Inv tight s' others ∧ Shows e' t ∧
      e'.running = e.running ∧ slotOf s' n = some i ∧
      s'.contents i = some (unlines t.lines) := by
  obtain ⟨e', s', hcall, hI', hS', hresult⟩ := hS.save hI hn junk
  have hmax : (unlines t.lines).length + 1 ≤ maxRequest := by
    have hbig : nanoMaxLines * nanoLineLen + 1 ≤ maxRequest := by decide
    have hsize := length_unlines_le hS.height_le fun l hl ↦ lt_lineLen (hS.fits.width_le l hl)
    omega
  obtain ⟨rfl, hstored⟩ := hresult.of_succeeds hI hsave hslot hmax
  obtain ⟨data, hfile⟩ := hstored.file
  refine ⟨_, s', ?_, hI', hS', rfl, slotOf_of_data hI hI' hslot hfile, hstored.contents⟩
  have hhandle : nanoHandle junk filename 19 e s = some ({ e with modified := false }, s') := hcall
  simp only [nanoKey, hhandle, hS'.nanoClamp_eq, Option.bind_eq_bind, Option.bind_some]
  rfl

/-- **Saving and leaving.** -/
theorem Shows.save_exit {t : Text UInt8} (hS : Shows e t) (hI : Inv tight s others)
    (hn : Holds filename n) (hrunning : e.running = true) (hslot : slotOf s n = some i)
    (hsave : SaveSucceeds s n (unlines t.lines)) :
    (∃ y, Run (NanoStep filename) (e, s) [19, 24] y) ∧
    ∀ y, Run (NanoStep filename) (e, s) [19, 24] y → y.1.running = false ∧ Inv tight y.2 others ∧
      slotOf y.2 n = some i ∧ y.2.contents i = some (unlines t.lines) := by
  constructor
  · obtain ⟨e', s', hstep, _, hS', hrunning', _⟩ := hS.saveKey hI hn hslot hsave fun _ ↦ 0
    exact ⟨_, .cons ⟨hrunning, _, hstep⟩
      (.single ⟨hrunning'.trans hrunning, _, hS'.exitKey fun _ ↦ 0⟩)⟩
  · intro y hr
    cases hr with
    | cons hstep hrest =>
        obtain ⟨_, junk, hstep⟩ := hstep
        obtain ⟨e', s', hstep', hI', hS', _, hslot', hcontents⟩ := hS.saveKey hI hn hslot hsave junk
        cases hstep'.symm.trans hstep
        cases hrest with
        | cons hexit hnil =>
            obtain ⟨_, junk', hexit⟩ := hexit
            cases hnil
            cases (hS'.exitKey junk').symm.trans hexit
            exact ⟨rfl, hI', hslot', hcontents⟩

/-- **Opening and saving.**  After any use of the filesystem and the heap, for a file whose
contents have no NUL, if all allocations of `cmd_nano` succeed: after Ctrl+S and Ctrl+X the file
contains the first `NANO_MAX_LINES` lines of what it contained, cut to `NANO_LINE_LEN - 1`
characters and each ended by a newline, or one newline if it was empty.  This is what it
contained, with one newline added where the end lacks one, exactly if it was within the limits. -/
theorem open_save_exit {w₀ w : World} {acts : List (Act (Option Slot))} (hb : Booted w₀)
    (hr : Run WorldStep w₀ acts w) (hn : Holds filename n) (hslot : slotOf w.sys n = some i)
    (hc : w.sys.contents i = some c) (h0 : 0 ∉ c)
    (halloc : nanoAllocate filename w.sys = some (some b, s₁)) (hall : ∀ p ∈ b.ptrs, p ≠ null)
    (hread : ReadSucceeds s₁ n) (junk : Mem) :
    ∃ e s₂, nanoOpen junk filename b s₁ = some (e, s₂) ∧
      (SaveSucceeds s₂ n (unlines (fileLines c)) →
        (∃ y, Run (NanoStep filename) (e, s₂) [19, 24] y) ∧
        ∀ y, Run (NanoStep filename) (e, s₂) [19, 24] y → y.1.running = false ∧
          ∃ s', nanoClose b y.2 = some s' ∧ slotOf s' n = some i ∧
            s'.contents i = some (unlines (fileLines c))) ∧
      (Terminates 0x0A c (unlines (fileLines c)) ↔ InLimits c) := by
  obtain ⟨e, s₂, others', l, rest, hopen, hI, howned, hsame, hlines, hS, hrunning⟩ :=
    open_spec (Inv.run hb.inv.1 hr) hn hslot hc h0 halloc hall hread junk
  refine ⟨e, s₂, hopen, fun hsave ↦ ?_, terminates_fileLines_iff c⟩
  have htext : (Text.start l rest).lines = fileLines c := hlines.symm
  rw [← htext] at hsave ⊢
  obtain ⟨hex, hruns⟩ := hS.save_exit hI hn hrunning ((hsame.slotOf_eq n).trans hslot) hsave
  refine ⟨hex, fun y hy ↦ ?_⟩
  obtain ⟨hstop, hI', hslot', hcontents⟩ := hruns y hy
  obtain ⟨s', _, hclose, _, hsame'⟩ := nanoClose_spec hI' howned
  exact ⟨hstop, s', hclose, (hsame'.slotOf_eq n).trans hslot',
    (hsame'.contents i).trans hcontents⟩

theorem length_unlines_fileLines_le (text : List UInt8) :
    (unlines (fileLines text)).length ≤ nanoMaxLines * nanoLineLen :=
  length_unlines_le (length_fileLines_le text) fun _ hl ↦ lt_lineLen (mem_fileLines hl).1

/-- A file with the contents `c` is opened, saved and left: from the state `s` to `s'`, with the
editor `e` in between.  All allocations succeed. -/
structure NanoSession (c : List UInt8) (i : Slot) (s : Sys) (b : NanoBlocks) (s₁ : Sys) (e : Nano)
    (s₂ : Sys) (y : Nano × Sys) (s' : Sys) : Prop where
  /-- the file -/
  slot : slotOf s [0x61] = some i
  /-- its contents -/
  contents : s.contents i = some c
  /-- the lines are allocated -/
  alloc : nanoAllocate [0x61, 0] s = some (some b, s₁)
  /-- all of them -/
  ptrs : ∀ p ∈ b.ptrs, p ≠ null
  /-- there is memory for the contents -/
  read : ReadSucceeds s₁ [0x61]
  /-- they are read -/
  opens : nanoOpen (fun _ ↦ 0) [0x61, 0] b s₁ = some (e, s₂)
  /-- there is memory to save them -/
  save : SaveSucceeds s₂ [0x61] (unlines (fileLines c))
  /-- they are saved -/
  run : Run (NanoStep [0x61, 0]) (e, s₂) [19, 24] y
  /-- the lines are freed -/
  close : nanoClose b y.2 = some s'
  /-- what the file contains in the end -/
  saved : s'.contents i = some (unlines (fileLines c))

/-- **There is such a session** for any contents. -/
theorem exists_session (hne : c ≠ []) (hle : c.length ≤ fsMaxFilesize) (h0 : 0 ∉ c) :
    ∃ w i b s₁ e s₂ y s', Run WorldStep (bootWorld (Clients.init fun _ ↦ 0))
        [.fs false (.create (some [0x61, 0])) (.ofCode 0),
          .fs false (.write (some i) (some c) c.length) (.ofCode c.length)] w ∧
      NanoSession c i w.sys b s₁ e s₂ y s' := by
  obtain ⟨w, i, b, s₁, e, s₂, others, l, rest, hr, ho, hI, howned, hsame, hlines, hS, hrunning,
    hspare⟩ := exists_opened hne hle h0
  have hn : Holds [0x61, 0] [0x61] := ⟨by decide, [], rfl⟩
  have hsave := saveSucceeds_of_spare (n := [0x61]) hI (length_unlines_fileLines_le c) hspare
  have htext : (Text.start l rest).lines = fileLines c := hlines.symm
  obtain ⟨⟨y, hy⟩, hruns⟩ := hS.save_exit hI hn hrunning ((hsame.slotOf_eq _).trans ho.slot)
    (htext ▸ hsave)
  obtain ⟨_, hI₃, _, hcontents⟩ := hruns y hy
  obtain ⟨s', _, hclose, _, hsame'⟩ := nanoClose_spec hI₃ howned
  refine ⟨w, i, b, s₁, e, s₂, y, s', hr, ho.slot, ho.contents, ho.alloc, ho.ptrs, ho.read, ho.opens,
    hsave, hy, hclose, ?_⟩
  rw [hsame'.contents i, hcontents, htext]

/-- A file of one character gets a newline. -/
theorem open_save_exit_one : ∃ i s b s₁ e s₂ y s', NanoSession [0x78] i s b s₁ e s₂ y s' ∧
    s'.contents i = some [0x78, 0x0A] := by
  obtain ⟨w, i, b, s₁, e, s₂, y, s', hr, h⟩ :=
    exists_session (c := [0x78]) (by decide) (by decide) (by decide)
  have hb := booted_bootWorld (w := Clients.init fun _ ↦ 0) ⟨_, [], .nil _⟩
  have hn : Holds [0x61, 0] [0x61] := ⟨by decide, [], rfl⟩
  obtain ⟨e', s₂', hopen, hsaved, _⟩ := open_save_exit hb hr hn h.slot h.contents (by decide)
    h.alloc h.ptrs h.read fun _ ↦ 0
  cases h.opens.symm.trans hopen
  obtain ⟨_, hruns⟩ := hsaved h.save
  obtain ⟨_, s₃, hclose, _, hcontents⟩ := hruns y h.run
  cases h.close.symm.trans hclose
  exact ⟨i, w.sys, b, s₁, e, s₂, y, s', h, hcontents⟩

/-- A line of 80 characters. -/
def longLine : List UInt8 := List.replicate 80 0x78

/-- A file with one line of 80 characters loses one of them. -/
theorem open_save_exit_clips : ∃ w i b s₁ e s₂ y s' c',
    Run WorldStep (bootWorld (Clients.init fun _ ↦ 0))
      [.fs false (.create (some [0x61, 0])) (.ofCode 0),
        .fs false (.write (some i) (some longLine) longLine.length) (.ofCode longLine.length)] w ∧
    NanoSession longLine i w.sys b s₁ e s₂ y s' ∧ s'.contents i = some c' ∧
    ¬ Terminates 0x0A longLine c' := by
  have hlen : longLine.length = 80 := List.length_replicate
  have hmem : ∀ d, d ∈ longLine → d = 0x78 := fun d hd ↦ List.eq_of_mem_replicate hd
  have hne : longLine ≠ [] := List.ne_nil_of_length_pos (by rw [hlen]; decide)
  have h0 : 0 ∉ longLine := fun h ↦ absurd (hmem 0 h) (by decide)
  have hnl : 0x0A ∉ longLine := fun h ↦ absurd (hmem 0x0A h) (by decide)
  obtain ⟨w, i, b, s₁, e, s₂, y, s', hr, h⟩ :=
    exists_session (c := longLine) hne (by rw [hlen]; decide) h0
  refine ⟨w, i, b, s₁, e, s₂, y, s', _, hr, h, h.saved, ?_⟩
  rw [terminates_fileLines_iff]
  rintro ⟨_, hwidth⟩
  rw [splitLines_of_not_mem hnl hne] at hwidth
  have hlong := hwidth longLine (List.mem_singleton.mpr rfl)
  rw [hlen] at hlong
  exact absurd hlong (by decide)

end KontolOS.Shell
