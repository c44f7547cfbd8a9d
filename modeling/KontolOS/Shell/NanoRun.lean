import KontolOS.Lib.Run
import KontolOS.Shell.NanoSpare

/-!
# Runs of the editor

A key does to the editor what `typed` does to its text (`Shows.key`).  The cursor of the
editor moves to the right by insertions alone, so that what is to its right never changes,
and fits behind every line above: no backspace joins lines that are too long.  Hence every
key of every run stays within the lines (`run_inBounds`).
-/

namespace KontolOS.Shell

open KontolOS.Lib KontolOS.Memory KontolOS.Strings KontolOS.Fs Function

variable {tight : Prop} {s : Sys} {others : Live} {filename n : List UInt8}

/-! ## Keys -/

/-- The edit that a key stands for. -/
def keyEdit (c : UInt8) : Option (Edit UInt8) :=
  if c = 8 then some .backspace
  else if c = 10 ∨ c = 13 then some .enter
  else if 32 ≤ c ∧ c < 127 then some (.insert c)
  else none

/-- A text after a key. -/
def typed (t : Text UInt8) (c : UInt8) : Text UInt8 :=
  (keyEdit c).elim t (t.edit nanoWidth nanoMaxLines)

/-- Whether a key changes the text. -/
def keyChanges (t : Text UInt8) (c : UInt8) : Bool :=
  (keyEdit c).elim false (t.changes nanoWidth nanoMaxLines)

/-- The characters that can be typed into a text. -/
def Printable (c : UInt8) : Prop := 32 ≤ c ∧ c < 127

/-- **No other characters come into a text.** -/
theorem all_typed {t : Text UInt8} (h : t.All Printable) (c : UInt8) :
    (typed t c).All Printable := by
  rw [typed]
  cases hkey : keyEdit c with
  | none => exact h
  | some e =>
      refine h.edit fun d hd ↦ ?_
      rw [hd, keyEdit] at hkey
      split_ifs at hkey with hback henter hprint
      all_goals cases hkey
      exact hprint

/-- **The mark of the editor**: it is set by the keys that change the text. -/
theorem Shows.modified_key {e e' : Nano} {s' : Sys} {t : Text UInt8} {junk : Mem} {c : UInt8}
    (hS : Shows e t) (hc : c ≠ 19) (h : nanoKey junk filename c e s = some (e', s')) :
    e'.modified = (e.modified || keyChanges t c) := by
  obtain ⟨⟨e₁, s₁⟩, hhandle, h⟩ := Option.bind_eq_some_iff.mp h
  obtain ⟨e₂, hclamp, heq⟩ := Option.bind_eq_some_iff.mp h
  cases heq
  obtain ⟨_, _, hclamp⟩ := Option.bind_eq_some_iff.mp hclamp
  obtain ⟨_, _, heq⟩ := Option.bind_eq_some_iff.mp hclamp
  cases heq
  change e₁.modified = _
  rw [nanoHandle, if_neg hc] at hhandle
  rw [keyChanges, keyEdit]
  by_cases hexit : c = 24
  · rw [if_pos hexit] at hhandle
    cases hhandle
    rw [hexit]
    exact (Bool.or_false _).symm
  rw [if_neg hexit] at hhandle
  split_ifs at hhandle ⊢ with hback henter hprint
  · obtain ⟨_, hedit, heq⟩ := Option.map_eq_some_iff.mp hhandle
    cases heq
    exact hS.modified_backspace hedit
  · obtain ⟨_, hedit, heq⟩ := Option.map_eq_some_iff.mp hhandle
    cases heq
    exact hS.modified_enter hedit
  · obtain ⟨_, hedit, heq⟩ := Option.map_eq_some_iff.mp hhandle
    cases heq
    exact hS.modified_insert hedit
  · cases hhandle
    exact (Bool.or_false _).symm

/-- **The step lemma of the editor.** -/
theorem Shows.key {e : Nano} {t : Text UInt8} (hS : Shows e t) (hI : Inv tight s others)
    (hname : ∃ n, Holds filename n) (junk : Mem) {c : UInt8}
    (hj : keyEdit c = some .backspace → t.JoinFits nanoWidth) :
    ∃ e' s', nanoKey junk filename c e s = some (e', s') ∧ Inv tight s' others ∧
      Shows e' (typed t c) ∧ (c ≠ 24 → e'.running = e.running) := by
  -- it is enough to look at what is done before the bounds checks
  suffices h : ∃ e' s', nanoHandle junk filename c e s = some (e', s') ∧ Inv tight s' others ∧
      Shows e' (typed t c) ∧ (c ≠ 24 → e'.running = e.running) by
    obtain ⟨e', s', hstep, hI', hS', hrun⟩ := h
    refine ⟨e', s', ?_, hI', hS', hrun⟩
    simp only [nanoKey, hstep, hS'.nanoClamp_eq, Option.bind_some, Option.bind_eq_bind]
    rfl
  rw [nanoHandle]
  by_cases hsave : c = 19
  · subst hsave
    obtain ⟨n, hn⟩ := hname
    obtain ⟨e', s', hs, hI', hS', hresult⟩ := hS.save hI hn junk
    obtain ⟨m, rfl⟩ := hresult.modified
    exact ⟨_, s', hs, hI', hS', fun _ ↦ rfl⟩
  rw [if_neg hsave]
  by_cases hexit : c = 24
  · subst hexit
    have hS' : Shows { e with running := false } t :=
      ⟨hS.numLines, hS.curLine, hS.curCol, hS.height_le, hS.lines⟩
    exact ⟨_, s, rfl, hI, hS', fun h ↦ absurd rfl h⟩
  rw [if_neg hexit]
  by_cases hback : c = 8
  · have hkey : keyEdit c = some .backspace := if_pos hback
    obtain ⟨e', h, hS', hrun⟩ := hS.backspace (hj hkey)
    rw [if_pos hback, h, typed, hkey]
    exact ⟨e', s, rfl, hI, hS', fun _ ↦ hrun⟩
  rw [if_neg hback]
  by_cases henter : c = 10 ∨ c = 13
  · have hkey : keyEdit c = some .enter := (if_neg hback).trans (if_pos henter)
    obtain ⟨e', h, hS', hrun⟩ := hS.enter
    rw [if_pos henter, h, typed, hkey]
    exact ⟨e', s, rfl, hI, hS', fun _ ↦ hrun⟩
  rw [if_neg henter]
  by_cases hprint : 32 ≤ c ∧ c < 127
  · have hkey : keyEdit c = some (.insert c) :=
      (if_neg hback).trans ((if_neg henter).trans (if_pos hprint))
    have hc : c ≠ 0 := by
      rintro rfl
      exact absurd hprint.1 (by decide)
    obtain ⟨e', h, hS', hrun⟩ := hS.insert hc
    rw [if_pos hprint, h, typed, hkey]
    exact ⟨e', s, rfl, hI, hS', fun _ ↦ hrun⟩
  · have hkey : keyEdit c = none := (if_neg hback).trans ((if_neg henter).trans (if_neg hprint))
    rw [if_neg hprint, typed, hkey]
    exact ⟨e, s, rfl, hI, hS, fun _ ↦ rfl⟩

/-- Lines that could be joined can still be joined after a key. -/
theorem joinable_typed {t : Text UInt8} {c : UInt8} (h : t.Joinable nanoWidth)
    (hfits : t.Fits nanoWidth nanoMaxLines) : (typed t c).Joinable nanoWidth := by
  rw [typed]
  cases keyEdit c with
  | none => exact h
  | some e => exact h.edit hfits.cur_le

/-! ## Opening -/

/-- The lines of an editor that has just been opened on a text: there is always one. -/
def fileLines (text : List UInt8) : List (List UInt8) :=
  if text = [] then [[]] else loaded text

theorem length_loaded_le (text : List UInt8) : (loaded text).length ≤ nanoMaxLines := by
  rw [loaded, length_clipLines]
  exact Nat.min_le_left _ _

theorem loaded_ne_nil {text : List UInt8} (h : text ≠ []) : loaded text ≠ [] := by
  obtain ⟨t, u, _, _, _, hsplit⟩ := exists_splitLines_eq 0x0A h
  rw [loaded, hsplit]
  exact List.cons_ne_nil _ _

/-- The text of an editor that has just been opened. -/
theorem shows_start {ls : Lines} {str : Nat → List UInt8} {l : List UInt8}
    {rest : List (List UInt8)} (hs : LinesHold ls str) (hle : (l :: rest).length ≤ nanoMaxLines)
    (hstr : ∀ i t, (l :: rest)[i]? = some t → str i = t) :
    Shows ⟨ls, (l :: rest).length, 0, 0, false, true⟩ (Text.start l rest) :=
  ⟨rfl, rfl, rfl, hle, str, hs, textAt_iff.mpr hstr⟩

/-- **Opening a file** whose lines are all allocated: the editor shows the text of the file, if
there is memory to read it, and another one if not. -/
theorem nanoOpen_spec (hI : Inv tight s others) (hn : Holds filename n) (junk : Mem)
    {b : NanoBlocks} (hlen : b.ptrs.length = nanoMaxLines) (hall : ∀ p ∈ b.ptrs, p ≠ null) :
    ∃ text e s' l rest, nanoOpen junk filename b s = some (e, s') ∧ Inv tight s' others ∧
      fileLines text = l :: rest ∧ Shows e (Text.start l rest) ∧ e.running = true ∧
      SameFiles s s' ∧
      (∀ i c, slotOf s n = some i → s.contents i = some c → 0 ∉ c → ReadSucceeds s n →
        text = c) := by
  obtain ⟨text, ls, s', str, hread, hs, hnil, hstr, hI', hsame, htext⟩ :=
    (linesHold_nanoLine junk hlen hall).nanoRead_spec hI hn junk
  have hopen : nanoOpen junk filename b s =
      some (⟨ls, (max 1 (loaded text).length : Nat), 0, 0, false, true⟩, s') := by
    simp only [nanoOpen, hread, Option.bind_eq_bind, Option.bind_some]
    rfl
  by_cases hempty : text = []
  · have hfile : fileLines text = [] :: [] := if_pos hempty
    have hone : max 1 (loaded text).length = ([[]] : List (List UInt8)).length := by
      rw [hempty]
      rfl
    rw [hone] at hopen
    refine ⟨text, _, s', [], [], hopen, hI', hfile, shows_start hs (by decide) ?_, rfl, hsame,
      htext⟩
    intro i t ht
    rw [hnil hempty]
    exact (List.mem_singleton.mp (List.mem_of_getElem? ht)).symm
  · obtain ⟨l, rest, hcons⟩ := List.exists_cons_of_ne_nil (loaded_ne_nil hempty)
    have hfile : fileLines text = l :: rest := (if_neg hempty).trans hcons
    have hcount : max 1 (loaded text).length = (l :: rest).length := by
      rw [hcons]
      exact Nat.max_eq_right (Nat.succ_le_succ (Nat.zero_le _))
    rw [hcount] at hopen
    rw [hcons] at hstr
    exact ⟨text, _, s', l, rest, hopen, hI', hfile,
      shows_start hs (hcons ▸ length_loaded_le text) hstr, rfl, hsame, htext⟩

/-- **Opening a file that exists**: if all allocations succeed, the editor shows its contents. -/
theorem open_spec {s₁ : Sys} {i : Slot} {c : List UInt8} {b : NanoBlocks} (hI : Inv tight s others)
    (hn : Holds filename n) (hslot : slotOf s n = some i) (hc : s.contents i = some c) (h0 : 0 ∉ c)
    (halloc : nanoAllocate filename s = some (some b, s₁)) (hall : ∀ p ∈ b.ptrs, p ≠ null)
    (hread : ReadSucceeds s₁ n) (junk : Mem) :
    ∃ e s₂ others' l rest, nanoOpen junk filename b s₁ = some (e, s₂) ∧ Inv tight s₂ others' ∧
      b.Owned others' ∧ SameFiles s s₂ ∧ fileLines c = l :: rest ∧ Shows e (Text.start l rest) ∧
      e.running = true := by
  obtain ⟨blocks, s₁', others', halloc', hI₁, hblocks, hsame⟩ := nanoAllocate_spec hI hn
  cases halloc'.symm.trans halloc
  have hsame₁ : SameFiles s s₁ := hsame (by rw [hslot]; rfl)
  obtain ⟨hlen, howned⟩ := hblocks b rfl
  obtain ⟨text, e, s₂, l, rest, hopen, hI₂, hlines, hS, hrunning, hsame₂, htext⟩ :=
    nanoOpen_spec hI₁ hn junk hlen hall
  obtain rfl : text = c :=
    htext i c ((hsame₁.slotOf_eq n).trans hslot) ((hsame₁.contents i).trans hc) h0 hread
  exact ⟨e, s₂, others', l, rest, hopen, hI₂, howned, hsame₁.trans hsame₂, hlines, hS, hrunning⟩

/-! ## Bounds -/

/-- The cursor of the editor is in the text, and every line is terminated within its block. -/
structure InBounds (e : Nano) : Prop where
  /-- there is a line, and there are not too many -/
  numLines : 1 ≤ e.numLines ∧ e.numLines ≤ nanoMaxLines
  /-- the cursor is in one of them -/
  curLine : 0 ≤ e.curLine ∧ e.curLine < e.numLines
  /-- and not behind its end -/
  curCol : 0 ≤ e.curCol ∧ ∃ len, (lineAt e.lines e.curLine).bind strlen = some len ∧ e.curCol ≤ len
  /-- there are `NANO_MAX_LINES` blocks -/
  length : e.lines.length = nanoMaxLines
  /-- and in each a string of at most 79 characters -/
  line : ∀ i < nanoMaxLines, ∃ buf str, e.lines[i]? = some (some buf) ∧
    buf.length = nanoLineLen ∧ Holds buf str ∧ str.length ≤ 79

theorem Shows.inBounds {e : Nano} {t : Text UInt8} (hS : Shows e t) : InBounds e := by
  obtain ⟨str, hs, ht⟩ := hS.lines
  have hle := hS.height_le
  have hnum := hS.numLines
  rw [Text.length_lines] at hle hnum
  have hcur := hS.curLine
  refine ⟨⟨?_, ?_⟩, ⟨?_, ?_⟩, ⟨?_, _, hS.strlen_cur, ?_⟩, hs.length, fun i hi ↦ ?_⟩
  · omega
  · rw [hnum]
    exact_mod_cast hle
  · omega
  · omega
  · rw [hS.curCol]
    exact Int.natCast_nonneg _
  · rw [hS.curCol]
    exact_mod_cast Nat.le_add_right _ _
  · obtain ⟨buf, hget, hlen, hb⟩ := hs.line i hi
    exact ⟨buf, str i, hget, hlen, hb, Nat.le_of_lt_succ (hs.lt hi)⟩

/-- What holds of the editor, the filesystem and the heap between two keys. -/
def NanoOk (others : Live) (x : Nano × Sys) : Prop :=
  Inv False x.2 others ∧ ∃ t, Shows x.1 t ∧ t.Joinable nanoWidth

/-- Every key is handled, and keeps the invariant. -/
theorem NanoOk.key {x : Nano × Sys} (h : NanoOk others x) (hname : ∃ n, Holds filename n)
    (junk : Mem) (c : UInt8) :
    ∃ y, nanoKey junk filename c x.1 x.2 = some y ∧ NanoOk others y := by
  obtain ⟨hI, t, hS, hj⟩ := h
  obtain ⟨e', s', hstep, hI', hS', _⟩ := hS.key hI hname junk fun _ ↦ hj.joinFits
  exact ⟨(e', s'), hstep, hI', typed t c, hS', joinable_typed hj hS.fits⟩

/-- **The editor stays within its lines.**  After any use of the filesystem, and whatever the
file contains, an editor whose lines were all allocated opens the file, and handles every key
of every run: no access is outside a line, and the cursor and the lines are in bounds. -/
theorem run_inBounds {w₀ w : World} {acts : List (Act (Option Slot))} (hb : Booted w₀)
    (hr : Run WorldStep w₀ acts w) (hname : ∃ n, Holds filename n) (junk : Mem)
    {b : NanoBlocks} {s₁ : Sys} (halloc : nanoAllocate filename w.sys = some (some b, s₁))
    (hall : ∀ p ∈ b.ptrs, p ≠ null) :
    ∃ e s, nanoOpen junk filename b s₁ = some (e, s) ∧
      ∀ keys e' s', Run (NanoStep filename) (e, s) keys (e', s') →
        InBounds e' ∧ ∀ junk c, (nanoKey junk filename c e' s').isSome := by
  have hI := Inv.run hb.inv.1 hr
  obtain ⟨n, hn⟩ := hname
  obtain ⟨blocks, s₂, others', halloc', hI₁, hblocks, _⟩ := nanoAllocate_spec hI hn
  cases halloc'.symm.trans halloc
  obtain ⟨_, e, s, l, rest, hopen, hI₂, _, hS, _⟩ := nanoOpen_spec hI₁ hn junk
    (hblocks b rfl).1 hall
  refine ⟨e, s, hopen, fun keys e' s' hrun ↦ ?_⟩
  have hok : NanoOk others' (e', s') := by
    refine hrun.invariant (I := NanoOk others') ?_ ⟨hI₂, _, hS, Text.joinable_start l rest⟩
    rintro x c y hx ⟨_, junk, hstep⟩
    obtain ⟨y', hstep', hy⟩ := hx.key ⟨n, hn⟩ junk c
    cases hstep'.symm.trans hstep
    exact hy
  refine ⟨?_, fun junk c ↦ ?_⟩
  · obtain ⟨_, t, hS', _⟩ := hok
    exact hS'.inBounds
  · obtain ⟨y, hstep, _⟩ := hok.key ⟨n, hn⟩ junk c
    exact Option.isSome_iff_exists.mpr ⟨y, hstep⟩

/-- Every key but Ctrl+X is handled, and done to the text. -/
theorem Shows.exists_run {e : Nano} {t : Text UInt8} {keys : List UInt8} (hS : Shows e t)
    (hI : Inv tight s others) (hname : ∃ n, Holds filename n) (hj : t.Joinable nanoWidth)
    (hrunning : e.running = true) (hexit : 24 ∉ keys) :
    ∃ e' s', Run (NanoStep filename) (e, s) keys (e', s') ∧ Inv tight s' others ∧
      Shows e' (keys.foldl typed t) ∧ e'.running = true := by
  induction keys generalizing e s t with
  | nil => exact ⟨e, s, .nil _, hI, hS, hrunning⟩
  | cons c keys ih =>
      rw [List.mem_cons, not_or] at hexit
      obtain ⟨e₁, s₁, hkey, hI₁, hS₁, hrun⟩ := hS.key hI hname (fun _ ↦ 0) fun _ ↦ hj.joinFits
      obtain ⟨e', s', hrest, hI', hS', hrunning'⟩ := ih hS₁ hI₁ (joinable_typed hj hS.fits)
        ((hrun (Ne.symm hexit.1)).trans hrunning) hexit.2
      exact ⟨e', s', .cons ⟨hrunning, _, hkey⟩ hrest, hI', hS', hrunning'⟩

/-- The file `a` with the contents `c` is opened: in the state `s`, with the lines `b`, by the
editor `e`, which leaves the state `s₂`.  All allocations succeed. -/
structure Opened (c : List UInt8) (i : Slot) (s : Sys) (b : NanoBlocks) (s₁ : Sys) (e : Nano)
    (s₂ : Sys) : Prop where
  /-- the file -/
  slot : slotOf s [0x61] = some i
  /-- its contents -/
  contents : s.contents i = some c
  /-- the lines are allocated -/
  alloc : nanoAllocate [0x61, 0] s = some (some b, s₁)
  /-- all of them -/
  ptrs : ∀ p ∈ b.ptrs, p ≠ null
  /-- there is memory for the contents -/
  read : ReadSucceeds s₁ [0x61]
  /-- they are read -/
  opens : nanoOpen (fun _ ↦ 0) [0x61, 0] b s₁ = some (e, s₂)

/-- **There is such an editor** for any contents, with memory to spare. -/
theorem exists_opened {c : List UInt8} (hne : c ≠ []) (hle : c.length ≤ fsMaxFilesize)
    (h0 : 0 ∉ c) :
    ∃ w i b s₁ e s₂ others l rest, Run WorldStep (bootWorld (Clients.init fun _ ↦ 0))
        [.fs false (.create (some [0x61, 0])) (.ofCode 0),
          .fs false (.write (some i) (some c) c.length) (.ofCode c.length)] w ∧
      Opened c i w.sys b s₁ e s₂ ∧ Inv False s₂ others ∧ b.Owned others ∧ SameFiles w.sys s₂ ∧
      fileLines c = l :: rest ∧ Shows e (Text.start l rest) ∧ e.running = true ∧
      Spare s₂.heap saveCost := by
  obtain ⟨w, i, hr, hslot, hc, hs⟩ := exists_file hne hle
  have hb := booted_bootWorld (w := Clients.init fun _ ↦ 0) ⟨_, [], .nil _⟩
  have hn : Holds [0x61, 0] [0x61] := ⟨by decide, [], rfl⟩
  have hI := Inv.run hb.inv.1 hr
  have hcost : nanoCost + (readCost + saveCost) ≤ heapSize - (c.length + overhead) := by
    have hheap : nanoCost + (readCost + saveCost) + (fsMaxFilesize + overhead) ≤ heapSize := by
      decide
    omega
  obtain ⟨b, s₁, halloc, hall, hs₁⟩ := nanoAllocate_spare hI hn
    (Nat.le_trans hcost (Nat.sub_le _ _)) (hs.mono hcost)
  obtain ⟨blocks, s₁', others', halloc', hI₁, _⟩ := nanoAllocate_spec hI hn
  cases halloc'.symm.trans halloc
  have hread := readSucceeds_of_spare (n := [0x61]) hI₁ (hs₁.mono (Nat.le_add_right _ _))
  obtain ⟨e, s₂, others₂, l, rest, hopen, hI₂, howned, hsame, hlines, hS, hrunning⟩ :=
    open_spec hI hn hslot hc h0 halloc hall hread fun _ ↦ 0
  exact ⟨w, i, b, s₁, e, s₂, others₂, l, rest, hr, ⟨hslot, hc, halloc, hall, hread, hopen⟩, hI₂,
    howned, hsame, hlines, hS, hrunning, nanoOpen_spare hI₁ (by decide) hs₁ hopen⟩

/-- An editor on a new file, in a heap of its own. -/
theorem nanoAllocate_boot : ∃ b s, nanoAllocate [0x61, 0]
      (bootWorld (Clients.init fun _ ↦ 0)).sys = some (some b, s) ∧ ∀ p ∈ b.ptrs, p ≠ null := by
  have hn : Holds [0x61, 0] [0x61] := ⟨by decide, [], rfl⟩
  have hI : Inv True (bootWorld (Clients.init fun _ ↦ 0)).sys _ :=
    (booted_bootWorld ⟨_, [], .nil _⟩).inv.1
  have hs : Spare (bootWorld (Clients.init fun _ ↦ 0)).sys.heap (nanoCost + 0) :=
    (spare_init _).mono (by decide)
  obtain ⟨b, s, halloc, hall, _⟩ := nanoAllocate_spare hI hn (by decide) hs
  exact ⟨b, s, halloc, hall⟩

/-- A file of two lines is opened, a line is broken, two are joined, and one is broken again. -/
theorem run_inBounds_edited : ∃ w i b s₁ e s e' s',
    Run WorldStep (bootWorld (Clients.init fun _ ↦ 0))
      [.fs false (.create (some [0x61, 0])) (.ofCode 0),
        .fs false (.write (some i) (some [0x61, 0x62, 0x0A, 0x63]) 4) (.ofCode 4)] w ∧
    Opened [0x61, 0x62, 0x0A, 0x63] i w.sys b s₁ e s ∧
    Run (NanoStep [0x61, 0]) (e, s) [0x78, 0x0D, 0x79, 8, 8, 0x0D] (e', s') ∧
    LinesFrom e'.lines 0 [[0x78], [0x61, 0x62], [0x63]] ∧ e'.numLines = 3 ∧ e'.curLine = 1 ∧
    InBounds e' ∧ ∀ junk c, (nanoKey junk [0x61, 0] c e' s').isSome := by
  have hb := booted_bootWorld (w := Clients.init fun _ ↦ 0) ⟨_, [], .nil _⟩
  have hname : ∃ n, Holds [0x61, 0] n := ⟨[0x61], by decide, [], rfl⟩
  obtain ⟨w, i, b, s₁, e, s, others, l, rest, hr, ho, hI, _, _, hlines, hS, hrunning, _⟩ :=
    exists_opened (c := [0x61, 0x62, 0x0A, 0x63]) (by decide) (by decide) (by decide)
  have hfile : fileLines [0x61, 0x62, 0x0A, 0x63] = [0x61, 0x62] :: [[0x63]] := by decide
  obtain ⟨rfl, rfl⟩ := List.cons.inj (hlines.symm.trans hfile)
  obtain ⟨e', s', hkeys, _, hS', _⟩ := hS.exists_run hI hname (Text.joinable_start _ _) hrunning
    (by decide : 24 ∉ ([0x78, 0x0D, 0x79, 8, 8, 0x0D] : List UInt8))
  obtain ⟨e₁, s₂, hopen, hbounds⟩ := run_inBounds hb hr hname (fun _ ↦ 0) ho.alloc ho.ptrs
  cases ho.opens.symm.trans hopen
  obtain ⟨hin, hnext⟩ := hbounds _ e' s' hkeys
  exact ⟨w, i, b, s₁, e, s, e', s', hr, ho, hkeys, hS'.linesFrom, hS'.numLines, hS'.curLine, hin,
    hnext⟩

end KontolOS.Shell
