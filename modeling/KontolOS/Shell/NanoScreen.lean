import Mathlib.Data.List.GetD
import KontolOS.Shell.NanoDraw
import KontolOS.Shell.NanoRoundTrip

/-!
# The text that is edited is on the screen

The lines of the editor do not scroll.  So the row of the hardware cursor displays the line that is
edited as long as this is one of the first 22, and what else is drawn stays out of the rest of that
row (`run_cursorShown`).  Of texts without control characters all of the latter is true, and so is
the first part needed (`cursorVisible_iff`): on the 23rd line the cursor is in the status bar.
-/

namespace KontolOS.Shell

open KontolOS.Lib KontolOS.Memory KontolOS.Strings KontolOS.Fs KontolOS.Drivers

variable {filename n : List UInt8} {e : Nano} {v : Vga} {p : Sheet UInt8} {i : Nat}
  {others : Live} {s : Sys} {x : Nano × Sys} {junk : Mem}

/-! ## The line of the cursor -/

/-- The text of the line of the cursor. -/
def Nano.curText (e : Nano) : List UInt8 := lineText e.lines e.line

/-- The place on the screen where the row of the cursor begins. -/
def Nano.rowStart (e : Nano) : Nat := (e.line + 1) * vgaWidth

/-- **When the line of the cursor is on the screen.**  The title and the lines above may take
the places of its text, which is drawn later, but not the rest of its row. -/
structure CursorVisible (n : List UInt8) (e : Nano) : Prop where
  /-- the line is one of those that are drawn -/
  line_lt : e.line < 22
  /-- there are no control characters in it -/
  ordinary : ∀ c ∈ e.curText, Ordinary c
  /-- the title stays out of the rest of its row -/
  title : StaysTo (e.rowStart + e.curText.length) (titleText n e.modified) 0
  /-- the lines above do so, too -/
  above : ∀ i < e.line,
    StaysTo (e.rowStart + e.curText.length) (lineText e.lines i) ((i + 1) * vgaWidth)
  /-- the lines below do not scroll the screen -/
  below : ∀ i, e.line < i → i < 22 → i < e.numLines →
    StaysTo (vgaHeight * vgaWidth - 1) (lineText e.lines i) ((i + 1) * vgaWidth)

/-- **The text that is edited is on the screen**, and the cursor is where it is edited. -/
structure CursorShown (e : Nano) (v : Vga) : Prop where
  /-- the hardware cursor is on the screen -/
  pos_lt : hardwareCursor v < 80 * 25
  /-- its column is `cur_col` -/
  col : (hardwareCursor v % 80 : Nat) = e.curCol
  /-- its row displays `lines[cur_line]`, with blanks behind -/
  row : ∀ j < 80, charAt v (hardwareCursor v / 80 * 80 + j) =
    (lineText e.lines e.curLine.toNat).getD j 0x20

/-- On the sheet, the row of the cursor is right from column `k` on. -/
def RowFrom (e : Nano) (k : Nat) (p : Sheet UInt8) : Prop :=
  ∀ j, k ≤ j → j < vgaWidth → p.cell (e.rowStart + j) = e.curText.getD j 0x20

/-- What is typed in another row, or up to that column, does not matter. -/
theorem RowFrom.typeText {k stop : Nat} {text : List UInt8} (h : RowFrom e k p)
    (hstays : StaysTo stop text p.pos)
    (hout : e.rowStart + vgaWidth ≤ p.pos / vgaWidth * vgaWidth ∨ stop ≤ e.rowStart + k) :
    RowFrom e k (typeText p text) := by
  intro j hk hj
  refine (Sheet.cell_foldl_type hstays ?_).trans (h j hk hj)
  change _ < p.pos / vgaWidth * vgaWidth ∨ _
  omega

/-- The line of the cursor is typed over what is there. -/
theorem RowFrom.typeCurText (h : RowFrom e e.curText.length p) (hpos : p.pos = e.rowStart)
    (hord : ∀ c ∈ e.curText, Ordinary c) : RowFrom e 0 (Drivers.typeText p e.curText) := by
  intro j _ hj
  rw [Drivers.typeText, map_stroke hord, Sheet.cell_foldl_put, hpos]
  simp only [if_pos (Nat.le_add_right _ _), Nat.add_sub_cancel_left]
  rcases Nat.lt_or_ge j e.curText.length with hlt | hge
  · rw [List.getD_eq_getElem _ _ hlt, List.getD_eq_getElem _ _ hlt]
  · rw [List.getD_eq_default _ _ hge]
    exact h j hge hj

/-- The text of the line of the cursor ends on the screen. -/
theorem CursorVisible.textEnd_lt (hvis : CursorVisible n e) (h : Drawable e) :
    e.rowStart + e.curText.length < vgaHeight * vgaWidth := by
  have hline := hvis.line_lt
  have hlen : e.curText.length ≤ 79 :=
    h.length_le (Nat.lt_trans hline (by decide : 22 < nanoMaxLines))
  change (e.line + 1) * 80 + e.curText.length < 25 * 80
  omega

/-- **The step lemma of the loop over the lines**: the row of the cursor is right behind its text
before the text is drawn, and all of it after that. -/
theorem CursorVisible.drawLine (hvis : CursorVisible n e) (h : Drawable e)
    (hi : i < min 22 e.numLines.toNat)
    (hrow : RowFrom e (if e.line < i then 0 else e.curText.length) p) :
    ∃ stop < vgaHeight * vgaWidth, StaysTo stop (lineText e.lines i) ((i + 1) * vgaWidth + 0) ∧
      RowFrom e (if e.line < i + 1 then 0 else e.curText.length)
        (typeText ⟨(i + 1) * vgaWidth + 0, p.cell⟩ (lineText e.lines i)) := by
  have hline := hvis.line_lt
  have hstart : e.rowStart = (e.line + 1) * 80 := rfl
  have hlast := hvis.textEnd_lt h
  rcases Nat.lt_trichotomy i e.line with hlt | rfl | hgt
  · rw [if_neg (by omega)] at hrow ⊢
    refine ⟨_, hlast, hvis.above i hlt,
      RowFrom.typeText hrow (hvis.above i hlt) (.inr (Nat.le_refl _))⟩
  · rw [if_neg (by omega)] at hrow
    rw [if_pos (Nat.lt_succ_self _)]
    have hstays : StaysTo (e.rowStart + e.curText.length) (lineText e.lines e.line)
        ((e.line + 1) * vgaWidth + 0) := (staysTo_iff hvis.ordinary).mpr (Nat.le_refl _)
    exact ⟨_, hlast, hstays, RowFrom.typeCurText hrow rfl hvis.ordinary⟩
  · rw [if_pos (by omega)] at hrow ⊢
    have hstays := hvis.below i hgt (by omega) (by omega)
    refine ⟨_, by decide, hstays, RowFrom.typeText hrow hstays (.inl ?_)⟩
    change e.rowStart + 80 ≤ ((i + 1) * 80 + 0) / 80 * 80
    omega

/-- **The redraw shows the line of the cursor.** -/
theorem Drawable.cursorShown (h : Drawable e) (hn : Holds filename n) (hvis : CursorVisible n e)
    (start stop : UInt8) (v : Vga) :
    ∃ v', nanoDraw start stop filename e v = some v' ∧ CursorShown e v' := by
  obtain ⟨hcur, hnum⟩ := h.curLine
  obtain ⟨hcol, hcol'⟩ := h.curCol
  have hwidth : nanoWidth = 79 := rfl
  have hline := hvis.line_lt
  have hstart : e.rowStart = (e.line + 1) * 80 := rfl
  have hlast := hvis.textEnd_lt h
  have h₀ : RowFrom e (if e.line < 0 then 0 else e.curText.length)
      (typeText ⟨0, fun _ ↦ 0x20⟩ (titleText n e.modified)) := by
    rw [if_neg (Nat.not_lt_zero _)]
    refine RowFrom.typeText ?_ hvis.title (.inr (Nat.le_refl _))
    exact fun j hj _ ↦ (List.getD_eq_default _ _ hj).symm
  obtain ⟨p, w, hrow, hw, hdraw⟩ := h.nanoDraw_images hn
    (I := fun i p ↦ RowFrom e (if e.line < i then 0 else e.curText.length) p) hvis.title hlast h₀
    (fun i p hi hrow ↦ hvis.drawLine h hi hrow) start stop v
  rw [if_pos (by omega)] at hrow
  have hcolNat : e.curCol.toNat ≤ nanoWidth := by omega
  have hstays := staysTo_statusText (Nat.lt_trans hline (by decide : 22 < nanoMaxLines)) hcolNat
  have hrow' := RowFrom.typeText (p := ⟨23 * vgaWidth + 0, p.cell⟩) hrow hstays (.inl (by
    change e.rowStart + 80 ≤ (23 * 80 + 0) / 80 * 80
    omega))
  have hrowLt : e.line + 1 < vgaHeight := Nat.lt_of_lt_of_le (Nat.succ_lt_succ hline) (by decide)
  have hcolLt : e.curCol.toNat < vgaWidth := by
    change _ < 80
    omega
  have hfinal := (hw.vgaSetCursor hrowLt hcolLt).vgaShowCursor start stop
  have hcursor : hardwareCursor (vgaShowCursor start stop
      (vgaSetCursor (e.line + 1) e.curCol.toNat w)) = e.rowStart + e.curCol.toNat :=
    hfinal.cursor_eq
  refine ⟨_, hdraw, ?_, ?_, fun j hj ↦ ?_⟩
  · exact hcursor.trans_lt hfinal.pos_lt
  · rw [hcursor]
    omega
  · have hdiv : (e.rowStart + e.curCol.toNat) / 80 * 80 = e.rowStart := by omega
    have hin : e.rowStart + j < vgaHeight * vgaWidth := by
      change _ < 25 * 80
      omega
    rw [hcursor, hdiv, hfinal.char_eq _ hin]
    exact hrow' j (Nat.zero_le j) hj

/-! ## Texts without control characters -/

/-- **The line of the cursor is on the screen exactly if it is one of the first 22**, where no
control characters are drawn and the title is not too long for its row. -/
theorem Drawable.cursorVisible_iff (h : Drawable e)
    (htitle : ∀ c ∈ titleText n e.modified, Ordinary c)
    (hlen : (titleText n e.modified).length ≤ vgaWidth)
    (hlines : ∀ i : Nat, i < 22 → i < e.numLines → ∀ c ∈ lineText e.lines i, Ordinary c) :
    CursorVisible n e ↔ e.line < 22 := by
  refine ⟨fun hvis ↦ hvis.line_lt, fun hline ↦ ?_⟩
  have hcur := h.curLine
  have hstart : e.rowStart = (e.line + 1) * 80 := rfl
  have hshort : ∀ i < 22, (lineText e.lines i).length ≤ 79 := fun i hi ↦
    h.length_le (Nat.lt_trans hi (by decide))
  refine ⟨hline, hlines _ hline (by omega), ?_, fun i hi ↦ ?_, fun i _ hi hnum ↦ ?_⟩
  · change (titleText n e.modified).length ≤ 80 at hlen
    rw [staysTo_iff htitle]
    omega
  · have hlen' := hshort i (by omega)
    rw [staysTo_iff (hlines i (by omega) (by omega))]
    change (i + 1) * 80 + _ ≤ _
    omega
  · have hlen' := hshort i hi
    rw [staysTo_iff (hlines i hi hnum)]
    change (i + 1) * 80 + _ ≤ 25 * 80 - 1
    omega

/-! ## Runs -/

/-- Every run of keys ends in an editor that can be drawn. -/
theorem run_drawable {w₀ w : World} {acts : List (Act (Option Slot))} (hb : Booted w₀)
    (hr : Run WorldStep w₀ acts w) (hn : Holds filename n) {b : NanoBlocks} {s₁ s₂ : Sys}
    (halloc : nanoAllocate filename w.sys = some (some b, s₁)) {e₀ : Nano}
    (hopen : nanoOpen junk filename b s₁ = some (e₀, s₂)) {keys : List UInt8}
    (hrun : Run (NanoStep filename) (e₀, s₂) keys (e, s)) : Drawable e := by
  obtain ⟨_, _, others, halloc', hI, hblocks, _⟩ := nanoAllocate_spec (Inv.run hb.inv.1 hr) hn
  cases halloc'.symm.trans halloc
  have hopened : PartlyNull others (e₀, s₂) := partlyNull_nanoOpen hI hn (hblocks b rfl).1 hopen
  have hreached : PartlyNull others (e, s) := by
    refine hrun.invariant (I := PartlyNull others) ?_ hopened
    rintro x c y hx ⟨_, junk, hkey⟩
    exact hx.key ⟨n, hn⟩ hkey
  exact hreached.drawable

/-- **The text that is edited is on the screen.**  After any use of the filesystem and the heap,
whatever the file contains and whichever lines could be allocated, in every run of keys: if the
line of the cursor is one of the first 22 then, and what else is drawn stays out of the rest of its
row, the redraw ends with the hardware cursor in the column `cur_col` of a row that displays
`lines[cur_line]`. -/
theorem run_cursorShown {w₀ w : World} {acts : List (Act (Option Slot))} (hb : Booted w₀)
    (hr : Run WorldStep w₀ acts w) (hn : Holds filename n) {b : NanoBlocks} {s₁ s₂ : Sys}
    (halloc : nanoAllocate filename w.sys = some (some b, s₁)) {e₀ : Nano}
    (hopen : nanoOpen junk filename b s₁ = some (e₀, s₂)) {keys : List UInt8}
    (hrun : Run (NanoStep filename) (e₀, s₂) keys (e, s)) (hvis : CursorVisible n e)
    (start stop : UInt8) (v : Vga) :
    ∃ v', nanoDraw start stop filename e v = some v' ∧ CursorShown e v' :=
  (run_drawable hb hr hn halloc hopen hrun).cursorShown hn hvis start stop v

/-! ## A file of one character -/

/-- The title for the file `a`. -/
theorem ordinary_titleText (modified : Bool) :
    (∀ c ∈ titleText [0x61] modified, Ordinary c) ∧
      (titleText [0x61] modified).length ≤ vgaWidth := by
  cases modified
  · exact ⟨ordinary_of_all (by decide), by decide⟩
  · exact ⟨ordinary_of_all (by decide), by decide⟩

/-- An editor that has opened a file with one character in it. -/
theorem exists_opened_one : ∃ (w : World) (acts : List (Act (Option Slot))) (b : NanoBlocks)
    (s₁ : Sys) (e : Nano) (s : Sys) (others : Live),
    Run WorldStep (bootWorld (Clients.init fun _ ↦ 0)) acts w ∧
    nanoAllocate [0x61, 0] w.sys = some (some b, s₁) ∧
    nanoOpen (fun _ ↦ 0) [0x61, 0] b s₁ = some (e, s) ∧ Inv False s others ∧
    Shows e (Text.start [0x78] []) ∧ e.running = true := by
  obtain ⟨w, i, b, s₁, e, s, others, l, rest, hr, ho, hI, _, _, hlines, hS, hrunning, _⟩ :=
    exists_opened (c := [0x78]) (by decide) (by decide) (by decide)
  have hfile : fileLines [0x78] = [0x78] :: [] := by decide
  obtain ⟨rfl, rfl⟩ := List.cons.inj (hlines.symm.trans hfile)
  exact ⟨w, _, b, s₁, e, s, others, hr, ho.alloc, ho.opens, hI, hS, hrunning⟩

/-- A character is typed in front of the one of the file, and the line is broken between them: the
second line is on the screen. -/
theorem run_cursorShown_second : ∃ w acts b s₁ e₀ s₂ e s v,
    Run WorldStep (bootWorld (Clients.init fun _ ↦ 0)) acts w ∧
    nanoAllocate [0x61, 0] w.sys = some (some b, s₁) ∧
    nanoOpen (fun _ ↦ 0) [0x61, 0] b s₁ = some (e₀, s₂) ∧
    Run (NanoStep [0x61, 0]) (e₀, s₂) [0x79, 0x0D] (e, s) ∧
    nanoDraw 0 0 [0x61, 0] e (vgaInit fun _ ↦ 0) = some v ∧
    e.line = 1 ∧ e.curText = [0x78] ∧ CursorShown e v := by
  obtain ⟨w, acts, b, s₁, e₀, s₂, _, hr, halloc, hopen, hI, hS₀, hrunning⟩ := exists_opened_one
  have hb := booted_bootWorld (w := Clients.init fun _ ↦ 0) ⟨_, [], .nil _⟩
  have hn : Holds [0x61, 0] [0x61] := ⟨by decide, [], rfl⟩
  obtain ⟨e, s, hrun, _, hS, _⟩ := hS₀.exists_run hI ⟨_, hn⟩ (Text.joinable_start _ _) hrunning
    (by decide : 24 ∉ ([0x79, 0x0D] : List UInt8))
  have hline : e.line = 1 := by
    rw [Nano.line, hS.curLine]
    rfl
  have hfirst : lineText e.lines 0 = [0x79] := hS.lineText_eq rfl
  have hsecond : lineText e.lines 1 = [0x78] := hS.lineText_eq rfl
  have hvis : CursorVisible [0x61] e := by
    obtain ⟨htitle, hlen⟩ := ordinary_titleText e.modified
    refine ((run_drawable hb hr hn halloc hopen hrun).cursorVisible_iff htitle hlen ?_).mpr
      (hline ▸ by decide)
    intro i _ hi
    have hnum : e.numLines = 2 := hS.numLines
    rw [hnum] at hi
    obtain rfl | rfl : i = 0 ∨ i = 1 := by omega
    · rw [hfirst]
      exact List.forall_mem_singleton.mpr rfl
    · rw [hsecond]
      exact List.forall_mem_singleton.mpr rfl
  obtain ⟨v, hdraw, hshown⟩ :=
    run_cursorShown hb hr hn halloc hopen hrun hvis 0 0 (vgaInit fun _ ↦ 0)
  exact ⟨w, acts, b, s₁, e₀, s₂, e, s, v, hr, halloc, hopen, hrun, hdraw, hline,
    by rw [Nano.curText, hline, hsecond], hshown⟩

/-! ## The 23rd line -/

/-- Line breaks in front of a line. -/
theorem Shows.enterKeys {r : List UInt8} {j k : Nat}
    (hS : Shows e ⟨List.replicate j [], [], r, []⟩) (hI : Inv False s others)
    (hn : Holds filename n) (hrunning : e.running = true) (hk : j + k < nanoMaxLines) :
    ∃ e' s', Run (NanoStep filename) (e, s) (List.replicate k 10) (e', s') ∧
      Shows e' ⟨List.replicate (j + k) [], [], r, []⟩ := by
  induction k generalizing j e s with
  | zero => exact ⟨e, s, .nil _, hS⟩
  | succ k ih =>
      obtain ⟨e₁, s₁, hkey, hI₁, hS₁, hrun⟩ := hS.key hI ⟨n, hn⟩ (fun _ ↦ 0) (c := 10) nofun
      have htyped : typed ⟨List.replicate j [], [], r, []⟩ 10 =
          ⟨List.replicate (j + 1) [], [], r, []⟩ := by
        change Text.enter nanoMaxLines _ = _
        rw [Text.enter, if_pos]
        · rw [List.replicate_succ']
        · rw [Text.length_lines]
          change (List.replicate j _).length + 1 + 0 < _
          rw [List.length_replicate]
          omega
      rw [htyped] at hS₁
      obtain ⟨e', s', hrest, hS'⟩ := ih hS₁ hI₁ ((hrun (by decide)).trans hrunning) (by omega)
      refine ⟨e', s', .cons ⟨hrunning, _, hkey⟩ hrest, ?_⟩
      rwa [Nat.add_assoc, Nat.add_comm 1 k] at hS'

/-- **On the 23rd line the cursor is in the status bar.** -/
theorem Drawable.cursor_statusBar (h : Drawable e) (hn : Holds filename n) (hline : e.line = 22)
    {last : Nat} (htitle : StaysTo last (titleText n e.modified) 0)
    (hlast : last < vgaHeight * vgaWidth)
    (hlines : ∀ i < 22,
      StaysTo (vgaHeight * vgaWidth - 1) (lineText e.lines i) ((i + 1) * vgaWidth))
    (start stop : UInt8) (v : Vga) :
    ∃ v', nanoDraw start stop filename e v = some v' ∧ hardwareCursor v' / 80 = 23 ∧
      ∀ j < (statusText 22 e.curCol.toNat).length,
        charAt v' (23 * 80 + j) = (statusText 22 e.curCol.toNat).getD j 0x20 := by
  obtain ⟨p, w, _, hw, hdraw⟩ := h.nanoDraw_images hn (I := fun _ _ ↦ True) htitle hlast trivial
    (fun i p hi _ ↦ ⟨_, by decide, hlines i (Nat.lt_of_lt_of_le hi (Nat.min_le_left _ _)), trivial⟩)
    start stop v
  have hcol : e.curCol.toNat < vgaWidth := by
    have hwidth : nanoWidth = 79 := rfl
    have hle := h.curCol.2
    change _ < 80
    omega
  have hrow : e.line + 1 < vgaHeight := by
    rw [hline]
    decide
  have hfinal := (hw.vgaSetCursor hrow hcol).vgaShowCursor start stop
  refine ⟨_, hdraw, ?_, fun j hj ↦ ?_⟩
  · rw [hfinal.cursor_eq]
    change ((e.line + 1) * 80 + e.curCol.toNat) / 80 = 23
    change _ < 80 at hcol
    omega
  · have hle : e.curCol.toNat ≤ nanoWidth := by
      have hcur := h.curCol
      omega
    have hstays := (staysTo_iff fun c hc ↦ ordinary_statusText hc).mp
      (staysTo_statusText (by decide : 22 < nanoMaxLines) hle)
    have hin : 23 * 80 + j < vgaHeight * vgaWidth := by
      change 23 * 80 + 0 + _ ≤ 24 * 80 - 1 at hstays
      change _ < 25 * 80
      omega
    refine (hfinal.char_eq _ hin).trans ?_
    change (typeText ⟨23 * vgaWidth + 0, p.cell⟩ (statusText e.line e.curCol.toNat)).cell _ = _
    rw [hline, typeText, map_stroke fun c hc ↦ ordinary_statusText hc, Sheet.cell_foldl_put]
    change (if 23 * 80 + 0 ≤ 23 * 80 + j then _ else _) = _
    rw [if_pos (Nat.le_add_right _ _), Nat.add_zero]
    change (statusText 22 e.curCol.toNat).getD (23 * 80 + j - 23 * 80) _ = _
    rw [Nat.add_sub_cancel_left, List.getD_eq_getElem _ _ hj, List.getD_eq_getElem _ _ hj]

/-- A file with one character in it is opened, and 22 line breaks are typed in front of it.  All
lines are short.  The cursor is in the status bar then, and not in a row that displays the
character. -/
theorem not_cursorShown : ∃ (w : World) (acts : List (Act (Option Slot))) (b : NanoBlocks)
    (s₁ : Sys) (e₀ : Nano) (s₂ : Sys) (e : Nano) (s : Sys) (v : Vga),
    Run WorldStep (bootWorld (Clients.init fun _ ↦ 0)) acts w ∧
    nanoAllocate [0x61, 0] w.sys = some (some b, s₁) ∧
    nanoOpen (fun _ ↦ 0) [0x61, 0] b s₁ = some (e₀, s₂) ∧
    Run (NanoStep [0x61, 0]) (e₀, s₂) (List.replicate 22 10) (e, s) ∧
    (∀ i < nanoMaxLines, (lineText e.lines i).length ≤ 79) ∧
    nanoDraw 0 0 [0x61, 0] e (vgaInit fun _ ↦ 0) = some v ∧ ¬ CursorShown e v := by
  obtain ⟨w, acts, b, s₁, e₀, s₂, _, hr, halloc, hopen, hI, hS₀, hrunning⟩ := exists_opened_one
  have hb := booted_bootWorld (w := Clients.init fun _ ↦ 0) ⟨_, [], .nil _⟩
  have hn : Holds [0x61, 0] [0x61] := ⟨by decide, [], rfl⟩
  obtain ⟨e, s, hrun, hS⟩ := Shows.enterKeys (j := 0) (k := 22) hS₀ hI hn hrunning (by decide)
  have h : Drawable e := run_drawable hb hr hn halloc hopen hrun
  have hline : e.line = 22 := by
    rw [Nano.line, hS.curLine]
    rfl
  have hcur : lineText e.lines 22 = [0x78] := hS.lineText_eq rfl
  have hempty : ∀ i < 22, lineText e.lines i = [] := by
    intro i hi
    apply hS.lineText_eq
    have hlen : (List.replicate (0 + 22) ([] : List UInt8)).length = 22 := List.length_replicate
    rw [Text.lines, List.getElem?_append_left (by rw [hlen]; exact hi),
      List.getElem?_replicate_of_lt hi]
  obtain ⟨htitle, hlen⟩ := ordinary_titleText e.modified
  have hstays : StaysTo vgaWidth (titleText [0x61] e.modified) 0 :=
    (staysTo_iff htitle).mpr ((Nat.zero_add _).symm ▸ hlen)
  obtain ⟨v, hdraw, hrow, hbar⟩ := h.cursor_statusBar hn hline hstays (by decide)
    (fun i hi ↦ by
      rw [hempty i hi]
      change (i + 1) * 80 ≤ 25 * 80 - 1
      omega) 0 0 (vgaInit fun _ ↦ 0)
  refine ⟨w, acts, b, s₁, e₀, s₂, e, s, v, hr, halloc, hopen, hrun, fun i hi ↦ h.length_le hi,
    hdraw, fun hshown ↦ ?_⟩
  have hfirst := hshown.row 0 (by decide)
  have hpos : 0 < (statusText 22 e.curCol.toNat).length := by
    rw [statusText]
    exact Nat.zero_lt_succ _
  have hblank : (statusText 22 e.curCol.toNat).getD 0 0x20 = 0x20 := rfl
  have htoNat : e.curLine.toNat = 22 := hline
  rw [hrow, hbar 0 hpos, hblank, htoNat, hcur] at hfirst
  exact absurd hfirst (by decide)

end KontolOS.Shell
