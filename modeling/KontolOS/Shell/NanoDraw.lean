import KontolOS.Drivers.Cursor
import KontolOS.Shell.NanoModified
import KontolOS.Shell.NanoNull

/-!
# The editor draws the screen

The beginning of the loop of `cmd_nano` in `src/kernel/shell.c`: a title, the first 22 lines, a
status bar, and the hardware cursor where the text is edited.  A line that is `NULL` is left out.
Nothing of this fails, whichever lines of the editor could be allocated (`Drawable`), and what is
drawn is typed on a cleared sheet, as long as nothing scrolls (`Drawable.nanoDraw_images`).
-/

namespace KontolOS.Shell

open KontolOS.Lib KontolOS.Memory KontolOS.Strings KontolOS.Fs KontolOS.Drivers Deref

/-! ## Drawing -/

/-- The number of rounds of the loop from `i = 40 + strlen(filename)` to 80. -/
def titlePad (len : Nat) : Nat := (80 - toInt (add32 40 len)).toNat

/-- `if (modified) vga_print(" [modified]")` -/
def drawMark (modified : Bool) (v : Vga) : Option Vga :=
  if modified then vgaPrint (literal " [modified]") v else some v

/-- `for (int i = 40 + strlen(filename); i < 80; i++) vga_putchar(' ')` -/
def drawPad (filename : List UInt8) (v : Vga) : Option Vga := do
  let len ← strlen filename
  forLoop (fun _ ↦ vgaPutchar 0x20) 0 (titlePad len) v

/-- "Title bar" -/
def drawTitle (filename : List UInt8) (modified : Bool) (v : Vga) : Option Vga := do
  let v ← vgaPrint (literal "  KontolOS nano - ") (vgaSetColor 0 15 v)
  let v ← vgaPrint filename v
  let v ← drawMark modified v
  drawPad filename v

/-- The body of the loop over the lines. -/
def drawLine (ls : Lines) (i : Nat) (v : Vga) : Option Vga := do
  let line ← ls[i]?
  let v := vgaSetCursor (i + 1) 0 v
  match line with
  | some buf => vgaPrint buf v
  | none => return v

/-- "Content area": `for (int i = 0; i < 22 && i < num_lines; i++)` -/
def drawLines (e : Nano) : Vga → Option Vga :=
  forLoop (drawLine e.lines) 0 (min 22 e.numLines.toNat)

/-- "Status bar" -/
def drawStatus (e : Nano) (v : Vga) : Option Vga := do
  let v := vgaSetColor 0 7 (vgaSetCursor 23 0 v)
  let v ← vgaPrint (literal "  ^S Save  ^X Exit                                Line:") v
  let v ← vgaPrintDec (e.curLine + 1) v
  let v ← vgaPrint (literal " Col:") v
  let v ← vgaPrintDec (e.curCol + 1) v
  vgaPrint (literal "          ") v

/-- "Draw screen", up to where the key is read; `start` and `stop` are what `inb` returns. -/
def nanoDraw (start stop : UInt8) (filename : List UInt8) (e : Nano) (v : Vga) : Option Vga := do
  let v ← vgaClear v
  let v ← drawTitle filename e.modified (vgaHideCursor v)
  let v ← drawLines e (vgaSetColor 15 0 v)
  let v ← drawStatus e v
  let v := vgaSetCursor (sizeT (e.curLine + 1)) (sizeT e.curCol) (vgaSetColor 15 0 v)
  return vgaShowCursor start stop v

/-! ## What is drawn -/

/-- The line of the cursor, as a number of a line. -/
def Nano.line (e : Nano) : Nat := e.curLine.toNat

/-- The text of the title. -/
def titleText (n : List UInt8) (modified : Bool) : List UInt8 :=
  cstr (literal "  KontolOS nano - ") ++ n ++
    (if modified then cstr (literal " [modified]") else []) ++
    List.replicate (titlePad n.length) 0x20

/-- The text of the status bar. -/
def statusText (row col : Nat) : List UInt8 :=
  cstr (literal "  ^S Save  ^X Exit                                Line:") ++ decimal (row + 1) ++
    cstr (literal " Col:") ++ decimal (col + 1) ++ cstr (literal "          ")

variable {filename n : List UInt8} {e : Nano} {v v' : Vga} {p : Sheet UInt8} {i row col : Nat}
  {N : Nat → Bool} {others : Live} {s : Sys} {x y : Nano × Sys} {junk : Mem}

theorem vgaPrint_literal (text : String) (v : Vga) :
    vgaPrint (literal text) v = putDigits (cstr (literal text)) v :=
  vgaPrint_eq (Holds.of_mem (zero_mem_literal text)) v

theorem drawPad_eq (hn : Holds filename n) (v : Vga) :
    drawPad filename v = putDigits (List.replicate (titlePad n.length) 0x20) v := by
  rw [drawPad, hn.strlen_eq, Option.bind_eq_bind, Option.bind_some]
  exact forLoop_vgaPutchar _ _ _ _

theorem drawMark_eq (modified : Bool) (v : Vga) : drawMark modified v =
    putDigits (if modified then cstr (literal " [modified]") else []) v := by
  cases modified with
  | true =>
      rw [drawMark, if_pos rfl, if_pos rfl]
      exact vgaPrint_literal " [modified]" v
  | false => rfl

/-- The title, character by character. -/
theorem drawTitle_eq (hn : Holds filename n) (modified : Bool) (v : Vga) :
    drawTitle filename modified v = putDigits (titleText n modified) (vgaSetColor 0 15 v) := by
  have hprogram : vgaPrint (literal "  KontolOS nano - ") =
      putDigits (cstr (literal "  KontolOS nano - ")) := funext (vgaPrint_literal _)
  have hname : vgaPrint filename = putDigits n := funext (vgaPrint_eq hn)
  have hmark := funext (drawMark_eq modified)
  have hpad := funext (drawPad_eq hn)
  have happend := putDigits_append
  rw [drawTitle, titleText, happend, happend, happend, ← hprogram, ← hname, ← hmark, ← hpad]
  -- nothing is to be computed
  generalize vgaPrint = print, drawMark modified = mark, drawPad filename = pad
  rw [Option.bind_assoc, Option.bind_assoc]
  rfl

/-- The status bar, character by character. -/
theorem drawStatus_eq (hrow : e.curLine = row) (hcol : e.curCol = col) (hrow' : row < 2 ^ 30)
    (hcol' : col < 2 ^ 30) (v : Vga) : drawStatus e v =
      putDigits (statusText row col) (vgaSetColor 0 7 (vgaSetCursor 23 0 v)) := by
  have hrowdec : vgaPrintDec (e.curLine + 1) = putDigits (decimal (row + 1)) := by
    rw [hrow, ← Int.natCast_succ]
    exact funext (vgaPrintDec_eq (by omega))
  have hcoldec : vgaPrintDec (e.curCol + 1) = putDigits (decimal (col + 1)) := by
    rw [hcol, ← Int.natCast_succ]
    exact funext (vgaPrintDec_eq (by omega))
  simp only [drawStatus, statusText, vgaPrint_literal, hrowdec, hcoldec, putDigits_append,
    Option.bind_eq_bind, Option.bind_assoc]

theorem ordinary_decimal {c : UInt8} (hc : c ∈ decimal i) : Ordinary c := by
  obtain ⟨hge, _⟩ := mem_decimal hc
  rw [ordinary_iff]
  refine ⟨?_, ?_, ?_, ?_⟩ <;>
  · rintro rfl
    exact absurd hge (by decide)

/-- There are no control characters in the status bar. -/
theorem ordinary_statusText {c : UInt8} (hc : c ∈ statusText row col) : Ordinary c := by
  have hbar := @ordinary_of_all
    (cstr (literal "  ^S Save  ^X Exit                                Line:")) (by decide)
  have hmid := @ordinary_of_all (cstr (literal " Col:")) (by decide)
  have hend := @ordinary_of_all (cstr (literal "          ")) (by decide)
  simp only [statusText, List.mem_append] at hc
  rcases hc with (((hc | hc) | hc) | hc) | hc
  · exact hbar c hc
  · exact ordinary_decimal hc
  · exact hmid c hc
  · exact ordinary_decimal hc
  · exact hend c hc

/-- The status bar stays in its row. -/
theorem staysTo_statusText (hrow : row < nanoMaxLines) (hcol : col ≤ nanoWidth) :
    StaysTo (24 * vgaWidth - 1) (statusText row col) (23 * vgaWidth + 0) := by
  have hrow' : (decimal (row + 1)).length ≤ 2 + 1 :=
    length_decimal_le (Nat.lt_of_lt_of_le (Nat.succ_lt_succ hrow) (by decide))
  have hcol' : (decimal (col + 1)).length ≤ 1 + 1 :=
    length_decimal_le (Nat.lt_of_le_of_lt (Nat.succ_le_succ hcol) (by decide))
  have hbar :
      (cstr (literal "  ^S Save  ^X Exit                                Line:")).length = 55 := by
    decide
  have hmid : (cstr (literal " Col:")).length = 5 := by decide
  have hend : (cstr (literal "          ")).length = 10 := by decide
  refine (staysTo_iff fun c hc ↦ ordinary_statusText hc).mpr ?_
  simp only [statusText, List.length_append, hbar, hmid, hend]
  change 23 * 80 + 0 + _ ≤ 24 * 80 - 1
  omega

/-! ## Editors that can be drawn -/

theorem lineText_eq (ls : Lines) (i : Nat) : lineText ls i = cstr ((ls[i]?.join).getD []) := by
  rw [lineText, lineAt, if_pos (Int.natCast_nonneg i), Int.toNat_natCast]

/-- The lines of a text. -/
theorem Shows.lineText_eq {t : Text UInt8} (hS : Shows e t) {l : List UInt8}
    (hi : t.lines[i]? = some l) : lineText e.lines i = l := by
  obtain ⟨str, hlines, ht⟩ := hS.lines
  have hlt : i < t.lines.length := (List.getElem?_eq_some_iff.mp hi).1
  obtain ⟨buf, hget, _, hbuf⟩ := hlines.line i (Nat.lt_of_lt_of_le hlt hS.height_le)
  rw [Shell.lineText_eq, hget, ← ht.lines hi]
  exact hbuf.cstr_eq

/-- The lines are `NULL` or terminated, and the cursor is in one of them. -/
structure Drawable (e : Nano) : Prop where
  /-- the lines -/
  line : ∀ i < nanoMaxLines, e.lines[i]? = some none ∨
    ∃ buf, e.lines[i]? = some (some buf) ∧ Holds buf (lineText e.lines i) ∧
      (lineText e.lines i).length ≤ nanoWidth
  /-- there are not too many -/
  numLines : e.numLines ≤ nanoMaxLines
  /-- the cursor is in one of them -/
  curLine : e.curLine = e.line ∧ e.curLine < e.numLines
  /-- and not behind the end of the row -/
  curCol : 0 ≤ e.curCol ∧ e.curCol ≤ nanoWidth

/-- A line, character by character. -/
theorem Drawable.drawLine_eq (h : Drawable e) (hi : i < nanoMaxLines) (v : Vga) :
    drawLine e.lines i v = putDigits (lineText e.lines i) (vgaSetCursor (i + 1) 0 v) := by
  rw [drawLine]
  rcases h.line i hi with hget | ⟨buf, hget, hbuf, _⟩
  · rw [lineText_eq, hget]
    rfl
  · rw [hget]
    exact vgaPrint_eq hbuf _

/-- No line is longer than a row. -/
theorem Drawable.length_le (h : Drawable e) (hi : i < nanoMaxLines) :
    (lineText e.lines i).length ≤ nanoWidth := by
  rcases h.line i hi with hget | ⟨_, _, _, hlen⟩
  · rw [lineText_eq, hget]
    exact Nat.zero_le _
  · exact hlen

/-- The cursor is in a line that there is space for. -/
theorem Drawable.line_lt (h : Drawable e) : e.line < nanoMaxLines := by
  obtain ⟨hcur, hlt⟩ := h.curLine
  have hnum := h.numLines
  omega

theorem Drawable.curCol_eq (h : Drawable e) : e.curCol = (e.curCol.toNat : Nat) :=
  (Int.toNat_of_nonneg h.curCol.1).symm

theorem Drawable.col_le (h : Drawable e) : e.curCol.toNat ≤ nanoWidth := by
  obtain ⟨hcol, hcol'⟩ := h.curCol
  omega

/-- The numbers in the status bar are small. -/
theorem Drawable.drawStatus_eq (h : Drawable e) (v : Vga) : drawStatus e v =
    putDigits (statusText e.line e.curCol.toNat) (vgaSetColor 0 7 (vgaSetCursor 23 0 v)) :=
  Shell.drawStatus_eq h.curLine.1 h.curCol_eq (Nat.lt_trans h.line_lt (by decide))
    (Nat.lt_of_le_of_lt h.col_le (by decide)) v

/-- An editor that would be in order if its lines that are `NULL` were allocated. -/
def PartlyNull (others : Live) (x : Nano × Sys) : Prop :=
  ∃ N x', BlankedState N x x' ∧ NanoOk others x'

theorem PartlyNull.drawable (h : PartlyNull others x) : Drawable x.1 := by
  obtain ⟨N, ⟨e, s⟩, ⟨ls, rfl, hls⟩, _, t, hS, _⟩ := h
  obtain ⟨str, hlines, _⟩ := hS.lines
  have habove := hS.above_lt
  have hnum := hS.numLines
  rw [Text.length_lines] at hnum
  refine ⟨fun i hi ↦ ?_, ?_, ?_, ?_⟩
  · obtain ⟨buf, hget, _, hbuf⟩ := hlines.line i hi
    have hblank := hls i
    rw [hget] at hblank
    change ls[i]? = _ ∨ ∃ buf, ls[i]? = _ ∧ Holds buf (lineText ls i) ∧ _
    cases hN : N i with
    | true =>
        rw [hN, if_pos rfl] at hblank
        exact .inl hblank
    | false =>
        rw [hN, if_neg Bool.false_ne_true] at hblank
        have htext : lineText ls i = str i := by
          rw [lineText_eq, hblank]
          exact hbuf.cstr_eq
        rw [htext]
        exact .inr ⟨buf, hblank, hbuf, Nat.le_sub_one_of_lt (hlines.lt hi)⟩
  · change e.numLines = _ at hnum
    change e.numLines ≤ _
    omega
  · have hcur : e.curLine = t.above.length := hS.curLine
    change e.curLine = (e.curLine.toNat : Int) ∧ e.curLine < e.numLines
    change e.numLines = _ at hnum
    omega
  · have hcol : e.curCol = t.left.length := hS.curCol
    have hcur := hS.fits.cur_le
    change 0 ≤ e.curCol ∧ e.curCol ≤ nanoWidth
    omega

/-- Every key keeps this, unless it accesses a line that is `NULL`. -/
theorem PartlyNull.key (h : PartlyNull others x) (hname : ∃ n, Holds filename n) {c : UInt8}
    (hkey : Shell.nanoKey junk filename c x.1 x.2 = some y) : PartlyNull others y := by
  obtain ⟨N, x', hx, hok⟩ := h
  obtain ⟨y', hkey', hok'⟩ := hok.key hname junk c
  have htracks := tracks_nanoKey hx junk filename c
  rw [hkey', eq_ok_of_toOption ((toOption_nanoKey junk filename c x).trans hkey)] at htracks
  obtain ⟨_, ⟨⟩, hy⟩ := htracks
  exact ⟨N, y', hy, hok'⟩

/-- Opening a file, whichever lines are allocated. -/
theorem partlyNull_nanoOpen (hI : Inv False s others) (hn : Holds filename n) {b : NanoBlocks}
    (hlen : b.ptrs.length = nanoMaxLines) (hopen : Shell.nanoOpen junk filename b s = some x) :
    PartlyNull others x := by
  obtain ⟨_, e, s₁, l, rest, hopen', hI₁, _, hS, _⟩ :=
    nanoOpen_spec hI hn junk (b.length_filled.trans hlen) b.filled_ne_null
  have htracks := tracks_nanoOpen (b.blanked junk) filename s
  rw [hopen', eq_ok_of_toOption ((toOption_nanoOpen junk filename b s).trans hopen)] at htracks
  obtain ⟨_, ⟨⟩, hx⟩ := htracks
  exact ⟨b.isNull, (e, s₁), hx, hI₁, _, hS, Text.joinable_start l rest⟩

/-! ## The redraw -/

/-- The loop over the lines, with an invariant about the sheet before each line. -/
theorem Drawable.drawLines_images (h : Drawable e) {I : Nat → Sheet UInt8 → Prop}
    (hstep : ∀ i p, i < min 22 e.numLines.toNat → I i p → ∃ stop < vgaHeight * vgaWidth,
      StaysTo stop (lineText e.lines i) ((i + 1) * vgaWidth + 0) ∧
        I (i + 1) (typeText ⟨(i + 1) * vgaWidth + 0, p.cell⟩ (lineText e.lines i)))
    (hp : Images p v) (h₀ : I 0 p) :
    ∃ v' p', drawLines e v = some v' ∧ Images p' v' ∧ I (min 22 e.numLines.toNat) p' := by
  have hbody : ∀ i v, 0 ≤ i → i < 0 + min 22 e.numLines.toNat → (∃ p, Images p v ∧ I i p) →
      ∃ v', drawLine e.lines i v = some v' ∧ ∃ p', Images p' v' ∧ I (i + 1) p' := by
    rintro i v _ hi ⟨p, hp, hI⟩
    rw [Nat.zero_add] at hi
    have hlt : i < 22 := Nat.lt_of_lt_of_le hi (Nat.min_le_left _ _)
    have hrow : i + 1 < vgaHeight := Nat.lt_of_lt_of_le (Nat.succ_lt_succ hlt) (by decide)
    have hmax : i < nanoMaxLines := Nat.lt_of_lt_of_le hlt (by decide)
    obtain ⟨stop, hstop, hstays, hI'⟩ := hstep i p hi hI
    have hset := hp.vgaSetCursor hrow (by decide : 0 < vgaWidth)
    obtain ⟨v', hput, hp'⟩ := hset.putDigits hstays hstop
    exact ⟨v', by rw [h.drawLine_eq hmax, hput], _, hp', hI'⟩
  obtain ⟨v', hloop, p', hp', hI'⟩ :=
    forLoop_invariant (I := fun i v ↦ ∃ p, Images p v ∧ I i p) hbody ⟨p, hp, h₀⟩
  rw [Nat.zero_add] at hI'
  exact ⟨v', p', hloop, hp', hI'⟩

/-- **The redraw** up to where the cursor is set: on a cleared sheet are typed the title, the lines,
for which an invariant is given, and the status bar. -/
theorem Drawable.nanoDraw_images (h : Drawable e) (hn : Holds filename n)
    {I : Nat → Sheet UInt8 → Prop} {last : Nat}
    (htitle : StaysTo last (titleText n e.modified) 0) (hlast : last < vgaHeight * vgaWidth)
    (h₀ : I 0 (typeText ⟨0, fun _ ↦ 0x20⟩ (titleText n e.modified)))
    (hstep : ∀ i p, i < min 22 e.numLines.toNat → I i p → ∃ stop < vgaHeight * vgaWidth,
      StaysTo stop (lineText e.lines i) ((i + 1) * vgaWidth + 0) ∧
        I (i + 1) (typeText ⟨(i + 1) * vgaWidth + 0, p.cell⟩ (lineText e.lines i)))
    (start stop : UInt8) (v : Vga) : ∃ p w, I (min 22 e.numLines.toNat) p ∧
      Images (typeText ⟨23 * vgaWidth + 0, p.cell⟩ (statusText e.line e.curCol.toNat)) w ∧
      nanoDraw start stop filename e v =
        some (vgaShowCursor start stop (vgaSetCursor (e.line + 1) e.curCol.toNat w)) := by
  have hline := Nat.succ_le_of_lt h.line_lt
  have hcol := h.col_le
  obtain ⟨v₁, hclear, hp₁⟩ := images_vgaClear v
  obtain ⟨v₂, hput₂, hp₂⟩ := (hp₁.vgaHideCursor.vgaSetColor 0 15).putDigits htitle hlast
  obtain ⟨v₃, p₃, hdraw, hp₃, hI⟩ := h.drawLines_images hstep (hp₂.vgaSetColor 15 0) h₀
  obtain ⟨v₄, hput₄, hp₄⟩ :=
    ((hp₃.vgaSetCursor (by decide : 23 < vgaHeight) (by decide : 0 < vgaWidth)).vgaSetColor
      0 7).putDigits
      (staysTo_statusText hline hcol) (by decide : 24 * vgaWidth - 1 < vgaHeight * vgaWidth)
  refine ⟨p₃, _, hI, hp₄.vgaSetColor 15 0, ?_⟩
  have hsizeLine : sizeT (e.curLine + 1) = e.line + 1 := by
    rw [h.curLine.1, ← Int.natCast_succ]
    exact sizeT_natCast (Nat.lt_of_le_of_lt hline (by decide))
  have hsizeCol : sizeT e.curCol = e.curCol.toNat := by
    rw [h.curCol_eq, Int.toNat_natCast]
    exact sizeT_natCast (Nat.lt_of_le_of_lt hcol (by decide))
  have hstatus := h.drawStatus_eq v₃
  rw [hput₄] at hstatus
  simp only [nanoDraw, Option.bind_eq_bind]
  rw [hclear, Option.bind_some, drawTitle_eq hn, hput₂, Option.bind_some, hdraw, Option.bind_some,
    hstatus, Option.bind_some, hsizeLine, hsizeCol]
  rfl

end KontolOS.Shell
