import KontolOS.Drivers.Output
import KontolOS.Lib.Sheet

/-!
# The screen as a sheet

The two functions of `src/drivers/vga.c` that hide and show the hardware cursor, and where this
cursor is, by what was sent to the registers of the controller.

As long as nothing scrolls, the driver is a typewriter on a sheet of `VGA_WIDTH` columns: `Images`
says that the screen has the characters of the sheet, and the cursor of the driver and that of the
hardware the position of the typewriter.  Whatever is printed is typed (`Images.putDigits`).
-/

namespace KontolOS.Drivers

open KontolOS.Lib KontolOS.Strings Function

/-! ## The hardware cursor -/

/-- `vga_hide_cursor` -/
def vgaHideCursor (s : Vga) : Vga := outb vgaDataPort 0x20 <| outb vgaCtrlPort 0x0A s

/-- `vga_show_cursor`, to which `inb` returns `start` and `stop`. -/
def vgaShowCursor (start stop : UInt8) (s : Vga) : Vga :=
  outb vgaDataPort (stop &&& 0xE0 ||| 15) <| outb vgaCtrlPort 0x0B <|
    outb vgaDataPort (start &&& 0xC0 ||| 14) <| outb vgaCtrlPort 0x0A s

/-- The register that is selected: the last byte sent to the control port. -/
def crtcIndex : List (UInt16 × UInt8) → UInt8
  | [] => 0
  | (port, byte) :: outs => if port = vgaCtrlPort then byte else crtcIndex outs

/-- The value of a register: the last byte sent to the data port while it was selected. -/
def crtcRegister (reg : UInt8) : List (UInt16 × UInt8) → UInt8
  | [] => 0
  | (port, byte) :: outs =>
      if port = vgaDataPort ∧ crtcIndex outs = reg then byte else crtcRegister reg outs

/-- The place of the hardware cursor, by the registers for its high and its low byte. -/
def hardwareCursor (s : Vga) : Nat :=
  (crtcRegister 14 s.outs).toNat * 256 + (crtcRegister 15 s.outs).toNat

/-- The character that the screen displays at a place. -/
def charAt (s : Vga) (i : Nat) : UInt8 := (s.vgaBuffer i).toUInt8

variable {s t : Vga} {p : Sheet UInt8} {c color : UInt8} {row col pos : Nat}
  {text : List UInt8}

theorem hardwareCursor_vgaUpdateCursor (hrow : s.vgaRow < vgaHeight) (hcol : s.vgaCol < vgaWidth) :
    hardwareCursor (vgaUpdateCursor s) = s.vgaRow * vgaWidth + s.vgaCol := by
  have hlt : s.vgaRow * vgaWidth + s.vgaCol < 25 * 80 := lt_of_cell hrow hcol
  refine (toNat_bytes (UInt16.ofNat (indexOf s.vgaRow s.vgaCol))).trans ?_
  rw [indexOf_eq hrow hcol, UInt16.toNat_ofNat_of_lt' (Nat.lt_trans hlt (by decide))]

/-- An entry has its character in the low byte. -/
theorem toUInt8_vgaEntry (c color : UInt8) : (vgaEntry c color).toUInt8 = c := by
  have hcolor : (color.toNat <<< 8 % 2 ^ 16) % 2 ^ 8 = 0 := by
    rw [Nat.shiftLeft_eq]
    omega
  rw [← UInt8.toNat_inj, UInt16.toNat_toUInt8, vgaEntry, UInt16.toNat_or,
    UInt16.toNat_shiftLeft, Nat.or_mod_two_pow, UInt8.toNat_toUInt16, UInt8.toNat_toUInt16]
  change c.toNat % 2 ^ 8 ||| (color.toNat <<< 8 % 2 ^ 16) % 2 ^ 8 = _
  rw [hcolor, Nat.or_zero]
  exact Nat.mod_eq_of_lt c.toNat_lt

/-! ## Typing -/

/-- The strokes that the characters stand for. -/
def stroke (c : UInt8) : Stroke UInt8 :=
  if c = 0x0A then .newline
  else if c = 0x0D then .carriage
  else if c = 0x09 then .tab
  else if c = 0x08 then .back
  else .put c

/-- The columns of the screen, and a tab stop every four places. -/
def ruler : Ruler := ⟨vgaWidth, 4, by decide, by decide⟩

/-- The sheet after a text. -/
def typeText (p : Sheet UInt8) (text : List UInt8) : Sheet UInt8 :=
  (text.map stroke).foldl (Sheet.type ruler 0x20) p

/-- A text that begins at `pos` never goes beyond `stop`. -/
def StaysTo (stop : Nat) (text : List UInt8) (pos : Nat) : Prop :=
  ruler.Stays stop (text.map stroke) pos

/-- The screen shows the sheet. -/
structure Images (p : Sheet UInt8) (s : Vga) : Prop where
  /-- the position is on the screen -/
  pos_lt : p.pos < vgaHeight * vgaWidth
  /-- its row -/
  row_eq : s.vgaRow = p.pos / vgaWidth
  /-- and its column -/
  col_eq : s.vgaCol = p.pos % vgaWidth
  /-- the hardware has the same position -/
  cursor_eq : hardwareCursor s = p.pos
  /-- the characters -/
  char_eq : ∀ i < vgaHeight * vgaWidth, charAt s i = p.cell i

/-- After the position of the hardware cursor is updated. -/
theorem Images.of_place (hrow : s.vgaRow < vgaHeight) (hcol : s.vgaCol < vgaWidth)
    (hpos : s.vgaRow * vgaWidth + s.vgaCol = p.pos)
    (hchar : ∀ i < vgaHeight * vgaWidth, charAt s i = p.cell i) :
    Images p (vgaUpdateCursor s) := by
  have hplace : s.vgaCol + vgaWidth * s.vgaRow = p.pos := by
    rw [Nat.mul_comm, Nat.add_comm]
    exact hpos
  refine ⟨hpos ▸ lt_of_cell hrow hcol, ?_, ?_, ?_, hchar⟩
  · rw [← hplace, Nat.add_mul_div_left _ _ (by decide), Nat.div_eq_of_lt hcol, Nat.zero_add]
    rfl
  · rw [← hplace, Nat.add_mul_mod_self_left, Nat.mod_eq_of_lt hcol]
    rfl
  · rw [hardwareCursor_vgaUpdateCursor hrow hcol, hpos]

/-- What a character does is followed by the line wrap, and not by a scroll. -/
theorem Images.of_branch (hbranch : putcharBranch c s = some t) (hcol : t.vgaCol ≤ vgaWidth)
    (hpos : t.vgaRow * vgaWidth + t.vgaCol = p.pos) (hlt : p.pos < vgaHeight * vgaWidth)
    (hchar : ∀ i < vgaHeight * vgaWidth, charAt t i = p.cell i) :
    ∃ s', vgaPutchar c s = some s' ∧ Images p s' := by
  change t.vgaCol ≤ 80 at hcol
  change t.vgaRow * 80 + t.vgaCol = p.pos at hpos
  change p.pos < 25 * 80 at hlt
  have hwrapped : (putcharWrap t).vgaRow < vgaHeight ∧ (putcharWrap t).vgaCol < vgaWidth ∧
      (putcharWrap t).vgaRow * vgaWidth + (putcharWrap t).vgaCol = p.pos ∧
      (putcharWrap t).vgaBuffer = t.vgaBuffer := by
    rw [putcharWrap]
    split
    next hwide =>
      change 80 ≤ t.vgaCol at hwide
      rw [add32_of_lt (by omega)]
      change t.vgaRow + 1 < 25 ∧ 0 < 80 ∧ (t.vgaRow + 1) * 80 + 0 = p.pos ∧ _
      exact ⟨by omega, by decide, by omega, rfl⟩
    next hwide =>
      change ¬ 80 ≤ t.vgaCol at hwide
      change t.vgaRow < 25 ∧ t.vgaCol < 80 ∧ _
      exact ⟨by omega, by omega, hpos, rfl⟩
  obtain ⟨hrow, hcol', hpos', hbuffer⟩ := hwrapped
  refine ⟨_, vgaPutchar_eq hbranch (if_neg (Nat.not_le.mpr hrow)), .of_place hrow hcol' hpos' ?_⟩
  intro i hi
  rw [charAt, hbuffer]
  exact hchar i hi

/-- What a character does, by its stroke. -/
theorem putcharBranch_eq (c : UInt8) (s : Vga) : putcharBranch c s = match stroke c with
    | .newline => some { s with vgaCol := 0, vgaRow := add32 s.vgaRow 1 }
    | .carriage => some { s with vgaCol := 0 }
    | .tab => some { s with vgaCol := add32 s.vgaCol 4 &&& 0xFFFFFFFC }
    | .back =>
        if 0 < s.vgaCol then
          pokeBlank (indexOf s.vgaRow (sub32 s.vgaCol 1)) { s with vgaCol := sub32 s.vgaCol 1 }
        else some s
    | .put c => do
        let s ← poke (indexOf s.vgaRow s.vgaCol) (vgaEntry c s.vgaColor) s
        return { s with vgaCol := add32 s.vgaCol 1 } := by
  rw [putcharBranch, stroke]
  by_cases hnl : c = 0x0A
  · rw [if_pos hnl, if_pos hnl]
  rw [if_neg hnl, if_neg hnl]
  by_cases hcr : c = 0x0D
  · rw [if_pos hcr, if_pos hcr]
  rw [if_neg hcr, if_neg hcr]
  by_cases htab : c = 0x09
  · rw [if_pos htab, if_pos htab]
  rw [if_neg htab, if_neg htab]
  by_cases hback : c = 0x08
  · rw [if_pos hback, if_pos hback]
  rw [if_neg hback, if_neg hback]

/-- A character is written at the cursor, which moves on. -/
theorem putcharBranch_put {d : UInt8} (hstroke : stroke c = .put d) (hrow : s.vgaRow < vgaHeight)
    (hcol : s.vgaCol < vgaWidth) : putcharBranch c s = some { s with
      vgaCol := s.vgaCol + 1,
      vgaBuffer := update s.vgaBuffer (s.vgaRow * vgaWidth + s.vgaCol)
        (vgaEntry d s.vgaColor) } := by
  have hcol' : s.vgaCol < 80 := hcol
  have hnext : add32 s.vgaCol 1 = s.vgaCol + 1 := add32_of_lt (by omega)
  rw [putcharBranch_eq, hstroke, ← hnext]
  change (poke (indexOf s.vgaRow s.vgaCol) (vgaEntry d s.vgaColor) s).bind _ = _
  rw [indexOf_eq hrow hcol, poke_of_lt (lt_of_cell hrow hcol)]
  rfl

/-- A backspace blanks the place in front of the cursor, and moves it there. -/
theorem putcharBranch_back (hstroke : stroke c = .back) (hrow : s.vgaRow < vgaHeight)
    (hcol : s.vgaCol < vgaWidth) (hpos : s.vgaCol ≠ 0) : putcharBranch c s = some { s with
      vgaCol := s.vgaCol - 1,
      vgaBuffer := update s.vgaBuffer (s.vgaRow * vgaWidth + (s.vgaCol - 1))
        (vgaEntry 0x20 s.vgaColor) } := by
  have hcol' : s.vgaCol < 80 := hcol
  have hlt : s.vgaCol - 1 < vgaWidth := Nat.lt_of_le_of_lt (Nat.sub_le _ _) hcol
  have hprev : sub32 s.vgaCol 1 = s.vgaCol - 1 := sub32_of_le (by omega) (by omega)
  have hbranch := putcharBranch_eq c s
  rw [hstroke] at hbranch
  refine hbranch.trans ((if_pos (Nat.pos_of_ne_zero hpos)).trans ?_)
  rw [hprev, indexOf_eq hrow hlt, pokeBlank, poke_of_lt (lt_of_cell hrow hlt)]

/-- In the first column it does nothing. -/
theorem putcharBranch_first (hstroke : stroke c = .back) (hzero : s.vgaCol = 0) :
    putcharBranch c s = some s := by
  have hbranch := putcharBranch_eq c s
  rw [hstroke] at hbranch
  exact hbranch.trans (if_neg (Nat.not_lt.mpr (Nat.le_of_eq hzero)))

/-- The cursor of the driver is at the position of the typewriter. -/
theorem Images.place (h : Images p s) :
    s.vgaRow < vgaHeight ∧ s.vgaCol < vgaWidth ∧ s.vgaRow * vgaWidth + s.vgaCol = p.pos := by
  have hlt : p.pos < 25 * 80 := h.pos_lt
  have hrow : s.vgaRow = p.pos / 80 := h.row_eq
  have hcol : s.vgaCol = p.pos % 80 := h.col_eq
  change s.vgaRow < 25 ∧ s.vgaCol < 80 ∧ s.vgaRow * 80 + s.vgaCol = p.pos
  omega

/-- A character is written into a place of the screen. -/
theorem charAt_update (hchar : ∀ i < vgaHeight * vgaWidth, charAt s i = p.cell i) (c color : UInt8)
    {i : Nat} (hi : i < vgaHeight * vgaWidth) :
    charAt { s with vgaBuffer := update s.vgaBuffer pos (vgaEntry c color) } i =
      update p.cell pos c i := by
  change (update s.vgaBuffer pos (vgaEntry c color) i).toUInt8 = _
  by_cases hpos : i = pos
  · subst hpos
    rw [update_self, update_self, toUInt8_vgaEntry]
  · rw [update_of_ne hpos, update_of_ne hpos]
    exact hchar i hi

/-- The tab stops of the driver. -/
theorem tab_eq (hcol : col < vgaWidth) : add32 col 4 &&& 0xFFFFFFFC = (col / 4 + 1) * 4 := by
  have htabs : ∀ col < 80, add32 col 4 &&& 0xFFFFFFFC = (col / 4 + 1) * 4 := by decide
  exact htabs col hcol

/-- A backspace. -/
theorem Images.back (h : Images p s) (hstroke : stroke c = .back) :
    ∃ s', Drivers.vgaPutchar c s = some s' ∧ Images (p.type ruler 0x20 .back) s' := by
  obtain ⟨hrow, hcol, hpos⟩ := h.place
  have hlt := h.pos_lt
  have hcol' : s.vgaCol < 80 := hcol
  have hpos' : s.vgaRow * 80 + s.vgaCol = p.pos := hpos
  by_cases hzero : s.vgaCol = 0
  · have hmod : p.pos % ruler.width = 0 := by
      change p.pos % 80 = 0
      omega
    have hsame : p.type ruler 0x20 .back = p := by
      simp only [Sheet.type, Ruler.next, if_pos hmod]
    rw [hsame]
    exact Images.of_branch (putcharBranch_first hstroke hzero) (Nat.le_of_lt hcol) hpos hlt
      h.char_eq
  · have hmod : p.pos % ruler.width ≠ 0 := by
      change p.pos % 80 ≠ 0
      omega
    have hprev : s.vgaRow * vgaWidth + (s.vgaCol - 1) = p.pos - 1 := by
      change s.vgaRow * 80 + (s.vgaCol - 1) = _
      omega
    have hbranch := putcharBranch_back hstroke hrow hcol hzero
    have hin : p.pos - 1 < vgaHeight * vgaWidth := Nat.lt_of_le_of_lt (Nat.sub_le _ _) hlt
    have hsheet : p.type ruler 0x20 .back = ⟨p.pos - 1, update p.cell (p.pos - 1) 0x20⟩ := by
      simp only [Sheet.type, Ruler.next, if_neg hmod]
    rw [hprev] at hbranch
    rw [hsheet]
    refine Images.of_branch hbranch ?_ hprev hin fun i hi ↦ charAt_update h.char_eq _ _ hi
    exact Nat.le_trans (Nat.sub_le _ _) (Nat.le_of_lt hcol)

/-- A character that is put on the screen. -/
theorem Images.put (h : Images p s) {d : UInt8} (hstroke : stroke c = .put d)
    (hnext : p.pos + 1 < vgaHeight * vgaWidth) :
    ∃ s', Drivers.vgaPutchar c s = some s' ∧ Images (p.type ruler 0x20 (.put d)) s' := by
  obtain ⟨hrow, hcol, hpos⟩ := h.place
  have hbranch := putcharBranch_put hstroke hrow hcol
  rw [hpos] at hbranch
  refine Images.of_branch hbranch hcol ?_ hnext fun i hi ↦ charAt_update h.char_eq _ _ hi
  change s.vgaRow * vgaWidth + (s.vgaCol + 1) = p.pos + 1
  rw [← hpos, Nat.add_assoc]

/-- **A character that is printed is typed**, if this does not lead beyond the screen. -/
theorem Images.vgaPutchar (h : Images p s)
    (hnext : ruler.next p.pos (stroke c) < vgaHeight * vgaWidth) :
    ∃ s', vgaPutchar c s = some s' ∧ Images (p.type ruler 0x20 (stroke c)) s' := by
  obtain ⟨hrow, hcol, hpos⟩ := h.place
  have hbranch := putcharBranch_eq c s
  have hrow' : s.vgaRow = p.pos / 80 := h.row_eq
  change s.vgaRow < 25 at hrow
  change s.vgaCol < 80 at hcol
  change s.vgaRow * 80 + s.vgaCol = p.pos at hpos
  cases hstroke : stroke c with
  | put d =>
      rw [hstroke] at hnext
      exact h.put hstroke hnext
  | back => exact h.back hstroke
  | tab =>
      rw [hstroke] at hnext hbranch
      rw [tab_eq hcol] at hbranch
      refine Images.of_branch hbranch ?_ ?_ hnext h.char_eq
      · change (s.vgaCol / 4 + 1) * 4 ≤ 80
        omega
      · change s.vgaRow * 80 + (s.vgaCol / 4 + 1) * 4 = (p.pos / 4 + 1) * 4
        omega
  | carriage =>
      rw [hstroke] at hnext hbranch
      refine Images.of_branch hbranch (Nat.zero_le _) ?_ hnext h.char_eq
      change s.vgaRow * 80 + 0 = p.pos / 80 * 80
      omega
  | newline =>
      rw [hstroke] at hnext hbranch
      refine Images.of_branch hbranch (Nat.zero_le _) ?_ hnext h.char_eq
      change add32 s.vgaRow 1 * 80 + 0 = (p.pos / 80 + 1) * 80
      rw [add32_of_lt (by omega)]
      omega

/-! ## Printing -/

/-- **Characters are typed**, if they do not lead beyond the screen. -/
theorem Images.putDigits (h : Images p s) {stop : Nat} (hstays : StaysTo stop text p.pos)
    (hstop : stop < vgaHeight * vgaWidth) :
    ∃ s', putDigits text s = some s' ∧ Images (typeText p text) s' := by
  induction text generalizing s p with
  | nil => exact ⟨s, rfl, h⟩
  | cons c text ih =>
      obtain ⟨s₁, hput, h₁⟩ := h.vgaPutchar (Nat.lt_of_le_of_lt hstays.2.pos_le hstop)
      obtain ⟨s', hrest, h'⟩ := ih h₁ hstays.2
      exact ⟨s', by rw [Drivers.putDigits, hput]; exact hrest, h'⟩

/-- The same character again and again. -/
theorem forLoop_vgaPutchar (c : UInt8) (i n : Nat) (s : Vga) :
    forLoop (fun _ ↦ vgaPutchar c) i n s = putDigits (List.replicate n c) s := by
  induction n generalizing i s with
  | zero => rfl
  | succ n ih =>
      rw [forLoop, List.replicate_succ, putDigits]
      exact congrArg _ (funext fun s ↦ ih (i + 1) s)

/-! ## The other functions -/

/-- A cleared screen. -/
theorem images_vgaClear (s : Vga) : ∃ s', vgaClear s = some s' ∧ Images ⟨0, fun _ ↦ 0x20⟩ s' := by
  refine ⟨_, vgaClear_eq s, .of_place (by decide : 0 < vgaHeight) (by decide : 0 < vgaWidth) ?_ ?_⟩
  · rfl
  · intro i hi
    change (blanked s (vgaHeight * vgaWidth) i).toUInt8 = 0x20
    rw [blanked, if_pos hi, toUInt8_vgaEntry]

theorem Images.vgaSetColor (h : Images p s) (fg bg : UInt8) :
    Images p (vgaSetColor fg bg s) := ⟨h.pos_lt, h.row_eq, h.col_eq, h.cursor_eq, h.char_eq⟩

theorem Images.vgaHideCursor (h : Images p s) : Images p (vgaHideCursor s) :=
  ⟨h.pos_lt, h.row_eq, h.col_eq, h.cursor_eq, h.char_eq⟩

theorem Images.vgaShowCursor (h : Images p s) (start stop : UInt8) :
    Images p (vgaShowCursor start stop s) :=
  ⟨h.pos_lt, h.row_eq, h.col_eq, h.cursor_eq, h.char_eq⟩

/-- **`vga_set_cursor`**, to a place of the screen. -/
theorem Images.vgaSetCursor (h : Images p s) (hrow : row < vgaHeight) (hcol : col < vgaWidth) :
    Images ⟨row * vgaWidth + col, p.cell⟩ (vgaSetCursor row col s) := by
  rw [Drivers.vgaSetCursor, if_pos ⟨hrow, hcol⟩]
  exact .of_place (s := { s with vgaRow := row, vgaCol := col }) hrow hcol rfl h.char_eq

/-! ## Texts on a sheet -/

/-- A character that is put on the screen as it is. -/
def Ordinary (c : UInt8) : Prop := stroke c = .put c

theorem ordinary_iff : Ordinary c ↔ c ≠ 0x0A ∧ c ≠ 0x0D ∧ c ≠ 0x09 ∧ c ≠ 0x08 := by
  rw [Ordinary, stroke]
  by_cases hnl : c = 0x0A
  · simp [hnl]
  by_cases hcr : c = 0x0D
  · simp [hcr]
  by_cases htab : c = 0x09
  · simp [htab]
  by_cases hback : c = 0x08
  · simp [hback]
  simp [hnl, hcr, htab, hback]

/-- A text can be looked through. -/
theorem ordinary_of_all
    (h : text.all (fun c ↦ c ≠ 0x0A ∧ c ≠ 0x0D ∧ c ≠ 0x09 ∧ c ≠ 0x08) = true) :
    ∀ c ∈ text, Ordinary c := fun c hc ↦
  ordinary_iff.mpr (of_decide_eq_true (List.all_eq_true.mp h c hc))

theorem map_stroke (h : ∀ c ∈ text, Ordinary c) : text.map stroke = text.map .put :=
  List.map_congr_left h

/-- A text without newlines takes no more than four places for each character. -/
theorem staysTo_of_length {stop : Nat} (hnl : 0x0A ∉ text) (hle : pos + text.length * 4 ≤ stop) :
    StaysTo stop text pos := by
  refine Ruler.stays_of_length (fun k hk heq ↦ ?_) (by rwa [List.length_map])
  obtain ⟨c, hc, rfl⟩ := List.mem_map.mp hk
  rw [stroke, if_neg (ne_of_mem_of_not_mem hc hnl)] at heq
  split_ifs at heq

/-- Ordinary characters take one place each. -/
theorem staysTo_iff {stop : Nat} (h : ∀ c ∈ text, Ordinary c) :
    StaysTo stop text pos ↔ pos + text.length ≤ stop := by
  rw [StaysTo, map_stroke h]
  exact Ruler.stays_put

theorem pos_typeText (h : ∀ c ∈ text, Ordinary c) :
    (typeText p text).pos = p.pos + text.length := by
  rw [typeText, map_stroke h]
  exact Sheet.pos_foldl_put text

/-- **A row that is typed** from its beginning, with what was there behind it. -/
theorem cell_typeText_row (h : ∀ c ∈ text, Ordinary c) (hlen : text.length ≤ vgaWidth) (i : Nat) :
    (typeText ⟨row * vgaWidth, p.cell⟩ text).cell i =
      (if i / vgaWidth = row then text[i % vgaWidth]? else none).getD (p.cell i) := by
  change text.length ≤ 80 at hlen
  rw [typeText, map_stroke h, Sheet.cell_foldl_put]
  change (if row * 80 ≤ i then text.getD (i - row * 80) (p.cell i) else p.cell i) =
    (if i / 80 = row then text[i % 80]? else none).getD _
  rw [List.getD_eq_getElem?_getD]
  by_cases hrow : i / 80 = row
  · rw [if_pos hrow, if_pos (by omega), show i - row * 80 = i % 80 by omega]
  · rw [if_neg hrow]
    split
    · rw [List.getElem?_eq_none (by omega)]
    · rfl

end KontolOS.Drivers
