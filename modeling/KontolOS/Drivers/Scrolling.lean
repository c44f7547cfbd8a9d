import KontolOS.Drivers.Screen
import KontolOS.Lib.Page

/-!
# The screen is a window at the end of a page

Text that is printed after `vga_clear` appears as on a page without end, of which the screen
shows the last 25 rows (`print_after_clear`).  The page begins a new row right after the 80th
character of a row, as `vga_putchar` does, and not only before the 81st: a newline after 80
characters leaves a row empty, on the page and on the screen.
-/

namespace KontolOS.Drivers

open KontolOS.Lib KontolOS.Strings Function

/-- The screen shows the end of the page `p`, in one colour, and the cursor is that of the page. -/
structure Displays (p : Page UInt8) (color : UInt8) (s : Vga) : Prop where
  /-- the row of the cursor -/
  row_eq : s.vgaRow = p.cursorRow vgaHeight
  /-- its column -/
  col_eq : s.vgaCol = p.row.length
  /-- the colour -/
  color_eq : s.vgaColor = color
  /-- the characters -/
  cell_eq : ∀ i j, i < vgaHeight → j < vgaWidth →
    s.vgaBuffer (i * vgaWidth + j) = vgaEntry (p.view vgaHeight 0x20 i j) color

/-- The characters that `vga_putchar` puts on the screen, and newlines. -/
def Plain (c : UInt8) : Prop := c ≠ 0x0D ∧ c ≠ 0x09 ∧ c ≠ 0x08

variable {s : Vga} {p : Page UInt8} {c color : UInt8} {i j i' j' : Nat} {str text : List UInt8}

/-- Places in different rows or columns are different. -/
theorem cell_inj (hj : j < vgaWidth) (hj' : j' < vgaWidth) :
    i * vgaWidth + j = i' * vgaWidth + j' ↔ i = i' ∧ j = j' := by
  change j < 80 at hj
  change j' < 80 at hj'
  change i * 80 + j = i' * 80 + j' ↔ _
  omega

theorem cursorRow_lt (p : Page UInt8) : p.cursorRow vgaHeight < vgaHeight :=
  Nat.lt_of_le_of_lt (Nat.min_le_right _ _) (by decide : vgaHeight - 1 < vgaHeight)

theorem Displays.vgaUpdateCursor (h : Displays p color s) :
    Displays p color (vgaUpdateCursor s) := ⟨h.row_eq, h.col_eq, h.color_eq, h.cell_eq⟩

/-! ## Steps -/

/-- A cleared screen shows an empty page. -/
theorem displays_vgaClear (s : Vga) :
    ∃ s', vgaClear s = some s' ∧ Displays Page.empty s.vgaColor s' := by
  refine ⟨_, vgaClear_eq s, Displays.vgaUpdateCursor ⟨rfl, rfl, rfl, fun i j hi hj ↦ ?_⟩⟩
  rw [Page.view_empty]
  exact if_pos (lt_of_cell hi hj)

/-- A character is written at the cursor. -/
theorem Displays.write (h : Displays p color s) (hroom : p.row.length < vgaWidth) (c : UInt8) :
    ∃ s', poke (indexOf s.vgaRow s.vgaCol) (vgaEntry c s.vgaColor) s = some s' ∧
      s'.vgaRow = s.vgaRow ∧ s'.vgaCol = s.vgaCol ∧
      Displays (p.write c) color { s' with vgaCol := add32 s.vgaCol 1 } := by
  have hrow : s.vgaRow < vgaHeight := h.row_eq ▸ cursorRow_lt p
  have hcol : s.vgaCol < vgaWidth := h.col_eq ▸ hroom
  have hcol' : s.vgaCol < 80 := hcol
  refine ⟨_, poke_of_lt (indexOf_lt hrow hcol), rfl, rfl, ⟨h.row_eq, ?_, h.color_eq, ?_⟩⟩
  · change add32 s.vgaCol 1 = (p.row ++ [c]).length
    rw [add32_of_lt (by omega), List.length_append, h.col_eq]
    rfl
  · intro i j hi hj
    change update s.vgaBuffer (indexOf s.vgaRow s.vgaCol) (vgaEntry c s.vgaColor)
      (i * vgaWidth + j) = _
    rw [indexOf_eq hrow hcol, h.color_eq, update_apply, Page.view_write, ← h.row_eq, ← h.col_eq]
    simp only [cell_inj hj hcol]
    split
    · rfl
    · exact h.cell_eq i j hi hj

/-- **The next row begins**, with a scroll if the cursor was in the last one. -/
theorem Displays.newline (h : Displays p color s) :
    ∃ s', putcharScroll { s with vgaCol := 0, vgaRow := add32 s.vgaRow 1 } = some s' ∧
      Displays p.newline color s' := by
  have hrow : s.vgaRow < 25 := h.row_eq ▸ cursorRow_lt p
  have hnext : add32 s.vgaRow 1 = s.vgaRow + 1 := add32_of_lt (by omega)
  have hcursor : s.vgaRow = min p.above.length (25 - 1) := h.row_eq
  rw [hnext, putcharScroll]
  by_cases hlast : p.above.length + 1 < vgaHeight
  · have hlast' : p.above.length + 1 < 25 := hlast
    have hin : ¬ vgaHeight ≤ s.vgaRow + 1 := by
      change ¬ 25 ≤ s.vgaRow + 1
      omega
    refine ⟨_, if_neg hin, ⟨?_, rfl, h.color_eq, fun i j hi hj ↦ ?_⟩⟩
    · rw [Page.cursorRow_newline, ← h.row_eq]
      change s.vgaRow + 1 = min (s.vgaRow + 1) (25 - 1)
      omega
    · rw [Page.view_newline_of_lt hlast]
      exact h.cell_eq i j hi hj
  · have hfull : vgaHeight ≤ p.above.length + 1 := Nat.not_lt.mp hlast
    have hfull' : 25 ≤ p.above.length + 1 := hfull
    have hout : vgaHeight ≤ s.vgaRow + 1 := by
      change 25 ≤ s.vgaRow + 1
      omega
    refine ⟨_, (if_pos hout).trans (vgaScroll_eq _), ⟨?_, rfl, h.color_eq, fun i j hi hj ↦ ?_⟩⟩
    · rw [Page.cursorRow_newline, ← h.row_eq]
      change 25 - 1 = min (s.vgaRow + 1) (25 - 1)
      omega
    · rw [Page.view_newline_of_le hfull (by decide)]
      -- the last row of the screen is blank, the others come from the row below
      by_cases hi' : i + 1 < vgaHeight
      · have hmoved : i * vgaWidth + j < (vgaHeight - 1) * vgaWidth := by
          change i + 1 < 25 at hi'
          change j < 80 at hj
          change i * 80 + j < (25 - 1) * 80
          omega
        refine (if_pos hmoved).trans ?_
        rw [← h.cell_eq (i + 1) j hi' hj]
        change s.vgaBuffer (i * vgaWidth + j + vgaWidth) = _
        rw [Nat.add_right_comm, ← Nat.succ_mul]
      · have hbottom : ¬ i * vgaWidth + j < (vgaHeight - 1) * vgaWidth := by
          change ¬ i + 1 < 25 at hi'
          change ¬ i * 80 + j < (25 - 1) * 80
          omega
        refine (if_neg hbottom).trans ((if_pos (lt_of_cell hi hj)).trans ?_)
        rw [Page.view_of_ge (Nat.lt_of_lt_of_le (cursorRow_lt p) (Nat.not_lt.mp hi'))]
        exact congrArg (vgaEntry 0x20) h.color_eq

/-- **A character that is printed** is put on the page. -/
theorem Displays.vgaPutchar (h : Displays p color s) (hroom : p.row.length < vgaWidth)
    (hc : Plain c) : ∃ s', vgaPutchar c s = some s' ∧
      Displays (p.type vgaWidth 0x0A c) color s' ∧
      (p.type vgaWidth 0x0A c).row.length < vgaWidth := by
  obtain ⟨hreturn, htab, hback⟩ := hc
  by_cases hnl : c = 0x0A
  · obtain ⟨s', hscroll, h'⟩ := h.newline
    have hbranch : putcharBranch c s = some { s with vgaCol := 0, vgaRow := add32 s.vgaRow 1 } :=
      if_pos hnl
    rw [Page.type, if_pos hnl]
    exact ⟨_, vgaPutchar_eq hbranch hscroll, h'.vgaUpdateCursor, (by decide : 0 < vgaWidth)⟩
  · obtain ⟨s₁, hpoke, hrow₁, hcol₁, hwrite⟩ := h.write hroom c
    have hbranch : putcharBranch c s = some { s₁ with vgaCol := add32 s.vgaCol 1 } := by
      rw [putcharBranch, if_neg hnl, if_neg hreturn, if_neg htab, if_neg hback, hpoke, ← hcol₁]
      rfl
    have hlength : (p.write c).row.length = p.row.length + 1 := List.length_append
    rw [Page.type, if_neg hnl, Page.put]
    by_cases hfull : (p.write c).row.length = vgaWidth
    · obtain ⟨s', hscroll, h'⟩ := hwrite.newline
      have hwrap : vgaWidth ≤ add32 s.vgaCol 1 := Nat.le_of_eq (hwrite.col_eq.trans hfull).symm
      rw [if_pos hfull]
      refine ⟨_, vgaPutchar_eq hbranch ?_, h'.vgaUpdateCursor, (by decide : 0 < vgaWidth)⟩
      exact (congrArg putcharScroll (if_pos hwrap)).trans hscroll
    · have hlt : (p.write c).row.length < vgaWidth :=
        Nat.lt_of_le_of_ne (hlength ▸ hroom) hfull
      have hwrap : ¬ vgaWidth ≤ add32 s.vgaCol 1 :=
        Nat.not_le.mpr (Nat.lt_of_le_of_lt (Nat.le_of_eq hwrite.col_eq) hlt)
      have hin : ¬ vgaHeight ≤ s₁.vgaRow :=
        Nat.not_le.mpr (hrow₁ ▸ h.row_eq ▸ cursorRow_lt p)
      rw [if_neg hfull]
      refine ⟨_, vgaPutchar_eq hbranch ?_, hwrite.vgaUpdateCursor, hlt⟩
      exact (congrArg putcharScroll (if_neg hwrap)).trans (if_neg hin)

/-! ## Runs -/

theorem Displays.vgaPrint (h : Displays p color s) (hroom : p.row.length < vgaWidth)
    (hstr : Holds str text) (hplain : ∀ c ∈ text, Plain c) :
    ∃ s', vgaPrint str s = some s' ∧
      Displays (text.foldl (Page.type vgaWidth 0x0A) p) color s' := by
  induction text generalizing str s p with
  | nil =>
      obtain ⟨rest, rfl⟩ := Holds.nil_iff.mp hstr
      exact ⟨s, rfl, h⟩
  | cons c text ih =>
      obtain ⟨hc, rest, rfl, hrest⟩ := Holds.cons_iff.mp hstr
      obtain ⟨s₁, hput, h₁, hroom₁⟩ := h.vgaPutchar hroom (hplain c List.mem_cons_self)
      obtain ⟨s', hprint, h'⟩ :=
        ih h₁ hroom₁ hrest fun c hc ↦ hplain c (List.mem_cons_of_mem _ hc)
      refine ⟨s', ?_, h'⟩
      rw [Drivers.vgaPrint, if_neg hc, hput]
      exact hprint

/-- **The screen is a window at the end of a page**: when `vga_clear` and `vga_print` of a text are
done, with `R` the rows of the page that the text is laid out on and `m` the number of the last
one, each row `i` of the screen shows the row `m - 24 + i` of the page (or `i`, if that is not
more than 24), with blanks where that ends or if there is none; and the cursor is at the row
`min m 24` and behind the last character of the page. -/
theorem print_after_clear (v : Vga) (hstr : Holds str text) (hplain : ∀ c ∈ text, Plain c) :
    let page := Page.layout 80 0x0A text
    let R := page.rows
    let m := page.above.length
    ∃ s, (vgaClear v).bind (vgaPrint str) = some s ∧
      s.vgaRow = min m 24 ∧ s.vgaCol = page.row.length ∧
      ∀ i j, i < 25 → j < 80 →
        s.vgaBuffer (i * 80 + j) = vgaEntry ((R.getD (m - 24 + i) []).getD j 0x20) v.vgaColor := by
  obtain ⟨s₁, hclear, h₁⟩ := displays_vgaClear v
  obtain ⟨s, hprint, h⟩ := h₁.vgaPrint (by decide) hstr hplain
  refine ⟨s, ?_, h.row_eq, h.col_eq, h.cell_eq⟩
  rw [hclear]
  exact hprint

/-- A line of one character, 23 empty lines, a line of 82 characters, and the beginning of
another line. -/
def overflowing : List UInt8 :=
  0x41 :: List.replicate 24 0x0A ++ List.replicate 82 0x42 ++ [0x0A, 0x43]

/-- It takes 27 rows: the line of 82 characters goes on in the next row. -/
def overflowingRows : List (List UInt8) :=
  [0x41] :: List.replicate 23 [] ++ [List.replicate 80 0x42, [0x42, 0x42], [0x43]]

/-- On a screen that shows something else, the first two of these rows have left the screen. -/
theorem print_after_clear_overflowing : ∃ s,
    (vgaClear (vgaSetColor 14 1 (vgaInit fun _ ↦ 0x0742))).bind (vgaPrint (overflowing ++ [0])) =
      some s ∧
    s.vgaRow = 24 ∧ s.vgaCol = 1 ∧
    (∀ i j, i < 25 → j < 80 → s.vgaBuffer (i * 80 + j) =
      vgaEntry ((overflowingRows.getD (2 + i) []).getD j 0x20) 0x1E) ∧
    s.vgaBuffer (22 * 80 + 79) = 0x1E42 ∧ s.vgaBuffer (23 * 80 + 2) = 0x1E20 ∧
    s.vgaBuffer (24 * 80) = 0x1E43 := by
  have hstr : Holds (overflowing ++ [0]) overflowing := ⟨by decide +kernel, [], rfl⟩
  have hplain : ∀ c ∈ overflowing, Plain c := by
    unfold Plain
    decide +kernel
  obtain ⟨s, hprint, hrow, hcol, hcell⟩ :=
    print_after_clear (vgaSetColor 14 1 (vgaInit fun _ ↦ 0x0742)) hstr hplain
  have hrows : (Page.layout 80 0x0A overflowing).rows = overflowingRows := by decide +kernel
  have habove : (Page.layout 80 0x0A overflowing).above.length = 26 := by decide +kernel
  rw [hrows, habove] at hcell
  exact ⟨s, hprint, hrow.trans (by rw [habove]; rfl), hcol.trans (by decide +kernel), hcell,
    hcell 22 79 (by decide) (by decide), hcell 23 2 (by decide) (by decide),
    hcell 24 0 (by decide) (by decide)⟩

end KontolOS.Drivers
