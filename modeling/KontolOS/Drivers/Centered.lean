import KontolOS.Drivers.PrintAt
import KontolOS.Drivers.Visible

/-!
# Text in the middle of a row

`vga_print_centered` puts a line where its left and its right margin are the same, or the right one
is one column wider; of a line that is wider than the screen it shows what fits.  It changes no cell
beside the line (`vgaPrintCentered_centers`).

A row that shows nothing but a line in its middle is described by `centeredCell`.  It shows nothing
at all when blanks have been printed over the line (`centeredCell_blanks`).
-/

namespace KontolOS.Drivers

open KontolOS.Lib KontolOS.Strings Function

variable {b₀ : Nat → UInt16} {s v : Vga} {row col i c : Nat} {text text' str : List UInt8}

/-! ## One line -/

/-- The screen with a line on it. -/
def drawLine (row col : Nat) (text : List UInt8) (s : Vga) : Vga :=
  { s with vgaBuffer := paintLine s.vgaColor row col text s.vgaBuffer }

/-- `vga_put_at` draws a line of one character. -/
theorem vgaPutAt_line (row col : Nat) (c : UInt8) (s : Vga) :
    vgaPutAt row col c s = some (drawLine row col [c] s) := vgaPutAt_eq row col c s

/-- `vga_print_at` for a text without a newline -/
theorem vgaPrintAt_line (h : Holds str text) (hnl : 0x0A ∉ text) (row col : Nat) (s : Vga) :
    vgaPrintAt row col str s = some (drawLine row col text s) := by
  obtain ⟨row', col', hloop⟩ := printAtLoop_eq h col { s with vgaRow := row, vgaCol := col }
  have hlines : text.splitOn 0x0A = [text] :=
    List.splitOnP_eq_singleton fun c hc ↦ beq_eq_false_iff_ne.mpr fun heq ↦ hnl (heq ▸ hc)
  rw [hlines, paintLines, paintLines, ite_self] at hloop
  rw [vgaPrintAt, hloop]
  rfl

/-- The first column of a line in the middle. -/
def margin (len : Nat) : Nat := if len < vgaWidth then (vgaWidth - len) / 2 else 0

/-- `vga_print_centered` -/
theorem vgaPrintCentered_eq (h : Holds str text) (hnl : 0x0A ∉ text) (row : Nat) (s : Vga) :
    vgaPrintCentered row str s = some (drawLine row (margin text.length) text s) := by
  rw [vgaPrintCentered, h.strlen_eq]
  exact vgaPrintAt_line h hnl row (margin text.length) s

/-- **The line is in the middle**: the margins differ by at most one column, every character that
fits is in its place, and no other cell changes. -/
theorem vgaPrintCentered_centers (h : Holds str text) (hnl : 0x0A ∉ text) (hrow : row < vgaHeight)
    (s : Vga) :
    ∃ b' left right, vgaPrintCentered row str s = some { s with vgaBuffer := b' } ∧
      left + min text.length vgaWidth + right = vgaWidth ∧ left ≤ right ∧ right ≤ left + 1 ∧
      (∀ j x, text[j]? = some x → j < vgaWidth →
        b' (row * vgaWidth + left + j) = vgaEntry x s.vgaColor) ∧
      ∀ i, (i < row * vgaWidth + left ∨ row * vgaWidth + left + min text.length vgaWidth ≤ i) →
        b' i = s.vgaBuffer i := by
  have hpaint := overlay_paintLine s.vgaColor row (margin text.length) text s.vgaBuffer
  have hwidth : vgaWidth = 80 := rfl
  have hmargin : margin text.length + min text.length vgaWidth ≤ vgaWidth ∧
      (vgaWidth ≤ text.length → margin text.length = 0) := by
    rw [margin]
    split <;> omega
  refine ⟨_, margin text.length, vgaWidth - margin text.length - min text.length vgaWidth,
    vgaPrintCentered_eq h hnl row s, by omega, ?_, ?_, ?_, ?_⟩
  · rw [margin]
    split <;> omega
  · rw [margin]
    split <;> omega
  · intro j x hx hj
    obtain ⟨hlt, _⟩ := List.getElem?_eq_some_iff.mp hx
    exact hpaint.drawn _ _ ⟨j, x, hx, hrow, by omega, Nat.add_assoc _ _ _, rfl⟩
  · intro i hi
    refine hpaint.kept i ?_
    rintro e ⟨j, x, hx, _, hcol, heq, _⟩
    obtain ⟨hlt, _⟩ := List.getElem?_eq_some_iff.mp hx
    omega

/-- A line that is too long, in the last row -/
theorem vgaPrintCentered_centers_long : ∃ b' left right,
    vgaPrintCentered 24 (List.replicate 81 0x61 ++ [0]) (vgaInit fun _ ↦ 0) =
        some { vgaInit fun _ ↦ 0 with vgaBuffer := b' } ∧
      left = 0 ∧ right = 0 := by
  have hmem : ∀ c ∈ List.replicate 81 (0x61 : UInt8), c = 0x61 := fun c ↦ List.eq_of_mem_replicate
  have hstr : Holds (List.replicate 81 (0x61 : UInt8) ++ [0]) (List.replicate 81 0x61) :=
    ⟨fun h ↦ absurd (hmem 0 h) (by decide), [], rfl⟩
  obtain ⟨b', left, right, hprint, hsum, hle, _⟩ := vgaPrintCentered_centers hstr
    (fun h ↦ absurd (hmem _ h) (by decide)) (show 24 < vgaHeight by decide) (vgaInit fun _ ↦ 0)
  rw [List.length_replicate] at hsum
  change left + 80 + right = 80 at hsum
  exact ⟨b', left, right, hprint, by omega, by omega⟩

/-! ## A row with a line in its middle -/

/-- The character in a column, when the row shows `text` and nothing else. -/
def centeredCell (text : List UInt8) (c : Nat) : UInt8 :=
  if c < margin text.length then 0x20 else text[c - margin text.length]?.getD 0x20

/-- A cell of the row in which a line has been printed -/
theorem charAt_drawLine (hrow : row < vgaHeight) (hc : c < vgaWidth) :
    charAt (drawLine row col text s) (row * vgaWidth + c) =
      if c < col then charAt s (row * vgaWidth + c)
      else text[c - col]?.getD (charAt s (row * vgaWidth + c)) := by
  have hpaint := overlay_paintLine s.vgaColor row col text s.vgaBuffer
  have hkept : (c < col ∨ text[c - col]? = none) →
      paintLine s.vgaColor row col text s.vgaBuffer (row * vgaWidth + c) =
        s.vgaBuffer (row * vgaWidth + c) := by
    intro hout
    refine hpaint.kept _ ?_
    rintro e ⟨j, x, hx, _, _, heq, _⟩
    obtain rfl : c = col + j := by omega
    rw [Nat.add_sub_cancel_left, hx] at hout
    exact hout.elim (fun hlt ↦ absurd hlt (by omega)) nofun
  dsimp only [charAt, drawLine]
  split
  next hlt => rw [hkept (.inl hlt)]
  next hge =>
    cases hx : text[c - col]? with
    | none =>
        rw [hkept (.inr hx)]
        rfl
    | some x =>
        rw [hpaint.drawn _ _ ⟨c - col, x, hx, hrow, by omega, by omega, rfl⟩]
        exact toUInt8_vgaEntry x s.vgaColor

/-- A single character -/
theorem charAt_drawLine_single {x : UInt8} (hrow : row < vgaHeight) (hc : c < vgaWidth) :
    charAt (drawLine row col [x] s) (row * vgaWidth + c) =
      if c = col then x else charAt s (row * vgaWidth + c) := by
  rw [charAt_drawLine hrow hc]
  rcases Nat.lt_trichotomy c col with hlt | rfl | hgt
  · rw [if_pos hlt, if_neg (Nat.ne_of_lt hlt)]
  · rw [if_neg (Nat.lt_irrefl c), if_pos rfl, Nat.sub_self]
    rfl
  · have hlen : [x].length ≤ c - col := by
      rw [List.length_singleton]
      omega
    rw [if_neg (Nat.lt_asymm hgt), if_neg (Nat.ne_of_gt hgt), List.getElem?_eq_none hlen,
      Option.getD_none]

/-- A cell of another row -/
theorem charAt_drawLine_of_ne {row' : Nat} (hne : row' ≠ row) (hc : c < vgaWidth) :
    charAt (drawLine row col text s) (row' * vgaWidth + c) = charAt s (row' * vgaWidth + c) := by
  have hpaint := overlay_paintLine s.vgaColor row col text s.vgaBuffer
  have hwidth : vgaWidth = 80 := rfl
  dsimp only [charAt, drawLine]
  rw [hpaint.kept]
  rintro e ⟨j, x, _, _, hcol, heq, _⟩
  rw [hwidth] at heq hc hcol
  omega

/-- **A line in a blank row** -/
theorem charAt_centered (hrow : row < vgaHeight) (hc : c < vgaWidth)
    (hblank : charAt s (row * vgaWidth + c) = 0x20) :
    charAt (drawLine row (margin text.length) text s) (row * vgaWidth + c) =
      centeredCell text c := by
  rw [charAt_drawLine hrow hc, hblank, centeredCell]

/-- **Blanks over a line** that is not longer leave a blank row. -/
theorem centeredCell_blanks {n : Nat} (hlen : text.length ≤ n) (hn : n < vgaWidth)
    (hrow : row < vgaHeight) (hc : c < vgaWidth)
    (hshows : charAt s (row * vgaWidth + c) = centeredCell text c) :
    charAt (drawLine row (margin n) (List.replicate n 0x20) s) (row * vgaWidth + c) = 0x20 := by
  have hwidth : vgaWidth = 80 := rfl
  have hmargin :
      margin n ≤ margin text.length ∧ margin text.length + text.length ≤ margin n + n := by
    rw [margin, margin, if_pos hn, if_pos (Nat.lt_of_le_of_lt hlen hn)]
    omega
  rw [charAt_drawLine hrow hc, hshows, List.getElem?_replicate]
  split
  · exact if_pos (by omega)
  · split
    · rfl
    · rw [Option.getD_none, centeredCell, if_neg (by omega), List.getElem?_eq_none (by omega),
        Option.getD_none]

/-- What is printed elsewhere does not move the cursor. -/
theorem Visible.drawLine (h : Visible b₀ v) (row col : Nat) (text : List UInt8) :
    Visible b₀ (drawLine row col text v) := by
  refine ⟨h.row_lt, h.col_lt, h.cursor, fun i hi ↦ ?_⟩
  refine ((overlay_paintLine v.vgaColor row col text v.vgaBuffer).kept i ?_).trans (h.beyond i hi)
  rintro e ⟨j, x, _, hrow, hcol, rfl, _⟩
  have hlt := lt_of_cell hrow hcol
  omega

end KontolOS.Drivers
