import KontolOS.Drivers.Screen
import KontolOS.Lib.Overlay

/-!
# Texts at a place of the screen

`vga_print_at` puts a text of several lines on the screen, each line below the one before and all of
them in the same column.  Its loop ends at the end of the text, but also at the right edge of the
screen: a line that comes to the edge is the last one, whatever follows it.  And the row is counted
modulo `2^32`, so lines below the largest row come back at the top.  Apart from that the text is
where it should be, and nothing else has changed (`printsAt_iff`).
-/

namespace KontolOS.Drivers

open KontolOS.Lib KontolOS.Strings Function

variable {s : Vga} {row col r c i k : Nat} {x color : UInt8} {e : UInt16} {b : Nat → UInt16}
  {l text str : List UInt8} {ls : List (List UInt8)}

/-! ## Where the text should be -/

/-- The cell `i` shows `e` when `l` begins in the row `r` and the column `c`. -/
def LineCell (color : UInt8) (r c : Nat) (l : List UInt8) (i : Nat) (e : UInt16) : Prop :=
  ∃ j x, l[j]? = some x ∧ r < vgaHeight ∧ c + j < vgaWidth ∧ i = r * vgaWidth + (c + j) ∧
    e = vgaEntry x color

/-- The cell `i` shows `e` when the line `k` begins in the column `col` of each row `r` with
`place k r`. -/
def TextCell (color : UInt8) (col : Nat) (ls : List (List UInt8)) (place : Nat → Nat → Prop)
    (i : Nat) (e : UInt16) : Prop :=
  ∃ k l r, ls[k]? = some l ∧ place k r ∧ LineCell color r col l i e

/-- `vga_print_at(row, col, str)` puts the line `k` of the text into the row `row + k`, and changes
nothing else. -/
def PrintsAt (row col : Nat) (str text : List UInt8) : Prop := ∀ s : Vga, ∃ b',
  vgaPrintAt row col str s = some { s with vgaBuffer := b' } ∧
    Overlay (TextCell s.vgaColor col (text.splitOn 0x0A) fun k r ↦ r = row + k) s.vgaBuffer b'

/-! ## Where it is -/

/-- The lines before the line `k` end before the right edge. -/
def Reached (col : Nat) (ls : List (List UInt8)) (k : Nat) : Prop :=
  ∀ l ∈ ls.take k, col + l.length < vgaWidth

/-- The line `k` is printed, and in the row `r`. -/
def PrintedIn (row col : Nat) (ls : List (List UInt8)) (k r : Nat) : Prop :=
  Reached col ls k ∧ r = (row + k) % 2 ^ 32

/-- Of the lines whose row, counted modulo `2^32`, is on the screen, the loop comes to those that
belong there and to no others. -/
def InPlace (row col : Nat) (ls : List (List UInt8)) : Prop :=
  col < vgaWidth → ∀ k l, ls[k]? = some l → l ≠ [] → (row + k) % 2 ^ 32 < vgaHeight →
    (Reached col ls k ↔ row + k < vgaHeight)

/-- `vga_put_at` on the memory. -/
def paintCell (color : UInt8) (r c : Nat) (x : UInt8) (b : Nat → UInt16) : Nat → UInt16 :=
  if r < vgaHeight ∧ c < vgaWidth then update b (r * vgaWidth + c) (vgaEntry x color) else b

/-- The memory when the line `l` is printed from the column `c` on. -/
def paintLine (color : UInt8) (r : Nat) : Nat → List UInt8 → (Nat → UInt16) → Nat → UInt16
  | _, [], b => b
  | c, x :: l, b => paintLine color r (c + 1) l (paintCell color r c x b)

/-- The memory when the lines are printed, the first one from the column `c` on. -/
def paintLines (color : UInt8) (col : Nat) :
    Nat → Nat → List (List UInt8) → (Nat → UInt16) → Nat → UInt16
  | _, _, [], b => b
  | r, c, l :: ls, b =>
      if c + l.length < vgaWidth then
        paintLines color col (add32 r 1) col ls (paintLine color r c l b)
      else paintLine color r c l b

/-! ## Lines -/

theorem overlay_paintCell (color : UInt8) (r c : Nat) (x : UInt8) (b : Nat → UInt16) :
    Overlay (LineCell color r c [x]) b (paintCell color r c x b) := by
  rw [paintCell]
  split
  next hin =>
    refine (Overlay.single b _ _).congr fun i e ↦ ⟨?_, ?_⟩
    · rintro ⟨rfl, rfl⟩
      exact ⟨0, x, rfl, hin.1, hin.2, rfl, rfl⟩
    · rintro ⟨j, y, hj, _, _, rfl, rfl⟩
      cases j with
      | zero => exact ⟨rfl, by rw [Option.some.inj hj]⟩
      | succ j => cases hj
  next hout =>
    refine Overlay.refl ?_ b
    rintro i e ⟨j, y, hj, hr, hc, _⟩
    exact hout ⟨hr, Nat.lt_of_le_of_lt (Nat.le_add_right c j) hc⟩

theorem lineCell_cons : LineCell color r c (x :: l) i e ↔
    LineCell color r c [x] i e ∨ LineCell color r (c + 1) l i e := by
  have hnext : ∀ j, c + (j + 1) = c + 1 + j := fun j ↦ by omega
  constructor
  · rintro ⟨j, y, hj, hr, hc, rfl, rfl⟩
    cases j with
    | zero => exact .inl ⟨0, y, hj, hr, hc, rfl, rfl⟩
    | succ j =>
        rw [hnext] at hc ⊢
        exact .inr ⟨j, y, hj, hr, hc, rfl, rfl⟩
  · rintro (⟨j, y, hj, hr, hc, rfl, rfl⟩ | ⟨j, y, hj, hr, hc, rfl, rfl⟩)
    · cases j with
      | zero => exact ⟨0, y, hj, hr, hc, rfl, rfl⟩
      | succ j => cases hj
    · rw [← hnext] at hc ⊢
      exact ⟨j + 1, y, hj, hr, hc, rfl, rfl⟩

/-- **A line** is printed where it begins. -/
theorem overlay_paintLine (color : UInt8) (r c : Nat) (l : List UInt8) (b : Nat → UInt16) :
    Overlay (LineCell color r c l) b (paintLine color r c l b) := by
  induction l generalizing c b with
  | nil =>
      refine Overlay.refl ?_ b
      rintro i e ⟨j, y, hj, _⟩
      cases hj
  | cons x l ih =>
      have hdisj : ∀ i a d, LineCell color r c [x] i a → ¬ LineCell color r (c + 1) l i d := by
        rintro i a d ⟨j, y, hj, _, _, rfl, _⟩ ⟨j', y', _, _, _, hi, _⟩
        cases j with
        | zero => omega
        | succ j => cases hj
      exact ((overlay_paintCell color r c x b).trans (ih (c + 1) _) hdisj).congr
        fun i e ↦ lineCell_cons.symm

/-! ## Texts -/

theorem reached_zero (col : Nat) (ls : List (List UInt8)) : Reached col ls 0 :=
  fun _ hl ↦ by cases hl

theorem reached_succ :
    Reached col (l :: ls) (k + 1) ↔ col + l.length < vgaWidth ∧ Reached col ls k := by
  rw [Reached, List.take_succ_cons, List.forall_mem_cons, Reached]

/-- The first line, and the others below it. -/
theorem textCell_cons (hrow : row < 2 ^ 32) :
    TextCell color col (l :: ls) (PrintedIn row col (l :: ls)) i e ↔
      LineCell color row col l i e ∨ (col + l.length < vgaWidth ∧
        TextCell color col ls (PrintedIn (add32 row 1) col ls) i e) := by
  have hbelow : ∀ k, (row + (k + 1)) % 2 ^ 32 = (add32 row 1 + k) % 2 ^ 32 := fun k ↦ by
    rw [add32]
    omega
  constructor
  · rintro ⟨k, m, r, hk, ⟨hreach, rfl⟩, hcell⟩
    cases k with
    | zero =>
        rw [Nat.add_zero, Nat.mod_eq_of_lt hrow] at hcell
        cases hk
        exact .inl hcell
    | succ k =>
        obtain ⟨hend, hreach⟩ := reached_succ.mp hreach
        exact .inr ⟨hend, k, m, _, hk, ⟨hreach, hbelow k⟩, hcell⟩
  · rintro (hcell | ⟨hend, k, m, r, hk, ⟨hreach, rfl⟩, hcell⟩)
    · exact ⟨0, l, row, rfl, ⟨reached_zero col _, (Nat.mod_eq_of_lt hrow).symm⟩, hcell⟩
    · exact ⟨k + 1, m, _, hk, ⟨reached_succ.mpr ⟨hend, hreach⟩, (hbelow k).symm⟩, hcell⟩

/-- **The lines** are printed as far as the loop comes. -/
theorem overlay_paintLines (hrow : row < 2 ^ 32) (hlen : ls.length ≤ 2 ^ 32) (b : Nat → UInt16) :
    Overlay (TextCell color col ls (PrintedIn row col ls)) b
      (paintLines color col row col ls b) := by
  induction ls generalizing row b with
  | nil =>
      refine Overlay.refl ?_ b
      rintro i e ⟨k, m, r, hk, _⟩
      cases hk
  | cons l ls ih =>
      have hline := overlay_paintLine color row col l b
      rw [paintLines]
      split
      next hend =>
        have hdisj : ∀ i a d, LineCell color row col l i a →
            ¬ TextCell color col ls (PrintedIn (add32 row 1) col ls) i d := by
          rintro i a d ⟨j, x, _, _, hj, rfl, _⟩ ⟨k, m, _, hk, ⟨_, rfl⟩, j', y, _, _, hj', hi, _⟩
          have hk := (List.getElem?_eq_some_iff.mp hk).1
          rw [List.length_cons] at hlen
          change col + j < 80 at hj
          change col + j' < 80 at hj'
          change row * 80 + (col + j) = (add32 row 1 + k) % 2 ^ 32 * 80 + (col + j') at hi
          rw [add32] at hi
          omega
        have hnext : add32 row 1 < 2 ^ 32 := Nat.mod_lt _ (by decide)
        have hrest := ih hnext (Nat.le_of_succ_le hlen) (paintLine color row col l b)
        refine (hline.trans hrest hdisj).congr fun i e ↦ ?_
        rw [textCell_cons hrow, and_iff_right hend]
      next hend =>
        refine hline.congr fun i e ↦ ?_
        rw [textCell_cons hrow, or_iff_left fun hboth ↦ hend hboth.1]

/-- **`vga_put_at`** changes one cell at most. -/
theorem vgaPutAt_eq (r c : Nat) (x : UInt8) (s : Vga) :
    vgaPutAt r c x s = some { s with vgaBuffer := paintCell s.vgaColor r c x s.vgaBuffer } := by
  rw [vgaPutAt, paintCell]
  split
  next hin =>
    rw [indexOf_eq hin.1 hin.2]
    exact poke_of_lt (lt_of_cell hin.1 hin.2)
  next => rfl

/-- Nothing is printed beyond the right edge. -/
theorem paintLine_of_le (hc : vgaWidth ≤ c) (l : List UInt8) (b : Nat → UInt16) :
    paintLine color r c l b = b := by
  induction l generalizing c with
  | nil => rfl
  | cons x l ih =>
      rw [paintLine, paintCell, if_neg fun hin ↦ Nat.not_lt.mpr hc hin.2]
      exact ih (Nat.le_succ_of_le hc)

theorem paintLines_of_le (hc : vgaWidth ≤ c) (ls : List (List UInt8)) (b : Nat → UInt16) :
    paintLines color col r c ls b = b := by
  cases ls with
  | nil => rfl
  | cons l ls =>
      rw [paintLines, if_neg (by omega)]
      exact paintLine_of_le hc l b

/-- **The loop** of `vga_print_at` prints line by line. -/
theorem printAtLoop_eq (h : Holds str text) (col : Nat) (s : Vga) :
    ∃ row' col', printAtLoop col str s = some { s with
      vgaRow := row', vgaCol := col', vgaBuffer :=
        paintLines s.vgaColor col s.vgaRow s.vgaCol (text.splitOn 0x0A) s.vgaBuffer } := by
  induction text generalizing str s with
  | nil =>
      obtain ⟨rest, rfl⟩ := Holds.nil_iff.mp h
      refine ⟨s.vgaRow, s.vgaCol, ?_⟩
      rw [printAtLoop, if_neg fun hmore ↦ hmore.1 rfl, List.splitOn_nil, paintLines, paintLine,
        paintLines, ite_self]
  | cons x text ih =>
      obtain ⟨hx, str, rfl, hrest⟩ := Holds.cons_iff.mp h
      rw [printAtLoop, List.splitOn_cons_eq_if_modifyHead]
      by_cases hc : s.vgaCol < vgaWidth
      · rw [if_pos ⟨hx, hc⟩]
        by_cases hnl : x = 0x0A
        · obtain ⟨row', col', hloop⟩ :=
            ih hrest { s with vgaRow := add32 s.vgaRow 1, vgaCol := col }
          rw [if_pos hnl, hloop, if_pos (beq_iff_eq.mpr hnl), paintLines, List.length_nil,
            Nat.add_zero, if_pos hc]
          exact ⟨row', col', rfl⟩
        · obtain ⟨l, ls, hsplit⟩ := List.exists_cons_of_ne_nil (List.splitOn_ne_nil 0x0A text)
          have hnext : add32 s.vgaCol 1 = s.vgaCol + 1 := add32_of_lt (by
            change s.vgaCol < 80 at hc
            omega)
          have hlen : s.vgaCol + (x :: l).length = s.vgaCol + 1 + l.length := by
            rw [List.length_cons]
            omega
          rw [if_neg hnl, vgaPutAt_eq, Option.bind_eq_bind, Option.bind_some, hnext,
            if_neg fun heq ↦ hnl (beq_iff_eq.mp heq), hsplit, List.modifyHead_cons, paintLines,
            hlen]
          obtain ⟨row', col', hloop⟩ := ih hrest { s with
            vgaCol := s.vgaCol + 1
            vgaBuffer := paintCell s.vgaColor s.vgaRow s.vgaCol x s.vgaBuffer }
          rw [hsplit] at hloop
          exact ⟨row', col', hloop⟩
      · rw [if_neg fun hmore ↦ hc hmore.2, paintLines_of_le (Nat.not_lt.mp hc)]
        exact ⟨s.vgaRow, s.vgaCol, rfl⟩

theorem length_splitOn_le (text : List UInt8) : (text.splitOn 0x0A).length ≤ text.length + 1 := by
  induction text with
  | nil => exact Nat.le_refl _
  | cons x text ih =>
      rw [List.splitOn_cons_eq_if_modifyHead, List.length_cons]
      split
      · exact Nat.succ_le_succ ih
      · rw [List.length_modifyHead]
        exact Nat.le_succ_of_le ih

/-- **What `vga_print_at` does** to the screen. -/
theorem vgaPrintAt_overlay (h : Holds str text) (hrow : row < 2 ^ 32) (hlen : text.length < 2 ^ 32)
    (col : Nat) (s : Vga) : ∃ b', vgaPrintAt row col str s = some { s with vgaBuffer := b' } ∧
      Overlay (TextCell s.vgaColor col (text.splitOn 0x0A) (PrintedIn row col (text.splitOn 0x0A)))
        s.vgaBuffer b' := by
  obtain ⟨row', col', hloop⟩ := printAtLoop_eq h col { s with vgaRow := row, vgaCol := col }
  refine ⟨_, ?_, overlay_paintLines hrow (Nat.le_trans (length_splitOn_le text) hlen) s.vgaBuffer⟩
  rw [vgaPrintAt, hloop]
  rfl

/-! ## When it is in place -/

/-- Lines in the same row are the same line, as there are fewer than `2^32` of them. -/
theorem PrintedIn.eq_of_row {k' : Nat} (hk : k < ls.length) (hk' : k' < ls.length)
    (hlen : ls.length ≤ 2 ^ 32) (h : PrintedIn row col ls k' r) (hr : r = (row + k) % 2 ^ 32) :
    k' = k := by
  have hrow := h.2.symm.trans hr
  omega

theorem mod_of_lt_height (h : row + k < vgaHeight) : (row + k) % 2 ^ 32 = row + k :=
  Nat.mod_eq_of_lt (Nat.lt_trans h (by decide))

/-- A line that is not empty has a cell where it begins. -/
theorem lineCell_head (hr : r < vgaHeight) (hc : c < vgaWidth) (hl : l ≠ []) :
    ∃ e, LineCell color r c l (r * vgaWidth + c) e := by
  obtain ⟨x, l, rfl⟩ := List.exists_cons_of_ne_nil hl
  exact ⟨_, 0, x, rfl, hr, hc, rfl, rfl⟩

/-- Only lines that are not empty and begin on the screen have cells. -/
theorem LineCell.begins (h : LineCell color r c l i e) : r < vgaHeight ∧ c < vgaWidth ∧ l ≠ [] := by
  obtain ⟨j, x, hj, hr, hc, _⟩ := h
  refine ⟨hr, Nat.lt_of_le_of_lt (Nat.le_add_right c j) hc, ?_⟩
  rintro rfl
  cases hj

/-- The row of a cell. -/
theorem LineCell.row_eq (h : LineCell color r col l (row * vgaWidth + c) e) (hc : c < vgaWidth) :
    r = row := by
  obtain ⟨j, x, _, _, hj, hi, _⟩ := h
  change col + j < 80 at hj
  change c < 80 at hc
  change row * 80 + c = r * 80 + (col + j) at hi
  omega

/-- **The text as it is printed** has the cells that it should have exactly if it is in place. -/
theorem textCell_iff (hlen : ls.length ≤ 2 ^ 32) (color : UInt8) :
    (∀ i e, TextCell color col ls (fun k r ↦ r = row + k) i e ↔
      TextCell color col ls (PrintedIn row col ls) i e) ↔ InPlace row col ls := by
  constructor
  · intro h hcol k l hk hne hr
    have hlt : k < ls.length := (List.getElem?_eq_some_iff.mp hk).1
    constructor
    · intro hreach
      obtain ⟨e, hcell⟩ := lineCell_head hr hcol hne
      obtain ⟨k', l', _, hk', rfl, hcell'⟩ := (h _ e).mpr ⟨k, l, _, hk, ⟨hreach, rfl⟩, hcell⟩
      have hlt' : k' < ls.length := (List.getElem?_eq_some_iff.mp hk').1
      have hrow : row + k' = (row + k) % 2 ^ 32 := hcell'.row_eq hcol
      omega
    · intro hon
      obtain ⟨e, hcell⟩ := lineCell_head hon hcol hne
      obtain ⟨k', l', r, hk', hprinted, hcell'⟩ := (h _ e).mp ⟨k, l, _, hk, rfl, hcell⟩
      have hlt' : k' < ls.length := (List.getElem?_eq_some_iff.mp hk').1
      have hrow : r = row + k := hcell'.row_eq hcol
      have heq : k' = k := hprinted.eq_of_row hlt hlt' hlen (hrow.trans (mod_of_lt_height hon).symm)
      exact heq ▸ hprinted.1
  · intro hin i e
    constructor
    · rintro ⟨k, l, _, hk, rfl, hcell⟩
      obtain ⟨hr, hcol, hne⟩ := hcell.begins
      have hmod : row + k = (row + k) % 2 ^ 32 := (mod_of_lt_height hr).symm
      exact ⟨k, l, _, hk, ⟨(hin hcol k l hk hne (hmod ▸ hr)).mpr hr, hmod⟩, hcell⟩
    · rintro ⟨k, l, _, hk, ⟨hreach, rfl⟩, hcell⟩
      obtain ⟨hr, hcol, hne⟩ := hcell.begins
      have hon : row + k < vgaHeight := (hin hcol k l hk hne hr).mp hreach
      exact ⟨k, l, _, hk, mod_of_lt_height hon, hcell⟩

/-- **A text is where it should be** exactly if the lines on the screen are the ones that the loop
comes to. -/
theorem printsAt_iff (h : Holds str text) (hrow : row < 2 ^ 32) (hlen : text.length < 2 ^ 32)
    (col : Nat) : PrintsAt row col str text ↔ InPlace row col (text.splitOn 0x0A) := by
  have hlines := Nat.le_trans (length_splitOn_le text) hlen
  constructor
  · intro hat
    have hboth : ∀ b, ∃ b',
        Overlay (TextCell 0 col (text.splitOn 0x0A) fun k r ↦ r = row + k) b b' ∧
        Overlay (TextCell 0 col (text.splitOn 0x0A) (PrintedIn row col (text.splitOn 0x0A)))
          b b' := by
      intro b
      obtain ⟨b', hprint, hb'⟩ := hat ⟨0, 0, 0, b, []⟩
      obtain ⟨b'', hprint', hb''⟩ := vgaPrintAt_overlay h hrow hlen col ⟨0, 0, 0, b, []⟩
      have hsame : b'' = b' := congrArg Vga.vgaBuffer (Option.some.inj (hprint'.symm.trans hprint))
      exact ⟨b', hb', hsame ▸ hb''⟩
    have : Nontrivial UInt16 := ⟨0, 1, by decide⟩
    refine (textCell_iff hlines 0).mp fun i e ↦ ⟨Overlay.le_of_forall hboth, ?_⟩
    exact Overlay.le_of_forall fun b ↦ (hboth b).imp fun _ ↦ And.symm
  · intro hin s
    obtain ⟨b', hprint, hb'⟩ := vgaPrintAt_overlay h hrow hlen col s
    exact ⟨b', hprint, hb'.congr fun i e ↦ ((textCell_iff hlines s.vgaColor).mpr hin i e).symm⟩

/-- Two lines in the middle of the screen. -/
theorem printsAt_iff_two : PrintsAt 10 40 [0x61, 0x0A, 0x62, 0] [0x61, 0x0A, 0x62] ∧
    InPlace 10 40 [[0x61], [0x62]] := by
  have hin : InPlace 10 40 [[0x61], [0x62]] := by
    intro _ k l hk _ _
    have hlt : k < 2 := (List.getElem?_eq_some_iff.mp hk).1
    refine iff_of_true (fun l hl ↦ ?_) (Nat.lt_of_lt_of_le (Nat.add_lt_add_left hlt 10) (by decide))
    have hall : ∀ l ∈ ([[0x61], [0x62]] : List (List UInt8)), 40 + l.length < vgaWidth := by decide
    exact hall l (List.mem_of_mem_take hl)
  have hlines : ([0x61, 0x0A, 0x62] : List UInt8).splitOn 0x0A = [[0x61], [0x62]] := by decide
  have hiff := printsAt_iff ⟨by decide, [], rfl⟩ (by decide : 10 < 2 ^ 32)
    (by decide : ([0x61, 0x0A, 0x62] : List UInt8).length < 2 ^ 32) 40
  rw [hlines] at hiff
  exact ⟨hiff.mpr hin, hin⟩

/-- A line that ends in the last column loses the line below. -/
theorem not_printsAt : ¬ PrintsAt 0 79 [0x61, 0x0A, 0x62, 0] [0x61, 0x0A, 0x62] := by
  intro hat
  obtain ⟨b', hprint, hb'⟩ := hat ⟨0, 0, 0, fun _ ↦ 0, []⟩
  have hsame : update (fun _ ↦ 0) 79 (vgaEntry 0x61 0) = b' :=
    congrArg Vga.vgaBuffer (Option.some.inj hprint)
  have hcell : b' 159 = vgaEntry 0x62 0 :=
    hb'.drawn 159 _ ⟨1, [0x62], 1, rfl, rfl, 0, 0x62, rfl, by decide, by decide, rfl, rfl⟩
  rw [← hsame] at hcell
  exact absurd hcell (by decide)

end KontolOS.Drivers
