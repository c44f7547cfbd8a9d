import Mathlib.Data.List.GetD

/-!
# A page without end, and a window at its end

A page is a list of rows that grows at its end: characters are put behind each other until a
row has `w` of them, or a newline begins the next row.  Rows that are complete never change.

A window of `h` rows shows the last rows of the page, or all of them from the top if there
are not more than `h`, and blanks where the page has nothing (`Page.view`).  A character
changes one place of the window (`view_write`).  A new row changes nothing as long as the
window has room below (`view_newline_of_lt`), and otherwise moves everything up by one
(`view_newline_of_le`).
-/

namespace KontolOS.Lib

universe u

/-- A page, with the cursor at its end. -/
structure Page (α : Type u) where
  /-- the rows above the cursor -/
  above : List (List α)
  /-- the row of the cursor -/
  row : List α

namespace Page

variable {α : Type u}

/-- A page with nothing on it. -/
def empty : Page α := ⟨[], []⟩

/-- Begin the next row. -/
def newline (p : Page α) : Page α := ⟨p.above ++ [p.row], []⟩

/-- Write a character behind the last one. -/
def write (x : α) (p : Page α) : Page α := { p with row := p.row ++ [x] }

/-- Write a character, and begin the next row if this one has `w` characters. -/
def put (w : Nat) (x : α) (p : Page α) : Page α :=
  if (p.write x).row.length = w then (p.write x).newline else p.write x

/-- Type a character, where `nl` stands for a newline. -/
def type [DecidableEq α] (w : Nat) (nl : α) (p : Page α) (x : α) : Page α :=
  if x = nl then p.newline else p.put w x

/-- The page that a text is laid out on. -/
def layout [DecidableEq α] (w : Nat) (nl : α) (text : List α) : Page α :=
  text.foldl (type w nl) empty

/-- The rows of a page. -/
def rows (p : Page α) : List (List α) := p.above ++ [p.row]

/-- What a window of `h` rows shows in its row `i` and column `j`. -/
def view (h : Nat) (blank : α) (p : Page α) (i j : Nat) : α :=
  (p.rows.getD (p.above.length - (h - 1) + i) []).getD j blank

/-- The row of the window where the cursor is. -/
def cursorRow (h : Nat) (p : Page α) : Nat := min p.above.length (h - 1)

variable {w h i j : Nat} {blank x : α} {p : Page α}

/-! ## Rows -/

theorem getD_rows_of_lt {k : Nat} (hk : k < p.above.length) :
    p.rows.getD k [] = p.above.getD k [] := List.getD_append _ _ _ _ hk

theorem getD_rows_length : p.rows.getD p.above.length [] = p.row := by
  rw [rows, List.getD_append_right _ _ _ _ (Nat.le_refl _), Nat.sub_self]
  rfl

theorem getD_rows_of_gt {k : Nat} (hk : p.above.length < k) : p.rows.getD k [] = [] := by
  apply List.getD_eq_default
  rw [rows, List.length_append]
  exact hk

/-- A new row is empty, and so are the rows that do not exist. -/
theorem getD_rows_newline (k : Nat) : p.newline.rows.getD k [] = p.rows.getD k [] := by
  change (p.rows ++ [[]]).getD k [] = p.rows.getD k []
  rcases Nat.lt_or_ge k p.rows.length with hk | hk
  · exact List.getD_append _ _ _ _ hk
  · rw [List.getD_append_right _ _ _ _ hk, List.getD_eq_default _ _ hk]
    cases k - p.rows.length <;> rfl

/-! ## The window -/

/-- An empty page is blank. -/
theorem view_empty : view h blank empty i j = blank := by
  rw [view]
  rcases Nat.eq_zero_or_pos (empty.above.length - (h - 1) + i) with hk | hk
  · rw [hk]
    rfl
  · rw [getD_rows_of_gt hk]
    rfl

/-- **Writing a character** changes one place of the window. -/
theorem view_write : view h blank (p.write x) i j =
    if i = p.cursorRow h ∧ j = p.row.length then x else view h blank p i j := by
  have hrow : i = p.cursorRow h ↔ p.above.length - (h - 1) + i = p.above.length := by
    rw [cursorRow]
    omega
  simp only [hrow, view]
  change ((p.write x).rows.getD (p.above.length - (h - 1) + i) []).getD j blank = _
  generalize p.above.length - (h - 1) + i = k
  rcases Nat.lt_trichotomy k p.above.length with hk | rfl | hk
  · rw [if_neg fun hc ↦ Nat.ne_of_lt hk hc.1, getD_rows_of_lt hk]
    exact congrArg (List.getD · j blank) (getD_rows_of_lt hk)
  · rw [getD_rows_length]
    change ((p.write x).rows.getD (p.write x).above.length []).getD j blank = _
    rw [getD_rows_length]
    change (p.row ++ [x]).getD j blank = _
    rcases Nat.lt_trichotomy j p.row.length with hj | rfl | hj
    · rw [if_neg fun hc ↦ Nat.ne_of_lt hj hc.2, List.getD_append _ _ _ _ hj]
    · rw [if_pos ⟨rfl, rfl⟩, List.getD_append_right _ _ _ _ (Nat.le_refl _), Nat.sub_self]
      rfl
    · rw [if_neg fun hc ↦ Nat.ne_of_gt hj hc.2, List.getD_eq_default _ _ (Nat.le_of_lt hj)]
      apply List.getD_eq_default
      rw [List.length_append]
      exact hj
  · rw [if_neg fun hc ↦ Nat.ne_of_gt hk hc.1, getD_rows_of_gt hk]
    exact congrArg (List.getD · j blank) (getD_rows_of_gt hk)

/-- **A new row below**, where the window has room for it. -/
theorem view_newline_of_lt (hroom : p.above.length + 1 < h) :
    view h blank p.newline i j = view h blank p i j := by
  rw [view, view, getD_rows_newline]
  congr 2
  change (p.above ++ [p.row]).length - (h - 1) + i = _
  rw [List.length_append, List.length_singleton]
  omega

/-- **A new row below the window**: everything moves up. -/
theorem view_newline_of_le (hfull : h ≤ p.above.length + 1) (hh : 0 < h) :
    view h blank p.newline i j = view h blank p (i + 1) j := by
  rw [view, view, getD_rows_newline]
  congr 2
  change (p.above ++ [p.row]).length - (h - 1) + i = _
  rw [List.length_append, List.length_singleton]
  omega

/-- Below the window there is nothing. -/
theorem view_of_ge (hi : p.cursorRow h < i) : view h blank p i j = blank := by
  rw [cursorRow] at hi
  rw [view, getD_rows_of_gt (by omega)]
  rfl

theorem cursorRow_newline : p.newline.cursorRow h = min (p.cursorRow h + 1) (h - 1) := by
  change min (p.above ++ [p.row]).length (h - 1) = min (min _ _ + 1) _
  rw [List.length_append, List.length_singleton]
  omega

end Page

end KontolOS.Lib
