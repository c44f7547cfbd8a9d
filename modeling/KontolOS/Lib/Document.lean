import KontolOS.Lib.Positions
import KontolOS.Lib.Text

/-!
# A document and its cursor

The editor as its user sees it: a list of lines, and the row and the column of the cursor.  An
edit names lines and characters by their positions and replaces them in the whole list.  Edits
of a text that is split at its cursor (`Text`) come to the same (`Text.doc_edit`); what an edit
does not name, it leaves as it is and where it is (`Doc.othersKept_edit`).
-/

namespace KontolOS.Lib

universe u

variable {α : Type u}

/-- A list of lines, with a cursor in one of them. -/
@[ext] structure Doc (α : Type u) where
  /-- the lines -/
  lines : List (List α)
  /-- the number of the cursor's line -/
  row : Nat
  /-- the number of characters before the cursor -/
  col : Nat
  /-- the cursor is in a line -/
  row_lt : row < lines.length
  /-- and not behind its end -/
  col_le : col ≤ lines[row].length

namespace Doc

/-- The line of the cursor. -/
def line (d : Doc α) : List α := d.lines.get ⟨d.row, d.row_lt⟩

/-- The line before it. -/
def prev (d : Doc α) : List α := d.lines.getD (d.row - 1) []

theorem col_le_line (d : Doc α) : d.col ≤ d.line.length := d.col_le

/-- Insert a character at the cursor, if the line is shorter than `width`. -/
def insert (width : Nat) (c : α) (d : Doc α) : Doc α :=
  if d.line.length < width then
    { lines := d.lines.set d.row (d.line.insertIdx d.col c)
      row := d.row
      col := d.col + 1
      row_lt := List.length_set.symm ▸ d.row_lt
      col_le := by
        rw [List.getElem_set_self, List.length_insertIdx_of_le_length d.col_le_line]
        exact Nat.succ_le_succ d.col_le_line }
  else d

/-- Remove the character before the cursor; at the start of a line, join it to the one before. -/
def backspace (d : Doc α) : Doc α :=
  if 0 < d.col then
    { lines := d.lines.set d.row (d.line.eraseIdx (d.col - 1))
      row := d.row
      col := d.col - 1
      row_lt := List.length_set.symm ▸ d.row_lt
      col_le := by
        rw [List.getElem_set_self]
        exact Nat.le_trans (Nat.sub_le_sub_right d.col_le_line 1) (List.le_length_eraseIdx _ _) }
  else if hrow : 0 < d.row then
    { lines := (d.lines.set (d.row - 1) (d.prev ++ d.line)).eraseIdx d.row
      row := d.row - 1
      col := d.prev.length
      row_lt := by
        have hlt := d.row_lt
        rw [List.length_eraseIdx_of_lt (by rwa [List.length_set]), List.length_set]
        omega
      col_le := by
        have hlt : d.row - 1 < d.row := Nat.sub_one_lt_of_lt hrow
        rw [List.getElem_eraseIdx_of_lt _ hlt, List.getElem_set_self, List.length_append]
        exact Nat.le_add_right _ _ }
  else d

/-- Split the line at the cursor, if there are fewer than `height` lines. -/
def enter (height : Nat) (d : Doc α) : Doc α :=
  if d.lines.length < height then
    { lines := (d.lines.set d.row (d.line.take d.col)).insertIdx (d.row + 1) (d.line.drop d.col)
      row := d.row + 1
      col := 0
      row_lt := by
        have hle : d.row + 1 ≤ (d.lines.set d.row (d.line.take d.col)).length := by
          rw [List.length_set]
          exact d.row_lt
        rw [List.length_insertIdx_of_le_length hle, List.length_set]
        exact Nat.succ_lt_succ d.row_lt
      col_le := Nat.zero_le _ }
  else d

/-- An edit. -/
def edit (width height : Nat) (d : Doc α) : Edit α → Doc α
  | .insert c => d.insert width c
  | .backspace => d.backspace
  | .enter => d.enter height

/-- A backspace here does not make a line too long. -/
def JoinFits (width : Nat) (d : Doc α) : Prop :=
  d.col = 0 → 0 < d.row → d.prev.length + d.line.length ≤ width

/-- From `d` to `d'` the cursor's line is changed, joined to the one above, or split, at most; all
other lines are kept, in their order. -/
def OthersKept (d d' : Doc α) : Prop :=
  ∃ above named named' below, d.lines = above ++ named ++ below ∧
    d'.lines = above ++ named' ++ below ∧ above.length ≤ d.row ∧
    d.row < above.length + named.length ∧ named.length + named'.length ≤ 3

end Doc

/-! ## A text as a document -/

namespace Text

variable {t : Text α} {width height : Nat}

/-- The document of a text. -/
def doc (t : Text α) : Doc α where
  lines := t.lines
  row := t.above.length
  col := t.left.length
  row_lt := by
    rw [length_lines]
    omega
  col_le := by
    simp only [lines, List.getElem_append_right (Nat.le_refl _), Nat.sub_self,
      List.getElem_cons_zero, List.length_append]
    exact Nat.le_add_right _ _

theorem line_doc : t.doc.line = t.left ++ t.right := by
  simp only [Doc.line, doc, lines, List.get_eq_getElem, List.getElem_append_right (Nat.le_refl _),
    Nat.sub_self, List.getElem_cons_zero]

theorem prev_doc {a : List (List α)} {l : List α} (habove : t.above = a ++ [l]) :
    t.doc.prev = l := by
  simp [Doc.prev, doc, lines, habove]

/-- **Every document is that of a text.** -/
theorem exists_doc_eq (d : Doc α) : ∃ t : Text α, t.doc = d := by
  refine ⟨⟨d.lines.take d.row, d.line.take d.col, d.line.drop d.col, d.lines.drop (d.row + 1)⟩, ?_⟩
  ext1
  · change d.lines.take d.row ++ (d.line.take d.col ++ d.line.drop d.col) ::
      d.lines.drop (d.row + 1) = d.lines
    rw [List.take_append_drop, Doc.line, List.get_eq_getElem, List.getElem_cons_drop,
      List.take_append_drop]
  · exact List.length_take_of_le (Nat.le_of_lt d.row_lt)
  · exact List.length_take_of_le d.col_le_line

/-! ### Positions in a list that is split there -/

theorem insertIdx_length_append (l r : List α) (c : α) :
    (l ++ r).insertIdx l.length c = l ++ c :: r := by
  induction l with
  | nil => exact List.insertIdx_zero
  | cons a l ih => exact congrArg (a :: ·) ih

theorem eraseIdx_length_append (l r : List α) (a : α) :
    (l ++ a :: r).eraseIdx l.length = l ++ r := by
  rw [List.eraseIdx_append_of_length_le (Nat.le_refl _), Nat.sub_self, List.eraseIdx_cons_zero]

/-! ### Edits -/

theorem doc_insert (c : α) : (t.insert width c).doc = t.doc.insert width c := by
  have hlen : t.doc.line.length = t.left.length + t.right.length := by
    rw [line_doc, List.length_append]
  by_cases hlt : t.left.length + t.right.length < width
  · have hlt' : t.doc.line.length < width := hlen.symm ▸ hlt
    rw [insert, if_pos hlt, Doc.insert, if_pos hlt']
    ext1
    · change t.above ++ (t.left ++ [c] ++ t.right) :: t.below =
        t.lines.set t.above.length (t.doc.line.insertIdx t.left.length c)
      rw [line_doc, lines, set_length_append, insertIdx_length_append, ← List.append_cons]
    · rfl
    · exact List.length_append
  · have hlt' : ¬ t.doc.line.length < width := hlen.symm ▸ hlt
    rw [insert, if_neg hlt, Doc.insert, if_neg hlt']

theorem doc_backspace_left {l : List α} {a : α} (hleft : t.left = l ++ [a]) :
    (⟨t.above, l, t.right, t.below⟩ : Text α).doc = t.doc.backspace := by
  have hlen : t.left.length = l.length + 1 := by rw [hleft, List.length_append]; rfl
  have hcol : 0 < t.doc.col := Nat.lt_of_lt_of_eq (Nat.succ_pos _) hlen.symm
  rw [Doc.backspace, if_pos hcol]
  ext1
  · change t.above ++ (l ++ t.right) :: t.below =
      (t.above ++ (t.left ++ t.right) :: t.below).set t.above.length
        (t.doc.line.eraseIdx (t.left.length - 1))
    rw [set_length_append, line_doc, hleft, List.length_append, List.length_singleton,
      Nat.add_sub_cancel, ← List.append_cons, eraseIdx_length_append]
  · rfl
  · exact (Nat.sub_eq_of_eq_add hlen).symm

theorem doc_backspace_join {a : List (List α)} {l : List α} (hleft : t.left = [])
    (habove : t.above = a ++ [l]) :
    (⟨a, l, t.right, t.below⟩ : Text α).doc = t.doc.backspace := by
  have hlen : t.above.length = a.length + 1 := by rw [habove, List.length_append]; rfl
  have hcol : ¬ 0 < t.doc.col := by
    change ¬ 0 < t.left.length
    rw [hleft]
    exact Nat.lt_irrefl 0
  have hrow : 0 < t.doc.row := Nat.lt_of_lt_of_eq (Nat.succ_pos _) hlen.symm
  have hrow' : t.doc.row - 1 = a.length := Nat.sub_eq_of_eq_add hlen
  rw [Doc.backspace, if_neg hcol, dif_pos hrow]
  ext1
  · change a ++ (l ++ t.right) :: t.below =
      (t.lines.set (t.doc.row - 1) (t.doc.prev ++ t.doc.line)).eraseIdx t.above.length
    have hat : t.above.length = (a ++ [l ++ t.right]).length := by
      rw [hlen, List.length_append, List.length_singleton]
    rw [hat, hrow', prev_doc habove, line_doc, hleft, List.nil_append, lines, habove,
      ← List.append_cons, set_length_append, List.append_cons a (l ++ t.right) (_ :: _),
      eraseIdx_length_append, ← List.append_cons]
  · exact hrow'.symm
  · exact (congrArg List.length (prev_doc habove)).symm

theorem doc_backspace : t.backspace.doc = t.doc.backspace := by
  rcases List.eq_nil_or_concat t.left with hleft | ⟨l, a, hleft⟩
  · rcases List.eq_nil_or_concat t.above with habove | ⟨a, l, habove⟩
    · have hcol : ¬ 0 < t.doc.col := by
        change ¬ 0 < t.left.length
        rw [hleft]
        exact Nat.lt_irrefl 0
      have hrow : ¬ 0 < t.doc.row := by
        change ¬ 0 < t.above.length
        rw [habove]
        exact Nat.lt_irrefl 0
      rw [Doc.backspace, if_neg hcol, dif_neg hrow, backspace, hleft, habove]
      rfl
    · rw [List.concat_eq_append] at habove
      rw [← doc_backspace_join hleft habove, backspace_join hleft habove]
  · rw [List.concat_eq_append] at hleft
    rw [← doc_backspace_left hleft, backspace_left hleft]

theorem doc_enter : (t.enter height).doc = t.doc.enter height := by
  rw [enter, Doc.enter]
  change Text.doc (if t.lines.length < height then _ else _) =
    if t.lines.length < height then _ else _
  split
  · ext1
    · change t.above ++ [t.left] ++ ([] ++ t.right) :: t.below =
        (t.lines.set t.above.length (t.doc.line.take t.left.length)).insertIdx
          (t.above.length + 1) (t.doc.line.drop t.left.length)
      have hlen : t.above.length + 1 = (t.above ++ [t.left]).length := by
        rw [List.length_append, List.length_singleton]
      rw [line_doc, List.take_left, List.drop_left, lines, set_length_append, hlen,
        List.append_cons t.above t.left t.below, insertIdx_length_append, List.nil_append]
    · exact List.length_append
    · rfl
  · rfl

/-- **An edit at the cursor is an edit of the document.** -/
theorem doc_edit (e : Edit α) : (t.edit width height e).doc = t.doc.edit width height e := by
  cases e with
  | insert c => exact doc_insert c
  | backspace => exact doc_backspace
  | enter => exact doc_enter

/-- A join fits in the text if it fits in the document. -/
theorem joinFits_of_doc (h : t.doc.JoinFits width) : t.JoinFits width := by
  intro hleft l hl
  obtain ⟨a, habove⟩ := List.getLast?_eq_some_iff.mp hl
  have hrow : 0 < t.doc.row := by
    change 0 < t.above.length
    rw [habove, List.length_append]
    exact Nat.succ_pos _
  have hjoin := h (congrArg List.length hleft) hrow
  rwa [prev_doc habove, line_doc, hleft, List.nil_append] at hjoin

/-! ### What an edit leaves alone -/

/-- A change of the cursor's line alone. -/
theorem othersKept_cur (l : List (List α)) {t' : Text α}
    (hl : l.length ≤ 2) (h : t'.lines = t.above ++ l ++ t.below) : t.doc.OthersKept t'.doc := by
  refine ⟨t.above, [t.left ++ t.right], l, t.below, List.append_cons _ _ _, h, Nat.le_refl _,
    Nat.lt_succ_self _, ?_⟩
  rw [List.length_singleton]
  omega

theorem othersKept_refl : t.doc.OthersKept t.doc :=
  othersKept_cur [t.left ++ t.right] (Nat.le_succ 1) (List.append_cons _ _ _)

theorem othersKept_edit (e : Edit α) : t.doc.OthersKept (t.edit width height e).doc := by
  cases e with
  | insert c =>
      rw [edit, insert]
      split
      · exact othersKept_cur [t.left ++ [c] ++ t.right] (Nat.le_succ 1) (List.append_cons _ _ _)
      · exact othersKept_refl
  | backspace =>
      rcases List.eq_nil_or_concat t.left with hleft | ⟨l, a, hleft⟩
      · rcases List.eq_nil_or_concat t.above with habove | ⟨a, l, habove⟩
        · rw [edit, backspace, hleft, habove]
          exact othersKept_refl
        · rw [List.concat_eq_append] at habove
          rw [edit, backspace_join hleft habove]
          refine ⟨a, [l, t.left ++ t.right], [l ++ t.right], t.below, ?_, List.append_cons _ _ _,
            ?_, ?_, Nat.le_refl 3⟩
          · change t.above ++ (t.left ++ t.right) :: t.below = _
            rw [habove, List.append_assoc, List.append_assoc]
            rfl
          · change a.length ≤ t.above.length
            rw [habove, List.length_append]
            exact Nat.le_add_right _ _
          · change t.above.length < a.length + 2
            rw [habove, List.length_append]
            exact Nat.lt_succ_self _
      · rw [List.concat_eq_append] at hleft
        rw [edit, backspace_left hleft]
        exact othersKept_cur [l ++ t.right] (Nat.le_succ 1) (List.append_cons _ _ _)
  | enter =>
      rw [edit, enter]
      split
      · refine othersKept_cur [t.left, t.right] (Nat.le_refl 2) ?_
        change t.above ++ [t.left] ++ ([] ++ t.right) :: t.below = _
        rw [List.append_assoc, List.append_assoc, List.nil_append]
        rfl
      · exact othersKept_refl

end Text

/-- **An edit leaves the other lines as they are and where they are.** -/
theorem Doc.othersKept_edit (d : Doc α) (width height : Nat) (e : Edit α) :
    d.OthersKept (d.edit width height e) := by
  obtain ⟨t, rfl⟩ := Text.exists_doc_eq d
  rw [← Text.doc_edit]
  exact Text.othersKept_edit e

end KontolOS.Lib
