import KontolOS.Lib.Text
import KontolOS.Shell.Lines

/-!
# The editor edits a text

`Shows e t`: the lines and the cursor of the editor `e` are those of the text `t`.  Each key
that edits does to the editor what `Text.edit` does to the text; a backspace that joins two
lines does so if the joined line fits.
-/

namespace KontolOS.Shell

open KontolOS.Lib KontolOS.Memory KontolOS.Strings KontolOS.Fs Function

/-- The longest string that a line can hold. -/
def nanoWidth : Nat := nanoLineLen - 1

theorem lt_lineLen {n : Nat} (h : n ≤ nanoWidth) : n < nanoLineLen :=
  Nat.lt_of_le_of_lt h (by decide)

/-- The strings `s` begin with the lines of `t`. -/
structure TextAt (s : Nat → List UInt8) (t : Text UInt8) : Prop where
  /-- the lines above the cursor -/
  above : ∀ i l, t.above[i]? = some l → s i = l
  /-- the cursor's line -/
  cur : s t.above.length = t.left ++ t.right
  /-- the lines below -/
  below : ∀ i l, t.below[i]? = some l → s (t.above.length + 1 + i) = l

/-- The editor shows the text `t`. -/
structure Shows (e : Nano) (t : Text UInt8) : Prop where
  /-- the number of lines -/
  numLines : e.numLines = t.lines.length
  /-- the line of the cursor -/
  curLine : e.curLine = t.above.length
  /-- and the column -/
  curCol : e.curCol = t.left.length
  /-- there are not too many lines -/
  height_le : t.lines.length ≤ nanoMaxLines
  /-- the lines themselves -/
  lines : ∃ s, LinesHold e.lines s ∧ TextAt s t

theorem TextAt.lines {s : Nat → List UInt8} {t : Text UInt8} (h : TextAt s t) {i : Nat}
    {l : List UInt8} (hi : t.lines[i]? = some l) : s i = l := by
  rw [Text.lines] at hi
  rcases Nat.lt_trichotomy i t.above.length with hlt | rfl | hgt
  · rw [List.getElem?_append_left hlt] at hi
    exact h.above i l hi
  · rw [getElem?_length_append] at hi
    exact h.cur.trans (Option.some.inj hi)
  · obtain ⟨k, rfl⟩ := Nat.exists_eq_add_of_lt hgt
    rw [List.getElem?_append_right (by omega),
      show t.above.length + k + 1 - t.above.length = k + 1 by omega,
      List.getElem?_cons_succ] at hi
    rw [Nat.add_right_comm]
    exact h.below k l hi

/-- Another line for the cursor's. -/
theorem TextAt.setCur {s : Nat → List UInt8} {t : Text UInt8} (h : TextAt s t)
    (l r : List UInt8) :
    TextAt (update s t.above.length (l ++ r)) { t with left := l, right := r } := by
  constructor
  · intro i k hk
    rw [update_of_ne (Nat.ne_of_lt (List.getElem?_eq_some_iff.mp hk).1)]
    exact h.above i k hk
  · exact update_self _ _ _
  · intro i k hk
    have hne : t.above.length + 1 + i ≠ t.above.length := by omega
    exact (update_of_ne hne _ _).trans (h.below i k hk)

/-- The lines after the cursor's line was put behind the one above it, and those below moved up. -/
theorem TextAt.join {s : Nat → List UInt8} {t : Text UInt8} (h : TextAt s t)
    {a : List (List UInt8)} {l : List UInt8} (habove : t.above = a ++ [l]) :
    TextAt (update (fun k ↦ if a.length + 1 ≤ k ∧ k < a.length + 1 + t.below.length then
        update s a.length (l ++ t.right) (k + 1) else update s a.length (l ++ t.right) k)
      (a.length + 1 + t.below.length) []) { t with above := a, left := l } := by
  have hlen : t.above.length = a.length + 1 := by
    rw [habove, List.length_append, List.length_singleton]
  constructor
  · intro i k hk
    have hi : i < a.length := (List.getElem?_eq_some_iff.mp hk).1
    rw [update_of_ne (by omega), if_neg (by omega), update_of_ne (by omega)]
    exact h.above i k (by rw [habove, List.getElem?_append_left hi]; exact hk)
  · have hne : a.length ≠ a.length + 1 + t.below.length := by omega
    rw [update_of_ne hne, if_neg (by omega)]
    exact update_self _ _ _
  · intro i k hk
    have hi : i < t.below.length := (List.getElem?_eq_some_iff.mp hk).1
    have hne : a.length + 1 + i ≠ a.length + 1 + t.below.length := by omega
    have hne' : a.length + 1 + i + 1 ≠ a.length := by omega
    have hin : a.length + 1 ≤ a.length + 1 + i ∧
        a.length + 1 + i < a.length + 1 + t.below.length := by omega
    rw [update_of_ne hne, if_pos hin, update_of_ne hne', ← h.below i k hk, hlen, Nat.add_right_comm]

/-- The lines after those below the cursor moved down, and its line was broken in two. -/
theorem TextAt.enter {s : Nat → List UInt8} {t : Text UInt8} (h : TextAt s t) :
    TextAt (update (update (fun k ↦
        if t.above.length + 1 < k ∧ k ≤ t.above.length + 1 + t.below.length then s (k - 1) else s k)
      (t.above.length + 1) t.right) t.above.length t.left)
      { t with above := t.above ++ [t.left], left := [] } := by
  have hlen : (t.above ++ [t.left]).length = t.above.length + 1 := List.length_append
  constructor
  · intro i l hl
    rcases Nat.lt_or_ge i t.above.length with hi | hi
    · rw [update_of_ne (by omega), update_of_ne (by omega), if_neg (by omega)]
      rw [List.getElem?_append_left hi] at hl
      exact h.above i l hl
    · -- the line above the cursor is the new one
      have hlt : i < (t.above ++ [t.left]).length := (List.getElem?_eq_some_iff.mp hl).1
      obtain rfl : i = t.above.length := by omega
      rw [getElem?_length_append] at hl
      rw [update_self]
      exact Option.some.inj hl
  · have hne : t.above.length + 1 ≠ t.above.length := by omega
    rw [hlen, update_of_ne hne, update_self]
    rfl
  · intro i l hl
    have hi : i < t.below.length := (List.getElem?_eq_some_iff.mp hl).1
    have hne : t.above.length + 1 + 1 + i ≠ t.above.length := by omega
    have hne' : t.above.length + 1 + 1 + i ≠ t.above.length + 1 := by omega
    have hin : t.above.length + 1 < t.above.length + 1 + 1 + i ∧
        t.above.length + 1 + 1 + i ≤ t.above.length + 1 + t.below.length := by omega
    have hprev : t.above.length + 1 + 1 + i - 1 = t.above.length + 1 + i := by omega
    rw [hlen, update_of_ne hne, update_of_ne hne', if_pos hin, hprev]
    exact h.below i l hl

theorem textAt_iff {s : Nat → List UInt8} {t : Text UInt8} :
    TextAt s t ↔ ∀ i l, t.lines[i]? = some l → s i = l := by
  refine ⟨fun h i l hi ↦ h.lines hi, fun h ↦
    ⟨fun i l hi ↦ h i l ?_, h _ _ ?_, fun i l hi ↦ h _ l ?_⟩⟩
  · rw [Text.lines, List.getElem?_append_left (List.getElem?_eq_some_iff.mp hi).1, hi]
  · rw [Text.lines, getElem?_length_append]
  · have hsub : t.above.length + 1 + i - t.above.length = i + 1 := by omega
    rw [Text.lines, List.getElem?_append_right (by omega), hsub, List.getElem?_cons_succ, hi]

namespace Shows

variable {e : Nano} {t : Text UInt8}

/-- The line of the cursor exists. -/
theorem above_lt (h : Shows e t) : t.above.length + 1 + t.below.length ≤ nanoMaxLines := by
  rw [← Text.length_lines]
  exact h.height_le

/-- **The text fits.** -/
theorem fits (h : Shows e t) : t.Fits nanoWidth nanoMaxLines := by
  obtain ⟨s, hs, ht⟩ := h.lines
  refine ⟨h.height_le, fun l hl ↦ ?_⟩
  obtain ⟨i, hi⟩ := List.mem_iff_getElem?.mp hl
  have hlt : i < t.lines.length := (List.getElem?_eq_some_iff.mp hi).1
  rw [← ht.lines hi]
  exact Nat.le_sub_one_of_lt (hs.lt (Nat.lt_of_lt_of_le hlt h.height_le))

/-- The column of the cursor, as the index that it is used for. -/
theorem sizeT_curCol (h : Shows e t) : sizeT e.curCol = t.left.length := by
  rw [h.curCol]
  have hle := Nat.le_trans (Nat.le_add_right _ t.right.length) h.fits.cur_le
  exact sizeT_natCast (Nat.lt_of_le_of_lt hle (by decide))

/-- The length of the cursor's line. -/
theorem strlen_cur (h : Shows e t) :
    (lineAt e.lines e.curLine).bind strlen = some (t.left.length + t.right.length) := by
  obtain ⟨s, hs, ht⟩ := h.lines
  rw [h.curLine, hs.strlen_lineAt (by have := h.above_lt; omega), ht.cur, List.length_append]

/-- The bounds checks find nothing to correct. -/
theorem nanoClamp_eq (h : Shows e t) : nanoClamp e = some e := by
  have hlen := h.strlen_cur
  have hcur := h.fits.cur_le
  have habove := h.above_lt
  have hnum := h.numLines
  rw [Text.length_lines] at hnum
  have hline : ¬ e.curLine < 0 ∧ ¬ e.numLines ≤ e.curLine := by
    rw [h.curLine]
    omega
  have hint : toInt (t.left.length + t.right.length) = (t.left.length + t.right.length : Nat) :=
    toInt_of_lt (Nat.lt_of_le_of_lt hcur (by decide))
  have hcol : ¬ e.curCol < 0 ∧ ¬ toInt (t.left.length + t.right.length) < e.curCol := by
    rw [hint, h.curCol]
    omega
  rw [nanoClamp, if_neg hline.1, if_neg hline.2, if_neg hcol.1]
  cases hat : lineAt e.lines e.curLine with
  | none => rw [hat] at hlen; cases hlen
  | some buf =>
      rw [hat, Option.bind_some] at hlen
      simp only [Option.bind_eq_bind, Option.bind_some, hlen, if_neg hcol.2]
      rfl

/-! ## The keys that edit -/

/-- **A printable character.** -/
theorem insert (h : Shows e t) {c : UInt8} (hc : c ≠ 0) :
    ∃ e', nanoInsert c e = some e' ∧ Shows e' (t.insert nanoWidth c) ∧ e'.running = e.running := by
  obtain ⟨s, hs, ht⟩ := h.lines
  have hi : t.above.length < nanoMaxLines := by have := h.above_lt; omega
  obtain ⟨buf, hat, _, hb⟩ := hs.lineAt_eq hi
  rw [← h.curLine] at hat
  have hlen := hb.strlen_eq
  rw [ht.cur, List.length_append] at hlen
  rw [nanoInsert, Text.insert]
  simp only [hat, hlen, Option.bind_eq_bind, Option.bind_some]
  by_cases hlt : t.left.length + t.right.length < nanoWidth
  · have hlt' : t.left.length + t.right.length < nanoLineLen - 1 := hlt
    rw [if_pos hlt', if_pos hlt]
    have hcol := h.sizeT_curCol
    obtain ⟨ls', hm, hs'⟩ := hs.modify hi (x := t.left ++ [c] ++ t.right)
      (f := fun buf ↦ (openGap (sizeT e.curCol) (t.left.length + t.right.length + 1) buf).bind
        (store · (sizeT e.curCol) c)) fun buf hblen hb ↦ by
      rw [ht.cur] at hb
      obtain ⟨hmem, rest, rfl⟩ := hb
      -- there is a byte behind the terminator for the terminator to move to
      cases rest with
      | nil =>
          simp only [List.length_append, List.length_cons, List.length_nil] at hblen
          unfold nanoWidth at hlt
          omega
      | cons x rest =>
          obtain ⟨z, hz⟩ := openGap_eq t.left (t.right ++ [0]) rest x
          have hbuf : t.left ++ t.right ++ 0 :: x :: rest =
              t.left ++ (t.right ++ [0] ++ x :: rest) := by simp
          have hcount : t.left.length + t.right.length + 1 =
              t.left.length + (t.right ++ [0]).length := by simp [Nat.add_assoc]
          refine ⟨t.left ++ c :: (t.right ++ [0] ++ rest), ?_, ?_, ?_, rest, ?_⟩
          · rw [hcol, hbuf, hcount, hz, Option.bind_some,
              store_eq (by simp), set_length_append]
          · simp only [List.length_append, List.length_cons, List.length_nil] at hblen ⊢
            omega
          · simp only [List.mem_append, List.mem_singleton, not_or] at hmem ⊢
            exact ⟨⟨hmem.1, hc.symm⟩, hmem.2⟩
          · simp
    rw [← h.curLine] at hm
    refine ⟨{ e with lines := ls', curCol := e.curCol + 1, modified := true }, by rw [hm]; rfl,
      ⟨?_, h.curLine, ?_, ?_, _, hs', ht.setCur (t.left ++ [c]) t.right⟩, rfl⟩
    · simpa using h.numLines
    · simp [h.curCol]
    · simpa using h.height_le
  · have hlt' : ¬ t.left.length + t.right.length < nanoLineLen - 1 := hlt
    rw [if_neg hlt', if_neg hlt]
    exact ⟨e, rfl, h, rfl⟩

/-- **Backspace**, where it removes a character. -/
theorem backspace_left (h : Shows e t) {d : UInt8} {l : List UInt8} (hleft : t.left = l ++ [d]) :
    ∃ e', nanoBackspace e = some e' ∧ Shows e' { t with left := l } ∧ e'.running = e.running := by
  obtain ⟨s, hs, ht⟩ := h.lines
  have hi : t.above.length < nanoMaxLines := by have := h.above_lt; omega
  have hcur := h.fits.cur_le
  have hcol : e.curCol = l.length + 1 := by rw [h.curCol, hleft]; simp
  have hsize : sizeT (e.curCol - 1) = l.length := by
    rw [hcol, Int.add_sub_cancel]
    refine sizeT_natCast (Nat.lt_of_le_of_lt ?_ (by decide : nanoWidth < 2 ^ 32))
    rw [hleft] at hcur
    simp only [List.length_append] at hcur
    omega
  obtain ⟨buf, hat, _, hb⟩ := hs.lineAt_eq hi
  rw [← h.curLine] at hat
  have hlen := hb.strlen_eq
  rw [ht.cur, hleft, List.append_assoc, List.length_append] at hlen
  obtain ⟨ls', hm, hs'⟩ := hs.modify hi (x := l ++ t.right)
    (f := (closeGap · l.length (t.right.length + 1))) fun buf hblen hb ↦ by
      rw [ht.cur, hleft] at hb
      obtain ⟨hmem, rest, rfl⟩ := hb
      refine ⟨l ++ (t.right ++ 0 :: 0 :: rest), ?_, ?_, ?_, 0 :: rest, by simp⟩
      · rw [← closeGap_eq l t.right rest d]
        simp
      · simp only [List.length_append, List.length_cons, List.length_nil] at hblen ⊢
        omega
      · simp only [List.mem_append, not_or] at hmem ⊢
        exact ⟨hmem.1.1, hmem.2⟩
  rw [← h.curLine] at hm
  refine ⟨{ e with lines := ls', curCol := e.curCol - 1, modified := true }, ?_,
    ⟨?_, h.curLine, by rw [hcol, Int.add_sub_cancel], ?_, _, hs', ht.setCur l t.right⟩, rfl⟩
  · have hcount : l.length + ([d] ++ t.right).length - l.length = t.right.length + 1 := by
      rw [Nat.add_sub_cancel_left]
      rfl
    simp only [nanoBackspace, if_pos (show 0 < e.curCol by rw [hcol]; omega), hat, hlen, hsize,
      hcount, Option.bind_eq_bind, Option.bind_some, hm]
    rfl
  · simpa using h.numLines
  · simpa using h.height_le

/-- **Backspace**, where it joins two lines that fit in one. -/
theorem backspace_join (h : Shows e t) {a : List (List UInt8)} {l : List UInt8}
    (hleft : t.left = []) (habove : t.above = a ++ [l])
    (hfit : l.length + t.right.length ≤ nanoWidth) :
    ∃ e', nanoBackspace e = some e' ∧ Shows e' { t with above := a, left := l } ∧
      e'.running = e.running := by
  obtain ⟨s, hs, ht⟩ := h.lines
  have hlt := h.above_lt
  have hlen : t.above.length = a.length + 1 := by rw [habove]; simp
  have hcol : ¬ 0 < e.curCol := by rw [h.curCol, hleft]; decide
  have hline : e.curLine - 1 = a.length := by rw [h.curLine, hlen]; omega
  have hnum : e.numLines = (a.length + 1 + t.below.length : Nat) + 1 := by
    rw [h.numLines, Text.length_lines, hlen]
    omega
  have hsl : s a.length = l := ht.above _ _ (by rw [habove]; simp)
  have hsr : s (a.length + 1) = t.right := by
    rw [← hlen, ht.cur, hleft, List.nil_append]
  obtain ⟨prev, hprev, _, hpb⟩ := hs.lineAt_eq (i := a.length) (by omega)
  rw [hsl] at hpb
  obtain ⟨next, hnext, _, hnb⟩ := hs.lineAt_eq (i := a.length + 1) (by omega)
  rw [hsr] at hnb
  obtain ⟨ls₁, hm₁, hs₁⟩ := hs.modify (i := a.length) (x := l ++ t.right) (f := (strcat · next))
    (by omega) fun buf hblen hb ↦ by
      rw [hsl] at hb
      rw [← hblen]
      exact hb.strcat_holds hnb (by rw [hblen]; exact lt_lineLen hfit)
  obtain ⟨ls₂, hm₂, hs₂⟩ := hs₁.shiftUp (i := a.length + 1) (n := t.below.length) (by omega)
  obtain ⟨ls₃, hm₃, hs₃⟩ := hs₂.modify (i := a.length + 1 + t.below.length) (x := [])
    (f := (Shell.store · 0 0)) (by omega) fun buf hblen _ ↦ by
      rw [← hblen]
      exact store_zero (by rw [hblen]; decide)
  have hint : toInt l.length = l.length :=
    toInt_of_lt (Nat.lt_of_le_of_lt (Nat.le_trans (Nat.le_add_right _ _) hfit) (by decide))
  refine ⟨{ e with
    lines := ls₃, numLines := e.numLines - 1, curLine := e.curLine - 1, curCol := l.length,
    modified := true }, ?_, ⟨?_, hline, rfl, ?_, _, hs₃, ht.join habove⟩, rfl⟩
  · have hpos : 0 < e.curLine := by rw [h.curLine, hlen]; omega
    have hnum' : e.numLines - 1 = (a.length + 1 + t.below.length : Nat) := by omega
    have hcount : (((a.length + 1 + t.below.length : Nat) : Int) -
        ((a.length + 1 : Nat) : Int)).toNat = t.below.length := by omega
    simp only [nanoBackspace, if_neg hcol, if_pos hpos, hline, ← Int.natCast_succ, hprev,
      hpb.strlen_eq, hint, hnext, hm₁, hnum', Nat.succ_eq_add_one, hcount, hm₂, hm₃,
      Option.bind_eq_bind, Option.bind_some]
    rfl
  · rw [hnum, Text.length_lines]
    simp
  · rw [Text.length_lines]
    change a.length + 1 + t.below.length ≤ _
    omega

/-- **Backspace**: where it joins two lines, the joined line must fit. -/
theorem backspace (h : Shows e t) (hj : t.JoinFits nanoWidth) :
    ∃ e', nanoBackspace e = some e' ∧ Shows e' t.backspace ∧ e'.running = e.running := by
  rcases List.eq_nil_or_concat t.left with hleft | ⟨l, d, hleft⟩
  · rcases List.eq_nil_or_concat t.above with habove | ⟨a, l, habove⟩
    · refine ⟨e, ?_, ?_, rfl⟩
      · have hcol : ¬ 0 < e.curCol := by rw [h.curCol, hleft]; decide
        have hline : ¬ 0 < e.curLine := by rw [h.curLine, habove]; decide
        rw [nanoBackspace, if_neg hcol, if_neg hline]
      · rw [Text.backspace, hleft, habove]
        exact h
    · rw [List.concat_eq_append] at habove
      rw [Text.backspace_join hleft habove]
      exact h.backspace_join hleft habove (hj hleft l (by rw [habove, List.getLast?_concat]))
  · rw [List.concat_eq_append] at hleft
    rw [Text.backspace_left hleft]
    exact h.backspace_left hleft

/-- **Enter.** -/
theorem enter (h : Shows e t) :
    ∃ e', nanoEnter e = some e' ∧ Shows e' (t.enter nanoMaxLines) ∧ e'.running = e.running := by
  have hnum := h.numLines
  by_cases hlt : t.lines.length < nanoMaxLines
  · rw [Text.enter, if_pos hlt]
    rw [Text.length_lines] at hlt hnum
    obtain ⟨s, hs, ht⟩ := h.lines
    have hcur := h.fits.cur_le
    have hcol := h.sizeT_curCol
    obtain ⟨ls₁, hm₁, hs₁⟩ := hs.shiftDown (i := t.above.length + 1 + t.below.length)
      (n := t.below.length) hlt (by omega)
    rw [Nat.add_sub_cancel] at hs₁
    -- the cursor's line is not among those that moved
    have hcur₁ : (if t.above.length + 1 < t.above.length ∧
        t.above.length ≤ t.above.length + 1 + t.below.length then s (t.above.length - 1)
        else s t.above.length) = t.left ++ t.right := by
      rw [if_neg (by omega), ht.cur]
    obtain ⟨buf, hat, hblen, hb⟩ := hs₁.lineAt_eq (i := t.above.length) (by omega)
    rw [hcur₁] at hb
    have hsrc : Holds (buf.drop t.left.length) t.right := hb.drop
    obtain ⟨ls₂, hm₂, hs₂⟩ := hs₁.modify (i := t.above.length + 1) (x := t.right)
      (f := (strcpy · (buf.drop t.left.length))) (by omega) fun dest hdlen _ ↦ by
        rw [← hdlen]
        refine hsrc.strcpy_holds ?_
        rw [hdlen]
        exact lt_lineLen (Nat.le_trans (Nat.le_add_left _ _) hcur)
    obtain ⟨ls₃, hm₃, hs₃⟩ := hs₂.modify (i := t.above.length) (x := t.left)
      (f := (Shell.store · t.left.length 0)) (by omega) fun buf hblen hb ↦ by
        rw [update_of_ne (by omega), hcur₁] at hb
        have hin : t.left.length < buf.length := by
          have := hb.length_lt
          rw [List.length_append] at this
          omega
        exact ⟨_, store_eq hin 0, by rw [List.length_set, hblen], hb.truncate⟩
    refine ⟨{ e with
      lines := ls₃, numLines := e.numLines + 1, curLine := e.curLine + 1, curCol := 0,
      modified := true }, ?_, ⟨?_, ?_, rfl, ?_, _, hs₃, ht.enter⟩, rfl⟩
    · have hmore : e.numLines < nanoMaxLines := by rw [hnum]; exact_mod_cast hlt
      have hcount : (((t.above.length + 1 + t.below.length : Nat) : Int) -
          ((t.above.length + 1 : Nat) : Int)).toNat = t.below.length := by omega
      rw [nanoEnter, if_pos hmore]
      simp only [hcol, hnum, h.curLine, ← Int.natCast_succ, Nat.succ_eq_add_one, hcount, hm₁, hat,
        hm₂, hm₃, Option.bind_eq_bind, Option.bind_some]
      rfl
    · rw [hnum, Text.length_lines]
      simp [Nat.add_right_comm]
    · simp [h.curLine]
    · rw [Text.length_lines]
      simp only [List.length_append, List.length_singleton]
      omega
  · rw [Text.enter, if_neg hlt]
    have hmore : ¬ e.numLines < nanoMaxLines := by
      rw [hnum]
      exact_mod_cast hlt
    exact ⟨e, by rw [nanoEnter, if_neg hmore], h, rfl⟩

/-! ## The mark -/

/-- A character marks the text as modified if there is a place for it. -/
theorem modified_insert (h : Shows e t) {c : UInt8} {e' : Nano}
    (hcall : nanoInsert c e = some e') :
    e'.modified = (e.modified || t.changes nanoWidth nanoMaxLines (.insert c)) := by
  obtain ⟨buf, hat, hlen⟩ := Option.bind_eq_some_iff.mp h.strlen_cur
  simp only [nanoInsert, hat, hlen, Option.bind_eq_bind, Option.bind_some] at hcall
  rw [Text.changes]
  by_cases hlt : t.left.length + t.right.length < nanoWidth
  · rw [if_pos (show _ < nanoLineLen - 1 from hlt)] at hcall
    obtain ⟨lines, _, heq⟩ := Option.bind_eq_some_iff.mp hcall
    cases heq
    rw [decide_eq_true hlt, Bool.or_true]
  · rw [if_neg (show ¬ _ < nanoLineLen - 1 from hlt)] at hcall
    cases hcall
    rw [decide_eq_false hlt, Bool.or_false]

/-- A backspace does so if there is something in front of the cursor. -/
theorem modified_backspace (h : Shows e t) {e' : Nano} (hcall : nanoBackspace e = some e') :
    e'.modified = (e.modified || t.changes nanoWidth nanoMaxLines .backspace) := by
  have hcol := h.curCol
  have hline := h.curLine
  rw [nanoBackspace] at hcall
  rw [Text.changes]
  split at hcall
  next hleft =>
    obtain ⟨_, _, hcall⟩ := Option.bind_eq_some_iff.mp hcall
    obtain ⟨_, _, hcall⟩ := Option.bind_eq_some_iff.mp hcall
    obtain ⟨_, _, heq⟩ := Option.bind_eq_some_iff.mp hcall
    cases heq
    rw [decide_eq_true (.inl (by omega)), Bool.or_true]
  next hleft =>
    split at hcall
    next habove =>
      obtain ⟨_, _, hcall⟩ := Option.bind_eq_some_iff.mp hcall
      obtain ⟨_, _, hcall⟩ := Option.bind_eq_some_iff.mp hcall
      obtain ⟨_, _, hcall⟩ := Option.bind_eq_some_iff.mp hcall
      obtain ⟨_, _, hcall⟩ := Option.bind_eq_some_iff.mp hcall
      obtain ⟨_, _, hcall⟩ := Option.bind_eq_some_iff.mp hcall
      obtain ⟨_, _, heq⟩ := Option.bind_eq_some_iff.mp hcall
      cases heq
      rw [decide_eq_true (.inr (by omega)), Bool.or_true]
    next habove =>
      cases hcall
      rw [decide_eq_false (by omega), Bool.or_false]

/-- A line break does so if there is a place for the line. -/
theorem modified_enter (h : Shows e t) {e' : Nano} (hcall : nanoEnter e = some e') :
    e'.modified = (e.modified || t.changes nanoWidth nanoMaxLines .enter) := by
  have hnum : e.numLines < nanoMaxLines ↔ t.lines.length < nanoMaxLines := by
    rw [h.numLines]
    exact Int.ofNat_lt
  rw [nanoEnter] at hcall
  rw [Text.changes]
  split at hcall
  next hlt =>
    obtain ⟨_, _, hcall⟩ := Option.bind_eq_some_iff.mp hcall
    obtain ⟨_, _, hcall⟩ := Option.bind_eq_some_iff.mp hcall
    obtain ⟨_, _, hcall⟩ := Option.bind_eq_some_iff.mp hcall
    obtain ⟨_, _, heq⟩ := Option.bind_eq_some_iff.mp hcall
    cases heq
    rw [decide_eq_true (hnum.mp hlt), Bool.or_true]
  next hge =>
    cases hcall
    rw [decide_eq_false (mt hnum.mpr hge), Bool.or_false]

end Shows

end KontolOS.Shell
