import Mathlib.Data.List.Basic

/-!
# A text under a cursor

A text is a list of lines, and the cursor splits it: into the lines above, what stands to
the left and to the right of the cursor in its own line, and the lines below.  In this
form an edit only moves what is next to the cursor.

Lines have a greatest length, and texts a greatest number of lines.  Insertions and line
breaks check for both.  A backspace that joins two lines does not; the joined line still fits
if what is to the right of the cursor fits behind every line above, and this is so in every
text that is edited from its beginning (`Joinable.edit`).
-/

namespace KontolOS.Lib

universe u

variable {α : Type u}

/-- A text, split at the cursor. -/
structure Text (α : Type u) where
  /-- the lines above the cursor -/
  above : List (List α)
  /-- the line of the cursor, up to the cursor -/
  left : List α
  /-- the rest of this line -/
  right : List α
  /-- the lines below -/
  below : List (List α)

/-- What can be typed. -/
inductive Edit (α : Type u)
  | /-- a character -/ insert (c : α)
  | /-- the backspace key -/ backspace
  | /-- a line break -/ enter

namespace Text

/-- The lines of a text. -/
def lines (t : Text α) : List (List α) := t.above ++ (t.left ++ t.right) :: t.below

/-- A list of lines, with the cursor at its beginning. -/
def start (l : List α) (ls : List (List α)) : Text α := ⟨[], [], l, ls⟩

/-- Insert a character at the cursor, if the line is shorter than `width`. -/
def insert (width : Nat) (c : α) (t : Text α) : Text α :=
  if t.left.length + t.right.length < width then { t with left := t.left ++ [c] } else t

/-- Remove the character before the cursor, or the line break if there is none. -/
def backspace (t : Text α) : Text α :=
  match t.left, t.above.getLast? with
  | _ :: _, _ => { t with left := t.left.dropLast }
  | [], some l => { t with above := t.above.dropLast, left := l }
  | [], none => t

/-- Break the line at the cursor, if there are fewer than `height` lines. -/
def enter (height : Nat) (t : Text α) : Text α :=
  if t.lines.length < height then { t with above := t.above ++ [t.left], left := [] } else t

/-- An edit. -/
def edit (width height : Nat) (t : Text α) : Edit α → Text α
  | .insert c => t.insert width c
  | .backspace => t.backspace
  | .enter => t.enter height

/-- Whether there is something that an edit changes. -/
def changes (width height : Nat) (t : Text α) : Edit α → Bool
  | .insert _ => decide (t.left.length + t.right.length < width)
  | .backspace => decide (0 < t.left.length ∨ 0 < t.above.length)
  | .enter => decide (t.lines.length < height)

section

variable {t : Text α}

/-- A backspace that removes a character. -/
theorem backspace_left {l : List α} {c : α} (hleft : t.left = l ++ [c]) :
    t.backspace = { t with left := l } := by
  rw [backspace]
  split
  · rw [hleft, List.dropLast_concat]
  all_goals
    rename_i hnil _
    rw [hleft] at hnil
    exact absurd hnil (List.append_ne_nil_of_right_ne_nil _ (List.cons_ne_nil _ _))

/-- A backspace that joins two lines. -/
theorem backspace_join {a : List (List α)} {l : List α} (hleft : t.left = [])
    (habove : t.above = a ++ [l]) : t.backspace = { t with above := a, left := l } := by
  have hlast : t.above.getLast? = some l := by rw [habove, List.getLast?_concat]
  rw [backspace, hleft, hlast, habove, List.dropLast_concat]

end

/-! ## Bounds -/

/-- Lines have at most `width` characters, and there are at most `height` of them. -/
structure Fits (width height : Nat) (t : Text α) : Prop where
  /-- there are not too many lines -/
  height_le : t.lines.length ≤ height
  /-- and none of them is too long -/
  width_le : ∀ l ∈ t.lines, l.length ≤ width

/-- A backspace here does not make a line too long. -/
def JoinFits (width : Nat) (t : Text α) : Prop :=
  t.left = [] → ∀ l, t.above.getLast? = some l → l.length + t.right.length ≤ width

/-- What is to the right of the cursor fits behind every line above. -/
def Joinable (width : Nat) (t : Text α) : Prop :=
  ∀ l ∈ t.above, l.length + t.right.length ≤ width

variable {width height : Nat} {t : Text α} {e : Edit α}

@[simp] theorem length_lines : t.lines.length = t.above.length + 1 + t.below.length := by
  simp only [lines, List.length_append, List.length_cons]
  omega

/-- A line break adds a line, if there is space for it. -/
theorem length_lines_enter :
    (t.enter height).lines.length = min (max height t.lines.length) (t.lines.length + 1) := by
  rw [enter]
  split
  next hlt =>
    simp only [length_lines, List.length_append, List.length_singleton] at hlt ⊢
    omega
  next hle => omega

theorem mem_lines {l : List α} :
    l ∈ t.lines ↔ l ∈ t.above ∨ l = t.left ++ t.right ∨ l ∈ t.below := by
  rw [lines, List.mem_append, List.mem_cons]

/-- The two parts of the cursor's line. -/
theorem Fits.cur_le (h : Fits width height t) : t.left.length + t.right.length ≤ width := by
  rw [← List.length_append]
  exact h.width_le _ (mem_lines.mpr (.inr (.inl rfl)))

theorem Joinable.joinFits (h : Joinable width t) : JoinFits width t :=
  fun _ l hl ↦ h l (List.mem_of_getLast? hl)

/-- Edits do not touch what is to the right of the cursor, and so lines that could be joined
can still be joined. -/
theorem Joinable.edit (h : Joinable width t) (hcur : t.left.length + t.right.length ≤ width) :
    Joinable width (t.edit width height e) := by
  cases e with
  | insert c =>
      rw [Text.edit, insert]
      split <;> exact h
  | backspace =>
      rw [Text.edit, backspace]
      split
      · exact h
      · exact fun l hl ↦ h l (List.dropLast_subset _ hl)
      · exact h
  | enter =>
      rw [Text.edit, enter]
      split
      · intro l hl
        rcases List.mem_append.mp hl with hl | hl
        · exact h l hl
        · rw [List.mem_singleton.mp hl]
          exact hcur
      · exact h

/-- The bounds for each part of the text. -/
theorem fits_iff : Fits width height t ↔ t.above.length + 1 + t.below.length ≤ height ∧
    (∀ l ∈ t.above, l.length ≤ width) ∧ t.left.length + t.right.length ≤ width ∧
      ∀ l ∈ t.below, l.length ≤ width := by
  constructor
  · intro h
    rw [← length_lines]
    exact ⟨h.height_le, fun l hl ↦ h.width_le l (mem_lines.mpr (.inl hl)), h.cur_le,
      fun l hl ↦ h.width_le l (mem_lines.mpr (.inr (.inr hl)))⟩
  · rintro ⟨hheight, habove, hcur, hbelow⟩
    refine ⟨by rwa [length_lines], fun l hl ↦ ?_⟩
    rcases mem_lines.mp hl with hl | rfl | hl
    · exact habove l hl
    · rwa [List.length_append]
    · exact hbelow l hl

/-- **Edits keep the bounds**, where lines can be joined. -/
theorem Fits.edit (h : Fits width height t) (hj : Joinable width t) :
    Fits width height (t.edit width height e) := by
  obtain ⟨hheight, habove, hcur, hbelow⟩ := fits_iff.mp h
  cases e with
  | insert c =>
      rw [Text.edit, insert]
      split
      next hlt =>
        refine fits_iff.mpr ⟨hheight, habove, ?_, hbelow⟩
        rw [List.length_append, List.length_singleton]
        dsimp only
        omega
      next => exact h
  | backspace =>
      rw [Text.edit, backspace]
      split
      next =>
        refine fits_iff.mpr ⟨hheight, habove, ?_, hbelow⟩
        rw [List.length_dropLast]
        dsimp only
        omega
      next l _ hlast =>
        have hlen : t.above.dropLast.length ≤ t.above.length := (List.dropLast_sublist _).length_le
        exact fits_iff.mpr ⟨by dsimp only; omega, fun l hl ↦ habove l (List.dropLast_subset _ hl),
          hj l (List.mem_of_getLast? hlast), hbelow⟩
      next => exact h
  | enter =>
      rw [Text.edit, enter]
      split
      next hlt =>
        rw [length_lines] at hlt
        refine fits_iff.mpr ⟨?_, fun l hl ↦ ?_, ?_, hbelow⟩
        · rw [List.length_append, List.length_singleton]
          dsimp only
          omega
        · rcases List.mem_append.mp hl with hl | hl
          · exact habove l hl
          · rw [List.mem_singleton.mp hl]
            omega
        · rw [List.length_nil]
          dsimp only
          omega
      next => exact h

/-- With the cursor at the beginning there is nothing to join. -/
theorem joinable_start (l : List α) (ls : List (List α)) : Joinable width (start l ls) :=
  fun _ h ↦ absurd h List.not_mem_nil

/-! ## Characters -/

/-- All characters of a text satisfy `P`. -/
def All (P : α → Prop) (t : Text α) : Prop := ∀ l ∈ t.lines, ∀ c ∈ l, P c

variable {P : α → Prop}

/-- The characters of each part of the text. -/
theorem all_iff : All P t ↔ (∀ l ∈ t.above, ∀ c ∈ l, P c) ∧ (∀ c ∈ t.left, P c) ∧
    (∀ c ∈ t.right, P c) ∧ ∀ l ∈ t.below, ∀ c ∈ l, P c := by
  simp only [All, lines, List.forall_mem_append, List.forall_mem_cons, and_assoc]

/-- **Edits bring no other characters** than those that are inserted. -/
theorem All.edit (h : All P t) (hinsert : ∀ c, e = .insert c → P c) :
    All P (t.edit width height e) := by
  obtain ⟨habove, hleft, hright, hbelow⟩ := all_iff.mp h
  cases e with
  | insert c =>
      rw [Text.edit, insert]
      split
      · refine all_iff.mpr ⟨habove, List.forall_mem_append.mpr ⟨hleft, ?_⟩, hright, hbelow⟩
        exact List.forall_mem_singleton.mpr (hinsert c rfl)
      · exact h
  | backspace =>
      rw [Text.edit, backspace]
      split
      · exact all_iff.mpr ⟨habove, fun c hc ↦ hleft c (List.dropLast_subset _ hc), hright, hbelow⟩
      next l _ hlast =>
        exact all_iff.mpr ⟨fun l hl ↦ habove l (List.dropLast_subset _ hl),
          habove l (List.mem_of_getLast? hlast), hright, hbelow⟩
      · exact h
  | enter =>
      rw [Text.edit, enter]
      split
      · refine all_iff.mpr ⟨List.forall_mem_append.mpr ⟨habove, ?_⟩, List.forall_mem_nil _, hright,
          hbelow⟩
        exact List.forall_mem_singleton.mpr hleft
      · exact h

end Text

end KontolOS.Lib
