import Mathlib.Data.List.Basic

/-!
# Words of a text

The words of a text are its maximal runs without blanks: what is left of the pieces between the
blanks when those that are empty are thrown away.  A reader that goes through the text once finds
them one after the other: it skips blanks (`words_blanks`), and then takes a word up to the next
blank (`words_append_cons`) or up to the end (`words_eq_singleton`).
-/

namespace KontolOS.Lib

universe u

variable {α : Type u}

/-- The maximal runs without blanks. -/
def words (blank : α → Bool) (s : List α) : List (List α) :=
  (s.splitOnP blank).filter fun w ↦ !w.isEmpty

variable {blank : α → Bool} {b c : α} {u w : List α}

/-- A word has a character. -/
theorem ne_nil_of_mem_words {s : List α} (h : w ∈ words blank s) : w ≠ [] := by
  rintro rfl
  exact Bool.false_ne_true (List.mem_filter.mp h).2

/-- The characters of a word are some of the text. -/
theorem mem_of_mem_words {s : List α} (hw : w ∈ words blank s) (hc : c ∈ w) : c ∈ s := by
  have hpiece : w ∈ s.splitOnP blank := (List.mem_filter.mp hw).1
  clear hw
  induction s generalizing w with
  | nil =>
      rw [List.splitOnP_nil, List.mem_singleton] at hpiece
      exact hpiece ▸ hc
  | cons b s ih =>
      rw [List.splitOnP_cons_eq_if_modifyHead] at hpiece
      split at hpiece
      · rcases List.mem_cons.mp hpiece with rfl | hrest
        · exact absurd hc List.not_mem_nil
        · exact List.mem_cons_of_mem b (ih hc hrest)
      · cases hsplit : s.splitOnP blank with
        | nil => exact absurd hsplit (List.splitOnP_ne_nil _ s)
        | cons u rest =>
            rw [hsplit] at hpiece ih
            rcases List.mem_cons.mp hpiece with rfl | hrest
            · rcases List.mem_cons.mp hc with rfl | hcu
              · exact List.mem_cons_self
              · exact List.mem_cons_of_mem b (ih hcu List.mem_cons_self)
            · exact List.mem_cons_of_mem b (ih hc (List.mem_cons_of_mem u hrest))

@[simp] theorem words_nil : words blank [] = [] := by simp [words]

theorem words_cons (hb : blank b = true) (s : List α) : words blank (b :: s) = words blank s := by
  rw [words, List.splitOnP_cons_eq_if_modifyHead, if_pos hb, List.filter_cons_of_neg (by simp),
    words]

/-- Blanks in front do not count. -/
theorem words_blanks (hu : ∀ c ∈ u, blank c = true) (s : List α) :
    words blank (u ++ s) = words blank s := by
  induction u with
  | nil => rfl
  | cons c u ih =>
      rw [List.cons_append, words_cons (hu c List.mem_cons_self),
        ih fun d hd ↦ hu d (List.mem_cons_of_mem c hd)]

/-- A text of blanks has no words. -/
theorem words_eq_nil (hu : ∀ c ∈ u, blank c = true) : words blank u = [] := by
  have h := words_blanks hu []
  rwa [List.append_nil, words_nil] at h

/-- A text without blanks is a word. -/
theorem words_eq_singleton (hw : ∀ d ∈ b :: w, blank d = false) :
    words blank (b :: w) = [b :: w] := by
  rw [words, List.splitOnP_eq_singleton hw, List.filter_cons_of_pos (by simp), List.filter_nil]

/-- A word ends at the next blank. -/
theorem words_append_cons (hw : ∀ d ∈ c :: w, blank d = false) (hb : blank b = true)
    (s : List α) : words blank (c :: w ++ b :: s) = (c :: w) :: words blank s := by
  rw [words, List.splitOnP_append_cons_of_forall_mem hw b hb,
    List.filter_cons_of_pos (by simp), words]

/-- A text begins with a run without blanks, which goes up to the end or to a blank. -/
theorem exists_run (blank : α → Bool) (s : List α) : ∃ w t, s = w ++ t ∧
    (∀ c ∈ w, blank c = false) ∧ (t = [] ∨ ∃ b t', t = b :: t' ∧ blank b = true) := by
  induction s with
  | nil => exact ⟨[], [], rfl, nofun, .inl rfl⟩
  | cons c s ih =>
      cases hc : blank c with
      | true => exact ⟨[], c :: s, rfl, nofun, .inr ⟨c, s, rfl, hc⟩⟩
      | false =>
          obtain ⟨w, t, rfl, hw, ht⟩ := ih
          exact ⟨c :: w, t, rfl, List.forall_mem_cons.mpr ⟨hc, hw⟩, ht⟩

/-- **The first word**: there are only blanks, or blanks and a word that goes up to the end or to
another blank. -/
theorem exists_first_word (blank : α → Bool) (s : List α) : (∀ c ∈ s, blank c = true) ∨
    ∃ u c w t, s = u ++ (c :: w ++ t) ∧ (∀ d ∈ u, blank d = true) ∧
      (∀ d ∈ c :: w, blank d = false) ∧ (t = [] ∨ ∃ b t', t = b :: t' ∧ blank b = true) := by
  induction s with
  | nil => exact .inl nofun
  | cons c s ih =>
      cases hc : blank c with
      | true =>
          rcases ih with hall | ⟨u, d, w, t, rfl, hu, hw, ht⟩
          · exact .inl (List.forall_mem_cons.mpr ⟨hc, hall⟩)
          · exact .inr ⟨c :: u, d, w, t, rfl, List.forall_mem_cons.mpr ⟨hc, hu⟩, hw, ht⟩
      | false =>
          obtain ⟨w, t, rfl, hw, ht⟩ := exists_run blank s
          exact .inr ⟨[], c, w, t, rfl, nofun, List.forall_mem_cons.mpr ⟨hc, hw⟩, ht⟩

/-! ## Words put together -/

/-- The separator stands in front of each word but the first. -/
theorem intercalate_cons (sep w : List α) (ws : List (List α)) :
    sep.intercalate (w :: ws) = w ++ ws.flatMap (sep ++ ·) := by
  induction ws generalizing w with
  | nil => rw [List.intercalate_singleton, List.flatMap_nil, List.append_nil]
  | cons v ws ih =>
      rw [List.intercalate_cons_cons, ih, List.flatMap_cons]
      simp only [List.append_assoc]

end KontolOS.Lib
