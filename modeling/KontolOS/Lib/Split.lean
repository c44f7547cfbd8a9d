import Mathlib.Data.List.Basic
import Mathlib.Tactic.Ring

/-!
# Lines of a text

A list of lines is written as one list by putting the character `nl` behind each of them
(`joinLines`), and read back by splitting at this character (`splitLines`).  What follows the
last `nl` is a line too, unless it is empty; so a text that does not end with `nl` gets one when
it is split and joined again (`joinLines_splitLines`), and that is the only difference.  Lines
without `nl` are read back as they were (`splitLines_joinLines`).  A reader with limits keeps the
text exactly if it stays below them (`terminates_clipLines_iff`), and a writer with a room that is
limited keeps all lines exactly if they fit in it together (`fitLines_eq_self_iff`).
-/

namespace KontolOS.Lib

universe u

variable {α : Type u}

/-- The lines, each followed by `nl`. -/
def joinLines (nl : α) (ls : List (List α)) : List α := ls.flatMap (· ++ [nl])

/-- The lines that `nl` separates or ends. -/
def splitLines [DecidableEq α] (nl : α) : List α → List (List α)
  | [] => []
  | c :: s =>
      if c = nl then [] :: splitLines nl s
      else match splitLines nl s with
        | [] => [[c]]
        | l :: ls => (c :: l) :: ls

/-- A text that is not empty and does not end with `nl`. -/
def OpenEnded (nl : α) (s : List α) : Prop := s ≠ [] ∧ s.getLast? ≠ some nl

instance [DecidableEq α] (nl : α) (s : List α) : Decidable (OpenEnded nl s) :=
  inferInstanceAs (Decidable (s ≠ [] ∧ s.getLast? ≠ some nl))

variable {nl c : α} {s t rest l : List α} {ls : List (List α)}

theorem joinLines_cons : joinLines nl (l :: ls) = l ++ nl :: joinLines nl ls := by
  rw [joinLines, List.flatMap_cons, ← joinLines, ← List.append_cons]

theorem joinLines_concat : joinLines nl (ls ++ [l]) = joinLines nl ls ++ l ++ [nl] := by
  rw [joinLines, List.flatMap_append, List.flatMap_singleton, ← List.append_assoc, ← joinLines]

/-- Each line takes a character more than it has. -/
theorem length_joinLines_le {w : Nat} (h : ∀ l ∈ ls, l.length < w) :
    (joinLines nl ls).length ≤ ls.length * w := by
  induction ls with
  | nil => exact Nat.zero_le _
  | cons l ls ih =>
      have hl : l.length + 1 ≤ w := h l List.mem_cons_self
      have hrest := ih fun k hk ↦ h k (List.mem_cons_of_mem l hk)
      rw [joinLines_cons, List.length_append, List.length_cons, List.length_cons, Nat.succ_mul]
      omega

/-- Other characters than `nl` come from the lines. -/
theorem exists_of_mem_joinLines (hc : c ≠ nl) (h : c ∈ joinLines nl ls) : ∃ l ∈ ls, c ∈ l := by
  obtain ⟨l, hl, hmem⟩ := List.mem_flatMap.mp h
  exact ⟨l, hl, (List.mem_append.mp hmem).resolve_right fun hnl ↦ hc (List.mem_singleton.mp hnl)⟩

/-! ## Lines that fit -/

/-- The lines that go into a room of `limit` characters, `pos` of which are taken: each line that
fits when it is its turn, with the delimiter and one more character. -/
def fitLines (limit : Nat) : Nat → List (List α) → List (List α)
  | _, [] => []
  | pos, l :: ls =>
      if pos + l.length + 2 < limit then l :: fitLines limit (pos + l.length + 1) ls
      else fitLines limit pos ls

section Fit

variable {limit pos : Nat}

theorem fitLines_sublist (limit pos : Nat) (ls : List (List α)) :
    (fitLines limit pos ls).Sublist ls := by
  induction ls generalizing pos with
  | nil => exact .slnil
  | cons l ls ih =>
      rw [fitLines]
      split
      · exact (ih _).cons_cons l
      · exact (ih _).cons l

/-- The lines that fit leave room for one more character. -/
theorem length_joinLines_fitLines (nl : α) (hpos : pos < limit) (ls : List (List α)) :
    pos + (joinLines nl (fitLines limit pos ls)).length < limit := by
  induction ls generalizing pos with
  | nil => exact hpos
  | cons l ls ih =>
      rw [fitLines]
      split
      next hfit =>
        have hrest : pos + l.length + 1 + _ < limit := ih (by omega)
        rw [joinLines_cons, List.length_append, List.length_cons]
        omega
      next => exact ih hpos

theorem length_le_joinLines (nl : α) (ls : List (List α)) :
    ls.length ≤ (joinLines nl ls).length := by
  induction ls with
  | nil => exact Nat.le_refl 0
  | cons l ls ih =>
      rw [joinLines_cons, List.length_append, List.length_cons, List.length_cons]
      omega

/-- **All lines fit** exactly if they fit together. -/
theorem fitLines_eq_self_iff (hpos : pos + 1 < limit) :
    fitLines limit pos ls = ls ↔ pos + (ls.map fun l ↦ l.length + 1).sum + 1 < limit := by
  induction ls generalizing pos with
  | nil => simpa [fitLines] using hpos
  | cons l ls ih =>
      rw [fitLines, List.map_cons, List.sum_cons]
      split
      next hfit =>
        rw [List.cons.injEq, and_iff_right rfl, ih (by omega)]
        omega
      next hfit =>
        -- a line is left out
        refine iff_of_false (fun heq ↦ ?_) (by omega)
        have hlen := (fitLines_sublist limit pos ls).length_le
        rw [heq, List.length_cons] at hlen
        omega

end Fit

/-! ## Splitting -/

theorem openEnded_cons (hne : s ≠ []) : OpenEnded nl (c :: s) ↔ OpenEnded nl s := by
  obtain ⟨d, s, rfl⟩ := List.exists_cons_of_ne_nil hne
  rw [OpenEnded, OpenEnded, List.getLast?_cons_cons]
  simp

variable [DecidableEq α]

theorem splitLines_eq_nil_iff : splitLines nl s = [] ↔ s = [] := by
  cases s with
  | nil => exact ⟨fun _ ↦ rfl, fun _ ↦ rfl⟩
  | cons c s =>
      refine ⟨fun h ↦ ?_, fun h ↦ nomatch h⟩
      rw [splitLines] at h
      split at h
      · cases h
      · split at h <;> cases h

/-- The first line is what comes before the first `nl`. -/
theorem splitLines_append (ht : nl ∉ t) :
    splitLines nl (t ++ nl :: rest) = t :: splitLines nl rest := by
  induction t with
  | nil => exact if_pos rfl
  | cons c t ih =>
      rw [List.mem_cons, not_or] at ht
      rw [List.cons_append, splitLines, if_neg (Ne.symm ht.1), ih ht.2]

theorem splitLines_of_not_mem (hs : nl ∉ s) (hne : s ≠ []) : splitLines nl s = [s] := by
  induction s with
  | nil => exact absurd rfl hne
  | cons c s ih =>
      rw [List.mem_cons, not_or] at hs
      rw [splitLines, if_neg (Ne.symm hs.1)]
      cases s with
      | nil => rfl
      | cons d s => rw [ih hs.2 (List.cons_ne_nil d s)]

/-- **A text by its first line**, which ends at an `nl` or at the end of the text. -/
theorem exists_splitLines_eq (nl : α) (hne : s ≠ []) :
    ∃ t u, s = t ++ u ∧ nl ∉ t ∧ (∀ c, u.head? = some c → c = nl) ∧
      splitLines nl s = t :: splitLines nl u.tail := by
  by_cases hnl : nl ∈ s
  · obtain ⟨t, rest, rfl, ht⟩ := List.eq_append_cons_of_mem hnl
    exact ⟨t, nl :: rest, rfl, ht, fun c hc ↦ (Option.some.inj hc).symm, splitLines_append ht⟩
  · exact ⟨s, [], (List.append_nil s).symm, hnl, nofun, splitLines_of_not_mem hnl hne⟩

/-- **Lines are read back as they were written.** -/
theorem splitLines_joinLines (h : ∀ l ∈ ls, nl ∉ l) : splitLines nl (joinLines nl ls) = ls := by
  induction ls with
  | nil => rfl
  | cons l ls ih =>
      rw [joinLines_cons, splitLines_append (h l List.mem_cons_self),
        ih fun k hk ↦ h k (List.mem_cons_of_mem l hk)]

/-- **A text is written back as it was**, with `nl` at its end. -/
theorem joinLines_splitLines (nl : α) (s : List α) :
    joinLines nl (splitLines nl s) = s ++ if OpenEnded nl s then [nl] else [] := by
  induction s with
  | nil =>
      have hclosed : ¬ OpenEnded nl ([] : List α) := fun h ↦ h.1 rfl
      rw [if_neg hclosed]
      rfl
  | cons c s ih =>
      rcases eq_or_ne s [] with rfl | hne
      · by_cases hc : c = nl
        · subst hc
          have hclosed : ¬ OpenEnded c [c] := fun h ↦ h.2 rfl
          rw [if_neg hclosed, splitLines, if_pos rfl]
          rfl
        · have hopen : OpenEnded nl [c] := ⟨List.cons_ne_nil c [], fun h ↦ hc (Option.some.inj h)⟩
          rw [if_pos hopen, splitLines, if_neg hc]
          rfl
      · simp only [openEnded_cons hne]
        rw [List.cons_append, ← ih, splitLines]
        by_cases hc : c = nl
        · rw [if_pos hc, joinLines_cons, hc]
          rfl
        · rw [if_neg hc]
          cases hsplit : splitLines nl s with
          | nil => exact absurd (splitLines_eq_nil_iff.mp hsplit) hne
          | cons l ls =>
              change joinLines nl ((c :: l) :: ls) = _
              rw [joinLines_cons, joinLines_cons]
              rfl

/-- The lines are made of the characters of the text, and have no `nl`. -/
theorem mem_of_mem_splitLines (hl : l ∈ splitLines nl s) (hc : c ∈ l) : c ∈ s ∧ c ≠ nl := by
  induction s generalizing l c with
  | nil => cases hl
  | cons d s ih =>
      rw [splitLines] at hl
      split at hl
      next =>
        rcases List.mem_cons.mp hl with rfl | hl
        · cases hc
        · exact (ih hl hc).imp (List.mem_cons_of_mem d) id
      next hd =>
        cases hsplit : splitLines nl s with
        | nil =>
            rw [hsplit] at hl
            rw [List.mem_singleton.mp hl] at hc
            rw [List.mem_singleton.mp hc]
            exact ⟨List.mem_cons_self, hd⟩
        | cons k ks =>
            rw [hsplit] at hl ih
            rcases List.mem_cons.mp hl with rfl | hl
            · rcases List.mem_cons.mp hc with rfl | hc
              · exact ⟨List.mem_cons_self, hd⟩
              · exact (ih List.mem_cons_self hc).imp (List.mem_cons_of_mem d) id
            · exact (ih (List.mem_cons_of_mem k hl) hc).imp (List.mem_cons_of_mem d) id

/-! ## Clipping -/

/-- The first `h` lines, and of each the first `w` characters. -/
def clipLines (w h : Nat) (ls : List (List α)) : List (List α) := (ls.take h).map (List.take w)

/-- The text `s'` is `s`, with `nl` at its end. -/
def Terminates (nl : α) (s s' : List α) : Prop :=
  s' = s ∨ s.getLast? ≠ some nl ∧ s' = s ++ [nl]

section

omit [DecidableEq α]

variable {w h : Nat}

theorem length_clipLines : (clipLines w h ls).length = min h ls.length := by
  rw [clipLines, List.length_map, List.length_take]

theorem clipLines_succ_cons : clipLines w (h + 1) (l :: ls) = l.take w :: clipLines w h ls := rfl

theorem mem_clipLines (hl : l ∈ clipLines w h ls) : ∃ k ∈ ls, l = k.take w := by
  obtain ⟨k, hk, rfl⟩ := List.mem_map.mp hl
  exact ⟨k, List.mem_of_mem_take hk, rfl⟩

/-- Lines that are not too long, and not too many, are left as they are. -/
theorem clipLines_eq_self_iff :
    clipLines w h ls = ls ↔ ls.length ≤ h ∧ ∀ l ∈ ls, l.length ≤ w := by
  constructor
  · intro heq
    refine ⟨?_, fun l hl ↦ ?_⟩
    · have hlen := congrArg List.length heq
      rw [length_clipLines] at hlen
      exact Nat.le_trans (Nat.le_of_eq hlen.symm) (Nat.min_le_left h ls.length)
    · rw [← heq] at hl
      obtain ⟨k, _, rfl⟩ := mem_clipLines hl
      exact List.length_take_le w k
  · rintro ⟨hcount, hwidth⟩
    rw [clipLines, List.take_of_length_le hcount]
    have hmap := List.map_congr_left fun l hl ↦ List.take_of_length_le (hwidth l hl)
    exact hmap.trans (List.map_id ls)

end

/-- Lines without `nl` are told apart by what they are written as. -/
theorem joinLines_inj {ks : List (List α)} (hk : ∀ l ∈ ks, nl ∉ l) (hl : ∀ l ∈ ls, nl ∉ l) :
    joinLines nl ks = joinLines nl ls ↔ ks = ls := by
  refine ⟨fun heq ↦ ?_, congrArg (joinLines nl)⟩
  rw [← splitLines_joinLines hk, heq, splitLines_joinLines hl]

/-- **Clipping keeps a text** exactly if there is nothing to clip. -/
theorem terminates_clipLines_iff {w h : Nat} (hne : s ≠ []) :
    Terminates nl s (joinLines nl (clipLines w h (splitLines nl s))) ↔
      (splitLines nl s).length ≤ h ∧ ∀ l ∈ splitLines nl s, l.length ≤ w := by
  have hsplit : ∀ l ∈ splitLines nl s, nl ∉ l := fun l hl hc ↦ (mem_of_mem_splitLines hl hc).2 rfl
  have hclip : ∀ l ∈ clipLines w h (splitLines nl s), nl ∉ l := by
    intro l hl hc
    obtain ⟨k, hk, rfl⟩ := mem_clipLines hl
    exact hsplit k hk (List.mem_of_mem_take hc)
  rw [← clipLines_eq_self_iff, ← joinLines_inj hclip hsplit, joinLines_splitLines]
  by_cases hlast : s.getLast? = some nl
  · have hclosed : ¬ OpenEnded nl s := fun hopen ↦ hopen.2 hlast
    rw [if_neg hclosed, List.append_nil]
    exact ⟨fun hkept ↦ hkept.resolve_right fun hopen ↦ hopen.1 hlast, .inl⟩
  · rw [if_pos ⟨hne, hlast⟩]
    refine ⟨fun hkept ↦ hkept.elim (fun heq ↦ ?_) And.right, fun heq ↦ .inr ⟨hlast, heq⟩⟩
    -- what is written ends with `nl`
    rcases List.eq_nil_or_concat (clipLines w h (splitLines nl s)) with hnil | ⟨ks, l, hks⟩
    · rw [hnil] at heq
      exact absurd heq.symm hne
    · rw [hks, List.concat_eq_append, joinLines_concat] at heq
      rw [← heq, List.getLast?_concat] at hlast
      exact absurd rfl hlast

end KontolOS.Lib
