import KontolOS.Shell.Nano

/-!
# The lines of the editor

`LinesHold ls s`: every line is allocated, and line `i` holds the string `s i`.  The lemmas
say what the loops of the editor do to these strings, and that they stay within the lines
as long as the strings do.
-/

namespace KontolOS.Shell

open KontolOS.Lib KontolOS.Memory KontolOS.Strings KontolOS.Fs Function

/-- Line `i` is a buffer of `NANO_LINE_LEN` bytes that holds the string `s i`. -/
structure LinesHold (ls : Lines) (s : Nat → List UInt8) : Prop where
  /-- there are `NANO_MAX_LINES` lines -/
  length : ls.length = nanoMaxLines
  /-- each of them allocated, and terminated -/
  line : ∀ i < nanoMaxLines, ∃ buf, ls[i]? = some (some buf) ∧ buf.length = nanoLineLen ∧
    Holds buf (s i)

theorem sizeT_natCast {n : Nat} (h : n < 2 ^ 32) : sizeT n = n := by
  unfold sizeT
  omega

theorem store_eq {buf : List UInt8} {i : Nat} (h : i < buf.length) (c : UInt8) :
    store buf i c = some (buf.set i c) := if_pos h

/-- `buf[0] = '\0'` makes the empty string. -/
theorem store_zero {buf : List UInt8} (h : 0 < buf.length) :
    ∃ b, store buf 0 0 = some b ∧ b.length = buf.length ∧ Holds b [] := by
  cases buf with
  | nil => exact absurd h (Nat.lt_irrefl 0)
  | cons c buf => exact ⟨_, store_eq h 0, List.length_set, Holds.nil_iff.mpr ⟨buf, rfl⟩⟩

/-! ## Inside a line -/

/-- The loop that closes the gap after a character is removed. -/
theorem closeGap_eq (l r rest : List UInt8) (c : UInt8) :
    closeGap (l ++ c :: (r ++ 0 :: rest)) l.length (r.length + 1) =
      some (l ++ (r ++ 0 :: 0 :: rest)) := by
  induction r generalizing l c with
  | nil =>
      have hget : (l ++ c :: ([] ++ 0 :: rest))[l.length + 1]? = some 0 := by
        rw [List.getElem?_append_right (Nat.le_add_right _ _)]
        simp
      rw [List.length_nil, closeGap, hget]
      simp [store, closeGap]
  | cons d r ih =>
      have hget : (l ++ c :: (d :: r ++ 0 :: rest))[l.length + 1]? = some d := by
        rw [List.getElem?_append_right (Nat.le_add_right _ _)]
        simp
      have hset : (l ++ c :: (d :: r ++ 0 :: rest)).set l.length d =
          (l ++ [d]) ++ d :: (r ++ 0 :: rest) := by
        rw [set_length_append]
        simp
      have hlen : l.length + 1 = (l ++ [d]).length := by simp
      rw [List.length_cons, closeGap, hget, Option.bind_eq_bind, Option.bind_some,
        store_eq (by simp), Option.bind_eq_bind, Option.bind_some, hset, hlen, ih]
      simp

/-- The loop that opens a gap for a character: what is behind the cursor moves by one. -/
theorem openGap_eq (l m rest : List UInt8) (x : UInt8) :
    ∃ z, openGap l.length (l.length + m.length) (l ++ (m ++ x :: rest)) =
      some (l ++ z :: (m ++ rest)) := by
  induction m using List.reverseRecOn generalizing x rest with
  | nil =>
      refine ⟨x, ?_⟩
      cases hl : l.length with
      | zero => rfl
      | succ n =>
          rw [List.length_nil, Nat.add_zero, openGap, if_neg (Nat.lt_irrefl _)]
          rfl
  | append_singleton m y ih =>
      have hget : (l ++ (m ++ [y] ++ x :: rest))[l.length + m.length]? = some y := by
        rw [List.getElem?_append_right (Nat.le_add_right _ _), Nat.add_sub_cancel_left,
          List.append_assoc, List.getElem?_append_right (Nat.le_refl _), Nat.sub_self]
        rfl
      have hset : (l ++ (m ++ [y] ++ x :: rest)).set (l.length + m.length + 1) y =
          l ++ (m ++ y :: y :: rest) := by
        rw [List.set_append_right _ _ (by omega), List.append_assoc,
          List.set_append_right _ _ (by omega)]
        have hpos : l.length + m.length + 1 - l.length - m.length = 1 := by omega
        rw [hpos]
        rfl
      obtain ⟨z, hz⟩ := ih (y :: rest) y
      refine ⟨z, ?_⟩
      rw [List.length_append, List.length_singleton, ← Nat.add_assoc, openGap,
        if_pos (by omega), hget, Option.bind_eq_bind, Option.bind_some,
        store_eq (by simp; omega), Option.bind_eq_bind, Option.bind_some, hset, hz]
      simp

/-! ## Lines -/

namespace LinesHold

variable {ls : Lines} {s : Nat → List UInt8} {i j n : Nat}

/-- No string is too long for its line. -/
theorem lt (h : LinesHold ls s) (hi : i < nanoMaxLines) : (s i).length < nanoLineLen := by
  obtain ⟨buf, _, hlen, hb⟩ := h.line i hi
  rw [← hlen]
  exact hb.length_lt

theorem lineAt_eq (h : LinesHold ls s) (hi : i < nanoMaxLines) :
    ∃ buf, lineAt ls i = some buf ∧ buf.length = nanoLineLen ∧ Holds buf (s i) := by
  obtain ⟨buf, hget, hlen, hb⟩ := h.line i hi
  refine ⟨buf, ?_, hlen, hb⟩
  rw [lineAt, if_pos (Int.natCast_nonneg i), Int.toNat_natCast, hget]
  rfl

theorem strlen_lineAt (h : LinesHold ls s) (hi : i < nanoMaxLines) :
    (lineAt ls i).bind strlen = some (s i).length := by
  obtain ⟨buf, hat, _, hb⟩ := h.lineAt_eq hi
  rw [hat, Option.bind_some, hb.strlen_eq]

/-- A change of one line. -/
theorem modify (h : LinesHold ls s) (hi : i < nanoMaxLines) {x : List UInt8}
    {f : List UInt8 → Option (List UInt8)}
    (hf : ∀ buf, buf.length = nanoLineLen → Holds buf (s i) →
      ∃ buf', f buf = some buf' ∧ buf'.length = nanoLineLen ∧ Holds buf' x) :
    ∃ ls', modifyLine ls i f = some ls' ∧ LinesHold ls' (update s i x) := by
  obtain ⟨buf, hat, hlen, hb⟩ := h.lineAt_eq hi
  obtain ⟨buf', hfb, hlen', hb'⟩ := hf buf hlen hb
  refine ⟨ls.set i (some buf'), ?_, by rw [List.length_set, h.length], fun k hk ↦ ?_⟩
  · simp only [modifyLine, hat, Option.bind_eq_bind, Option.bind_some, hfb, Int.toNat_natCast]
    rfl
  · by_cases hki : k = i
    · subst hki
      refine ⟨buf', ?_, hlen', by rw [update_self]; exact hb'⟩
      rw [List.getElem?_set_self (by rw [h.length]; exact hk)]
    · rw [List.getElem?_set_ne (Ne.symm hki), update_of_ne hki]
      exact h.line k hk

/-- `strcpy` from one line to another. -/
theorem copy (h : LinesHold ls s) (hi : i < nanoMaxLines) (hj : j < nanoMaxLines) :
    ∃ ls', copyLine ls i j = some ls' ∧ LinesHold ls' (update s i (s j)) := by
  obtain ⟨src, hat, _, hsrc⟩ := h.lineAt_eq hj
  obtain ⟨ls', hm, h'⟩ := h.modify hi (x := s j) (f := (strcpy · src)) fun buf hlen _ ↦ by
    rw [← hlen]
    exact hsrc.strcpy_holds (by rw [hlen]; exact h.lt hj)
  exact ⟨ls', by rw [copyLine, hat]; exact hm, h'⟩

/-- The loop that moves lines up. -/
theorem shiftUp (h : LinesHold ls s) (hin : i + n < nanoMaxLines) :
    ∃ ls', shiftUp ls i n = some ls' ∧
      LinesHold ls' fun k ↦ if i ≤ k ∧ k < i + n then s (k + 1) else s k := by
  induction n generalizing ls s i with
  | zero =>
      refine ⟨ls, rfl, ?_⟩
      have hs : (fun k ↦ if i ≤ k ∧ k < i + 0 then s (k + 1) else s k) = s := by
        funext k
        exact if_neg (by omega)
      rwa [hs]
  | succ n ih =>
      obtain ⟨ls₁, hcopy, h₁⟩ := h.copy (i := i) (j := i + 1) (by omega) (by omega)
      obtain ⟨ls', hloop, h'⟩ := ih h₁ (i := i + 1) (by omega)
      refine ⟨ls', ?_, ?_⟩
      · rw [Shell.shiftUp, ← Int.natCast_succ, hcopy]
        exact hloop
      · have hs : (fun k ↦ if i + 1 ≤ k ∧ k < i + 1 + n then update s i (s (i + 1)) (k + 1)
            else update s i (s (i + 1)) k) =
            fun k ↦ if i ≤ k ∧ k < i + (n + 1) then s (k + 1) else s k := by
          funext k
          by_cases hk : k = i
          · subst hk
            rw [if_neg (by omega), if_pos (by omega), update_self]
          · rw [update_of_ne hk]
            by_cases hin : i + 1 ≤ k ∧ k < i + 1 + n
            · rw [if_pos hin, if_pos (by omega), update_of_ne (by omega)]
            · rw [if_neg hin, if_neg (by omega)]
        rwa [hs] at h'

/-- The loop that moves lines down. -/
theorem shiftDown (h : LinesHold ls s) (hi : i < nanoMaxLines) (hn : n ≤ i) :
    ∃ ls', shiftDown ls i n = some ls' ∧
      LinesHold ls' fun k ↦ if i - n < k ∧ k ≤ i then s (k - 1) else s k := by
  induction n generalizing ls s i with
  | zero =>
      refine ⟨ls, rfl, ?_⟩
      have hs : (fun k ↦ if i - 0 < k ∧ k ≤ i then s (k - 1) else s k) = s := by
        funext k
        exact if_neg (by omega)
      rwa [hs]
  | succ n ih =>
      cases i with
      | zero => exact absurd hn (Nat.not_succ_le_zero n)
      | succ i =>
          obtain ⟨ls₁, hcopy, h₁⟩ := h.copy (i := i + 1) (j := i) hi (by omega)
          obtain ⟨ls', hloop, h'⟩ := ih h₁ (i := i) (by omega) (by omega)
          refine ⟨ls', ?_, ?_⟩
          · have hpred : ((i + 1 : Nat) : Int) - 1 = i := by omega
            rw [Shell.shiftDown, hpred, hcopy]
            exact hloop
          · have hs : (fun k ↦ if i - n < k ∧ k ≤ i then update s (i + 1) (s i) (k - 1)
                else update s (i + 1) (s i) k) =
                fun k ↦ if i + 1 - (n + 1) < k ∧ k ≤ i + 1 then s (k - 1) else s k := by
              funext k
              by_cases hk : k = i + 1
              · subst hk
                rw [if_neg (by omega), if_pos (by omega), update_self, Nat.add_sub_cancel]
              · rw [update_of_ne hk]
                by_cases hin : i - n < k ∧ k ≤ i
                · rw [if_pos hin, if_pos (by omega), update_of_ne (by omega)]
                · rw [if_neg hin, if_neg (by omega)]
            rwa [hs] at h'

end LinesHold

end KontolOS.Shell
