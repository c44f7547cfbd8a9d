import Mathlib.Data.List.TakeWhile
import KontolOS.Lib.Words
import KontolOS.Shell.Command

/-!
# The arguments of a command

`parse_args` cuts the line into C strings where it is: it writes a terminator over the blank behind
each word that it returns, and nothing else (`Cut`).  The words that it returns are the first ones
of the line, as many as `argv` has room for; what follows them is not looked at
(`parseArgs_words`).
-/

namespace KontolOS.Shell

open KontolOS.Lib KontolOS.Strings KontolOS.Drivers

/-- **The line is cut into its first `n` words**, at which the pointers `argv` point afterwards. -/
structure Cut (n : Nat) (s s' : List UInt8) (argv : List Nat) : Prop where
  /-- the line is as long as it was -/
  length_eq : s'.length = s.length
  /-- the C strings are the first words -/
  words_eq : argv.map (fun p ↦ cstr (s'.drop p)) = (words isBlank s).take n
  /-- each of them is where the word was -/
  prefix_line : ∀ p ∈ argv, cstr (s'.drop p) <+: s.drop p
  /-- only a blank behind one of them is changed, into a terminator -/
  changed : ∀ i, s'[i]? ≠ s[i]? → s'[i]? = some 0 ∧
    (∃ b, s[i]? = some b ∧ isBlank b = true) ∧
    ∃ p ∈ argv, i = p + (cstr (s'.drop p)).length

variable {n : Nat} {b c : UInt8} {s s' t t' u w : List UInt8} {argv : List Nat}

/-! ## Skipping -/

theorem skipBlanks_append (hu : ∀ d ∈ u, isBlank d = true) (hc : isBlank c = false)
    (s : List UInt8) : skipBlanks (u ++ c :: s) = some u.length := by
  induction u with
  | nil =>
      rw [List.nil_append, skipBlanks, hc]
      rfl
  | cons d u ih =>
      rw [List.cons_append, skipBlanks, hu d List.mem_cons_self, if_pos rfl,
        ih fun e he ↦ hu e (List.mem_cons_of_mem d he)]
      rfl

theorem skipWord_append (hw : ∀ d ∈ w, isBlank d = false) (hzero : 0 ∉ w)
    (hb : b = 0 ∨ isBlank b = true) (s : List UInt8) :
    skipWord (w ++ b :: s) = some w.length := by
  induction w with
  | nil =>
      rw [List.nil_append, skipWord, if_neg]
      · rfl
      · rintro ⟨hne, hblank⟩
        rcases hb with rfl | hb
        · exact hne rfl
        · rw [hb] at hblank
          cases hblank
  | cons d w ih =>
      have hd : d ≠ 0 := fun h ↦ hzero (List.mem_cons.mpr (.inl h.symm))
      rw [List.cons_append, skipWord, if_pos ⟨hd, hw d List.mem_cons_self⟩,
        ih (fun e he ↦ hw e (List.mem_cons_of_mem d he))
          fun h ↦ hzero (List.mem_cons_of_mem d h)]
      rfl

/-! ## Cuts -/

theorem cstr_eq_self (h : 0 ∉ w) : cstr w = w :=
  List.takeWhile_eq_self_iff.mpr fun _ hc ↦ decide_eq_true fun hzero ↦ h (hzero ▸ hc)

/-- A terminator behind a buffer is behind the string in it, or that has one of its own. -/
theorem holds_cstr (s rest : List UInt8) : Holds (s ++ 0 :: rest) (cstr s) := by
  by_cases hs : 0 ∈ s
  · obtain ⟨hzero, tail, heq⟩ := Holds.of_mem hs
    refine ⟨hzero, tail ++ 0 :: rest, ?_⟩
    rw [← List.cons_append, ← List.append_assoc, ← heq]
  · rw [cstr_eq_self hs]
    exact ⟨hs, rest, rfl⟩

namespace Cut

/-- Nothing is cut if there is no word, or no room. -/
theorem refl (h : (words isBlank s).take n = []) : Cut n s s [] :=
  ⟨rfl, h.symm, nofun, fun _ hne ↦ absurd rfl hne⟩

/-- The last word ends at the terminator that is there. -/
theorem last (hu : ∀ d ∈ u, isBlank d = true) (hw : ∀ d ∈ c :: w, isBlank d = false)
    (hzero : 0 ∉ c :: w) (n : Nat) : Cut (n + 1) (u ++ c :: w) (u ++ c :: w) [u.length] := by
  have hdrop : (u ++ c :: w).drop u.length = c :: w := List.drop_left
  refine ⟨rfl, ?_, fun _ _ ↦ List.takeWhile_prefix _, fun _ hne ↦ absurd rfl hne⟩
  rw [words_blanks hu, words_eq_singleton hw, List.map_singleton, hdrop, cstr_eq_self hzero,
    List.take_succ_cons, List.take_nil]

/-- **A word that is followed by a blank** is cut off, and then the rest of the line is cut. -/
theorem cons (h : Cut n t t' argv) (hu : ∀ d ∈ u, isBlank d = true)
    (hw : ∀ d ∈ c :: w, isBlank d = false) (hzero : 0 ∉ c :: w) (hb : isBlank b = true) :
    Cut (n + 1) (u ++ c :: w ++ b :: t) (u ++ c :: w ++ 0 :: t')
      (u.length :: argv.map ((u ++ c :: w).length + 1 + ·)) := by
  have hfirst (x : UInt8) (s : List UInt8) : (u ++ c :: w ++ x :: s).drop u.length =
      c :: w ++ x :: s := by
    rw [List.append_assoc, List.drop_left]
  have hrest (x : UInt8) (s : List UInt8) (p : Nat) :
      (u ++ c :: w ++ x :: s).drop ((u ++ c :: w).length + 1 + p) = s.drop p := by
    rw [← List.drop_drop, ← List.drop_drop, List.drop_left]
    rfl
  have hword : cstr (c :: w ++ 0 :: t') = c :: w := Holds.cstr_eq ⟨hzero, t', rfl⟩
  refine ⟨?_, ?_, ?_, ?_⟩
  · simp [h.length_eq]
  · rw [List.append_assoc u _ (b :: t), words_blanks hu, words_append_cons hw hb,
      List.take_succ_cons, List.map_cons, hfirst, hword, List.map_map, ← h.words_eq]
    exact congrArg _ (List.map_congr_left fun p _ ↦ congrArg cstr (hrest 0 t' p))
  · intro p hp
    rcases List.mem_cons.mp hp with rfl | hp
    · rw [hfirst, hfirst, hword]
      exact List.prefix_append _ _
    · obtain ⟨q, hq, rfl⟩ := List.mem_map.mp hp
      rw [hrest, hrest]
      exact h.prefix_line q hq
  · intro i hne
    rcases Nat.lt_trichotomy i (u ++ c :: w).length with hlt | rfl | hlt
    · rw [List.getElem?_append_left hlt, List.getElem?_append_left hlt] at hne
      exact absurd rfl hne
    · refine ⟨getElem?_length_append .., ⟨b, getElem?_length_append .., hb⟩, u.length,
        List.mem_cons_self, ?_⟩
      rw [hfirst, hword, List.length_append]
    · obtain ⟨j, rfl⟩ := Nat.exists_eq_add_of_lt hlt
      have hi : (u ++ c :: w).length + j + 1 = (u ++ c :: w).length + 1 + j :=
        Nat.add_right_comm ..
      rw [hi, getElem?_length_append_add, getElem?_length_append_add] at hne ⊢
      obtain ⟨hnew, hold, q, hq, hend⟩ := h.changed j hne
      refine ⟨hnew, hold, _, List.mem_cons_of_mem _ (List.mem_map_of_mem hq), ?_⟩
      rw [hrest, hend]
      exact (Nat.add_assoc ..).symm

theorem length_argv (h : Cut n s s' argv) :
    argv.length = min n (words isBlank s).length := by
  rw [← List.length_take, ← h.words_eq, List.length_map]

/-- What a pointer points to is the word with the same number. -/
theorem getElem?_argv (h : Cut n s s' argv) {k p : Nat} (hp : argv[k]? = some p) :
    (words isBlank s)[k]? = some (cstr (s'.drop p)) := by
  have hword : ((words isBlank s).take n)[k]? = some (cstr (s'.drop p)) := by
    rw [← h.words_eq, List.getElem?_map, hp, Option.map_some]
  rw [List.getElem?_take] at hword
  split_ifs at hword
  exact hword

/-- The terminator of a word is in the line, or it is that of the line. -/
theorem holds (h : Cut n s s' argv) {p : Nat} (hp : p ∈ argv) (rest : List UInt8) :
    Holds ((s' ++ 0 :: rest).drop p) (cstr (s'.drop p)) := by
  have hmem : cstr (s'.drop p) ∈ words isBlank s := by
    refine List.take_subset n _ ?_
    rw [← h.words_eq]
    exact List.mem_map_of_mem hp
  have hle : p ≤ s'.length := by
    by_contra hlt
    rw [List.drop_eq_nil_of_le (Nat.le_of_not_le hlt)] at hmem
    exact ne_nil_of_mem_words hmem rfl
  rw [List.drop_append_of_le_length hle]
  exact holds_cstr _ _

/-- The words, as the strings that the pointers point to. -/
theorem map_cstr (h : Cut n s s' argv) (rest : List UInt8) :
    (argv.map fun p ↦ cstr ((s' ++ 0 :: rest).drop p)) = (words isBlank s).take n := by
  rw [← h.words_eq]
  exact List.map_congr_left fun p hp ↦ (h.holds hp rest).cstr_eq

end Cut

/-! ## The loop -/

theorem parseLoop_zero {text : List UInt8} {p : Nat} (hp : p < text.length) (argv : List Nat) :
    parseLoop text p argv 0 = some (text, argv) := by
  rw [parseLoop, List.getElem?_eq_getElem hp]
  rfl

theorem parseLoop_end {text : List UInt8} {p : Nat} (hp : text[p]? = some 0) (argv : List Nat) :
    ∀ n, parseLoop text p argv n = some (text, argv)
  | 0 => by
      rw [parseLoop, hp]
      rfl
  | n + 1 => by
      rw [parseLoop, hp]
      rfl

/-- A round of the loop, in which a word is found. -/
theorem parseLoop_succ {text : List UInt8} {p i j : Nat} {d c b : UInt8}
    (hd : text[p]? = some d) (hskip : skipBlanks (text.drop p) = some i)
    (hc : text[p + i]? = some c) (hword : skipWord (text.drop (p + i)) = some j)
    (hb : text[p + i + j]? = some b) (hne : d ≠ 0 ∧ c ≠ 0) (argv : List Nat) (n : Nat) :
    parseLoop text p argv (n + 1) =
      if b = 0 then parseLoop text (p + i + j) (argv ++ [p + i]) n
      else parseLoop (text.set (p + i + j) 0) (p + i + j + 1) (argv ++ [p + i]) n := by
  rw [parseLoop]
  simp only [hd, hskip, hc, hword, hb, hne.1, hne.2, Option.bind_eq_bind, Option.bind_some,
    if_false]

/-- The first byte of what is left is the terminator only if nothing is left. -/
theorem exists_first (pre : List UInt8) (hs : 0 ∉ s) (hne : s ≠ []) (rest : List UInt8) :
    ∃ d, d ≠ 0 ∧ (pre ++ (s ++ rest))[pre.length]? = some d := by
  obtain ⟨d, s, rfl⟩ := List.exists_cons_of_ne_nil hne
  exact ⟨d, fun h ↦ hs (List.mem_cons.mpr (.inl h.symm)), getElem?_length_append pre _ d⟩

/-- Blanks are skipped, but there is no word behind them. -/
theorem parseLoop_blanks (hs : 0 ∉ s) (hblank : ∀ d ∈ s, isBlank d = true) (pre : List UInt8)
    (argv : List Nat) (rest : List UInt8) (n : Nat) :
    parseLoop (pre ++ (s ++ 0 :: rest)) pre.length argv (n + 1) =
      some (pre ++ (s ++ 0 :: rest), argv) := by
  by_cases hnil : s = []
  · rw [hnil]
    exact parseLoop_end (getElem?_length_append pre rest 0) argv (n + 1)
  · obtain ⟨d, hd, hfirst⟩ := exists_first pre hs hnil (0 :: rest)
    have hstart : (pre ++ (s ++ 0 :: rest))[pre.length + s.length]? = some 0 := by
      rw [← List.length_append, ← List.append_assoc]
      exact getElem?_length_append ..
    have hskip : skipBlanks (s ++ 0 :: rest) = some s.length := skipBlanks_append hblank rfl rest
    rw [parseLoop]
    simp only [hfirst, List.drop_left, hskip, hstart, hd, Option.bind_eq_bind, Option.bind_some,
      if_false, if_true]
    rfl

/-- A word is found, and then the loop goes on behind it. -/
theorem parseLoop_word (hu : ∀ d ∈ u, isBlank d = true) (hw : ∀ d ∈ c :: w, isBlank d = false)
    (hs : 0 ∉ u ++ c :: w) (hb : b = 0 ∨ isBlank b = true) (pre : List UInt8) (argv : List Nat)
    (rest : List UInt8) (n : Nat) :
    parseLoop (pre ++ (u ++ c :: w ++ b :: rest)) pre.length argv (n + 1) =
      if b = 0 then parseLoop (pre ++ (u ++ c :: w ++ b :: rest)) (pre ++ (u ++ c :: w)).length
        (argv ++ [pre.length + u.length]) n
      else parseLoop (pre ++ (u ++ c :: w) ++ 0 :: rest) ((pre ++ (u ++ c :: w)).length + 1)
        (argv ++ [pre.length + u.length]) n := by
  have hzero : 0 ∉ c :: w := fun h ↦ hs (List.mem_append_right u h)
  obtain ⟨d, hd, hfirst⟩ := exists_first pre hs (by simp) (b :: rest)
  have hstart : (pre ++ (u ++ c :: w ++ b :: rest)).drop (pre.length + u.length) =
      c :: w ++ b :: rest := by
    rw [← List.drop_drop, List.drop_left, List.append_assoc, List.drop_left]
  have hc : (pre ++ (u ++ c :: w ++ b :: rest))[pre.length + u.length]? = some c := by
    rw [← List.head?_drop, hstart]
    rfl
  have hlen : (pre ++ (u ++ c :: w)).length = pre.length + u.length + (c :: w).length := by
    rw [List.length_append, List.length_append, Nat.add_assoc]
  have hstop : (pre ++ (u ++ c :: w ++ b :: rest))[pre.length + u.length + (c :: w).length]? =
      some b := by
    rw [← List.append_assoc, ← hlen]
    exact getElem?_length_append ..
  have hskip : skipBlanks ((pre ++ (u ++ c :: w ++ b :: rest)).drop pre.length) =
      some u.length := by
    rw [List.drop_left, List.append_assoc]
    exact skipBlanks_append hu (hw c List.mem_cons_self) _
  have hrun : skipWord ((pre ++ (u ++ c :: w ++ b :: rest)).drop (pre.length + u.length)) =
      some (c :: w).length := by
    rw [hstart]
    exact skipWord_append hw hzero hb rest
  have hset : (pre ++ (u ++ c :: w ++ b :: rest)).set (pre ++ (u ++ c :: w)).length 0 =
      pre ++ (u ++ c :: w) ++ 0 :: rest := by
    rw [← List.append_assoc, set_length_append]
  rw [parseLoop_succ hfirst hskip hc hrun hstop
    ⟨hd, fun h ↦ hzero (List.mem_cons.mpr (.inl h.symm))⟩, ← hlen, hset]

/-- **The loop of `parse_args`** cuts the rest of the line. -/
theorem parseLoop_cut (hs : 0 ∉ s) (n : Nat) (pre : List UInt8) (argv : List Nat) :
    ∃ s' starts, Cut n s s' starts ∧ ∀ rest,
      parseLoop (pre ++ (s ++ 0 :: rest)) pre.length argv n =
        some (pre ++ (s' ++ 0 :: rest), argv ++ starts.map (pre.length + ·)) := by
  induction n generalizing s pre argv with
  | zero =>
      refine ⟨s, [], Cut.refl List.take_zero, fun rest ↦ ?_⟩
      rw [List.map_nil, List.append_nil]
      exact parseLoop_zero (by simp) argv
  | succ n ih =>
      rcases exists_first_word isBlank s with hblank | ⟨u, c, w, t, rfl, hu, hw, rfl | hrest⟩
      · refine ⟨s, [], Cut.refl ?_, fun rest ↦ ?_⟩
        · rw [words_eq_nil hblank, List.take_nil]
        · rw [List.map_nil, List.append_nil]
          exact parseLoop_blanks hs hblank pre argv rest n
      · rw [List.append_nil] at hs ⊢
        have hzero : 0 ∉ c :: w := fun h ↦ hs (List.mem_append_right u h)
        refine ⟨u ++ c :: w, [u.length], Cut.last hu hw hzero n, fun rest ↦ ?_⟩
        rw [parseLoop_word hu hw hs (.inl rfl), if_pos rfl]
        refine parseLoop_end ?_ _ n
        rw [← List.append_assoc]
        exact getElem?_length_append ..
      · obtain ⟨b, t, rfl, hb⟩ := hrest
        have hb0 : b ≠ 0 := by
          rintro rfl
          cases hb
        rw [← List.append_assoc] at hs ⊢
        have ht : 0 ∉ t := fun h ↦ hs (List.mem_append_right _ (List.mem_cons_of_mem b h))
        have hword : 0 ∉ u ++ c :: w := fun h ↦ hs (List.mem_append_left _ h)
        obtain ⟨t', starts, hcut, hloop⟩ :=
          ih ht (pre ++ (u ++ c :: w) ++ [0]) (argv ++ [pre.length + u.length])
        refine ⟨_, _, hcut.cons hu hw (fun h ↦ hword (List.mem_append_right u h)) hb,
          fun rest ↦ ?_⟩
        rw [List.append_assoc, List.cons_append, parseLoop_word hu hw hword (.inr hb),
          if_neg hb0]
        have hstarts : starts.map (fun p ↦ (pre ++ (u ++ c :: w)).length + 1 + p) =
            (starts.map fun p ↦ (u ++ c :: w).length + 1 + p).map (pre.length + ·) := by
          rw [List.map_map]
          refine List.map_congr_left fun p _ ↦ ?_
          rw [List.length_append, Function.comp, Nat.add_assoc pre.length,
            Nat.add_assoc pre.length]
        have hlen : (pre ++ (u ++ c :: w) ++ [0]).length = (pre ++ (u ++ c :: w)).length + 1 :=
          List.length_append
        have hround := hloop rest
        rw [hlen, hstarts] at hround
        simpa using hround

/-! ## The function -/

theorem parseArgs_cut (hs : 0 ∉ s) (n : Nat) : ∃ s' argv, Cut n s s' argv ∧
    ∀ rest, parseArgs (s ++ 0 :: rest) n = some (s' ++ 0 :: rest, argv) := by
  obtain ⟨s', argv, hcut, hparse⟩ := parseLoop_cut hs n [] []
  refine ⟨s', argv, hcut, fun rest ↦ ?_⟩
  have h := hparse rest
  simpa [parseArgs] using h

/-- **`parse_args` returns the first words**, for every line and every length of `argv`: as many as
there are, or as there is room for.  Each pointer points to the word with its number, where it was
in the line, and to a terminator behind it.  Apart from these terminators, each of which replaces a
blank, the line is as it was; nothing behind its own terminator is read or written. -/
theorem parseArgs_words (hs : 0 ∉ s) (n : Nat) : ∃ s' argv, Cut n s s' argv ∧
    argv.length = min n (words isBlank s).length ∧
    (∀ (k p : Nat), argv[k]? = some p → ∃ w, (words isBlank s)[k]? = some w ∧ w <+: s.drop p ∧
      ∀ rest, Holds ((s' ++ 0 :: rest).drop p) w) ∧
    ∀ rest, parseArgs (s ++ 0 :: rest) n = some (s' ++ 0 :: rest, argv) := by
  obtain ⟨s', argv, hcut, hparse⟩ := parseArgs_cut hs n
  refine ⟨s', argv, hcut, hcut.length_argv, fun k p hp ↦ ?_, hparse⟩
  have hmem : p ∈ argv := List.mem_of_getElem? hp
  exact ⟨_, hcut.getElem?_argv hp, hcut.prefix_line p hmem, hcut.holds hmem⟩

/-- Two words, and room for one. -/
theorem parseArgs_words_two : ∃ s' argv, Cut 1 [0x20, 0x61, 0x09, 0x62] s' argv ∧
    argv.length = 1 ∧ ∀ rest, parseArgs ([0x20, 0x61, 0x09, 0x62] ++ 0 :: rest) 1 =
      some (s' ++ 0 :: rest, argv) := by
  obtain ⟨s', argv, hcut, hlen, _, hparse⟩ :=
    parseArgs_words (s := [0x20, 0x61, 0x09, 0x62]) (by decide) 1
  exact ⟨s', argv, hcut, hlen, hparse⟩

end KontolOS.Shell
