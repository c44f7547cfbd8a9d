import KontolOS.Strings

/-!
# How far `strncpy` writes

The first loop of `strncpy` counts the characters that it copies, but not the terminator, and the
second loop writes as many zeros as are left.  A string that is shorter than `n` comes with one zero
more than there is room for in `n` bytes.  So `strncpy` keeps to its `n` bytes exactly if the
string has at least as many characters, or the byte behind is zero before (`copiesWithin_iff`).
-/

namespace KontolOS.Strings

/-- **`strncpy` writes `n` bytes**: the string `s` up to `n` characters, zeros in the rest, and what
is behind them stays. -/
def CopiesWithin (dest rest src s : List UInt8) (n : Nat) : Prop :=
  strncpy (dest ++ rest) src n = some (s.take n ++ List.replicate (n - s.length) 0 ++ rest)

variable {dest src s rest : List UInt8} {n : Nat}

/-- The byte behind the `n` bytes becomes zero, if the string is shorter. -/
theorem strncpy_short (h : Holds src s) (hn : s.length < n) (hdest : dest.length = n) (c : UInt8) :
    strncpy (dest ++ c :: rest) src n =
      some (s ++ List.replicate (n - s.length) 0 ++ 0 :: rest) := by
  have hroom : n < (dest ++ c :: rest).length := by
    rw [List.length_append, List.length_cons]
    omega
  have hdrop : (dest ++ c :: rest).drop (n + 1) = rest := by
    rw [← hdest, List.drop_append]
    simp
  have hzeros : n + 1 - s.length = n - s.length + 1 := Nat.succ_sub (Nat.le_of_lt hn)
  rw [h.strncpy_eq hn hroom, hdrop, hzeros, List.replicate_succ', List.append_assoc,
    List.append_assoc, List.singleton_append]

theorem strncpyFill_eq_none (hlen : dest.length < n) : strncpyFill dest n = none := by
  induction dest generalizing n with
  | nil =>
      obtain ⟨n, rfl⟩ := Nat.exists_eq_succ_of_ne_zero (Nat.ne_of_gt hlen)
      rfl
  | cons d dest ih =>
      obtain ⟨n, rfl⟩ := Nat.exists_eq_succ_of_ne_zero (Nat.ne_of_gt (Nat.zero_lt_of_lt hlen))
      rw [strncpyFill, ih (Nat.lt_of_succ_lt_succ hlen)]
      rfl

/-- If there is no byte behind the `n` bytes, the write there fails. -/
theorem strncpy_eq_none (h : Holds src s) (hn : s.length < n) (hdest : dest.length = n) :
    strncpy dest src n = none := by
  induction s generalizing src dest n with
  | nil =>
      obtain ⟨tail, rfl⟩ := Holds.nil_iff.mp h
      obtain ⟨n, rfl⟩ := Nat.exists_eq_succ_of_ne_zero (Nat.ne_of_gt hn)
      obtain ⟨d, dest, rfl⟩ := List.exists_cons_of_length_eq_add_one hdest
      have hfull : strncpyFill dest (n + 1) = none :=
        strncpyFill_eq_none (Nat.lt_of_lt_of_eq (Nat.lt_succ_self _) hdest)
      rw [strncpy, if_pos rfl, hfull]
      rfl
  | cons c s ih =>
      obtain ⟨hc, src, rfl, hrest⟩ := Holds.cons_iff.mp h
      obtain ⟨n, rfl⟩ := Nat.exists_eq_succ_of_ne_zero (Nat.ne_of_gt (Nat.zero_lt_of_lt hn))
      obtain ⟨d, dest, rfl⟩ := List.exists_cons_of_length_eq_add_one hdest
      rw [strncpy, if_neg hc, ih hrest (Nat.lt_of_succ_lt_succ hn) (Nat.succ.inj hdest)]
      rfl

/-- **`strncpy` keeps to its `n` bytes exactly if** the string is not shorter, or the zero that is
written behind them was there before. -/
theorem copiesWithin_iff (h : Holds src s) (hdest : dest.length = n) :
    CopiesWithin dest rest src s n ↔ n ≤ s.length ∨ rest.head? = some 0 := by
  by_cases hn : n ≤ s.length
  · have hroom : n ≤ (dest ++ rest).length := by
      rw [List.length_append]
      omega
    refine iff_of_true ?_ (.inl hn)
    rw [CopiesWithin, h.strncpy_eq_take hn hroom, Nat.sub_eq_zero_of_le hn, ← hdest, List.drop_left,
      List.replicate_zero, List.append_nil]
  · have hshort : s.length < n := Nat.not_le.mp hn
    rw [or_iff_right hn, CopiesWithin]
    cases rest with
    | nil =>
        rw [List.append_nil, strncpy_eq_none h hshort hdest, List.head?_nil]
        exact iff_of_false nofun nofun
    | cons c rest =>
        rw [strncpy_short h hshort hdest c, List.take_of_length_le (Nat.le_of_lt hshort),
          Option.some_inj, List.append_cancel_left_eq, List.cons_eq_cons, and_iff_left rfl,
          List.head?_cons, Option.some_inj]
        exact eq_comm

/-- A string that is cut. -/
theorem copiesWithin_iff_cut :
    CopiesWithin [0, 0] [0x7A] (literal "abc") [0x61, 0x62, 0x63] 2 :=
  (copiesWithin_iff ⟨by decide, [], rfl⟩ rfl).mpr (.inl (by decide))

/-- **The empty string** takes three bytes of the two. -/
theorem not_copiesWithin :
    Holds (literal "") [] ∧ ¬ CopiesWithin [0x61, 0x62] [0x63] (literal "") [] 2 := by
  refine ⟨⟨by decide, [], rfl⟩, ?_⟩
  rw [CopiesWithin]
  decide

end KontolOS.Strings
