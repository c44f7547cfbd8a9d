import KontolOS.Lib.Positions

/-!
# C strings

The functions of `src/lib/string.c` on buffers.  A pointer into an object is modelled by
the bytes from the pointed-to byte to the end of the object; a read or write past the
end gives `none`.  A function that writes through its first argument returns what that
argument points to afterwards.

`Holds buf s` says that the buffer begins with the string `s` and its terminator, and
each function has one lemma about it.
-/

namespace KontolOS.Strings

/-! ## The functions -/

/-- `strlen` -/
def strlen : List UInt8 → Option Nat
  | [] => none
  | c :: s => if c = 0 then some 0 else (strlen s).map (· + 1)

/-- `strcmp`: the difference of the first two bytes that differ, as unsigned numbers. -/
def strcmp : List UInt8 → List UInt8 → Option Int
  | c :: s, d :: t =>
      if c ≠ 0 ∧ c = d then strcmp s t else some ((c.toNat : Int) - (d.toNat : Int))
  | _, _ => none

/-- `strcpy` -/
def strcpy : List UInt8 → List UInt8 → Option (List UInt8)
  | _ :: dest, c :: src => if c = 0 then some (0 :: dest) else (strcpy dest src).map (c :: ·)
  | _, _ => none

/-- The second loop of `strncpy`: `while (n--) *d++ = '\0'`. -/
def strncpyFill : List UInt8 → Nat → Option (List UInt8)
  | dest, 0 => some dest
  | _ :: dest, n + 1 => (strncpyFill dest n).map (0 :: ·)
  | [], _ + 1 => none

/-- `strncpy`.  The first loop leaves `n` alone when it copies the terminator, so the
second loop writes one byte more than `n` asks for. -/
def strncpy : List UInt8 → List UInt8 → Nat → Option (List UInt8)
  | dest, _, 0 => some dest
  | _ :: dest, c :: src, n + 1 =>
      if c = 0 then (strncpyFill dest (n + 1)).map (0 :: ·)
      else (strncpy dest src n).map (c :: ·)
  | _, _, _ + 1 => none

/-- `strcat` -/
def strcat : List UInt8 → List UInt8 → Option (List UInt8)
  | [], _ => none
  | d :: dest, src =>
      if d = 0 then strcpy (d :: dest) src else (strcat dest src).map (d :: ·)

/-- The bytes of a string literal. -/
def literal (s : String) : List UInt8 := s.toUTF8.data.toList ++ [0]

theorem zero_mem_literal (s : String) : 0 ∈ literal s :=
  List.mem_append_right _ (List.mem_singleton.mpr rfl)

/-- The string a buffer begins with. -/
def cstr (buf : List UInt8) : List UInt8 := buf.takeWhile (· ≠ 0)

/-! ## Buffers that hold a string -/

/-- The buffer `buf` begins with the string `s` and its terminator. -/
def Holds (buf s : List UInt8) : Prop := 0 ∉ s ∧ ∃ rest, buf = s ++ 0 :: rest

namespace Holds

variable {buf dest s t : List UInt8} {c : UInt8} {n : Nat}

theorem nil_iff : Holds buf [] ↔ ∃ rest, buf = 0 :: rest := by
  simp [Holds]

theorem cons_iff : Holds buf (c :: s) ↔ c ≠ 0 ∧ ∃ b, buf = c :: b ∧ Holds b s := by
  constructor
  · rintro ⟨hs, rest, rfl⟩
    rw [List.mem_cons, not_or] at hs
    exact ⟨fun h ↦ hs.1 h.symm, s ++ 0 :: rest, rfl, hs.2, rest, rfl⟩
  · rintro ⟨hc, b, rfl, hs, rest, rfl⟩
    refine ⟨?_, rest, rfl⟩
    rw [List.mem_cons, not_or]
    exact ⟨fun h ↦ hc h.symm, hs⟩

/-- The string and its terminator fit in the buffer. -/
theorem length_lt (h : Holds buf s) : s.length < buf.length := by
  obtain ⟨_, rest, rfl⟩ := h
  simp

theorem cstr_eq (h : Holds buf s) : cstr buf = s := by
  obtain ⟨hs, rest, rfl⟩ := h
  have hall : ∀ c ∈ s, decide (c ≠ 0) = true := fun c hc ↦
    decide_eq_true fun h ↦ hs (h ▸ hc)
  rw [cstr, List.takeWhile_append_of_pos hall]
  simp

/-- A buffer with a NUL in it holds a string. -/
theorem of_mem (h : 0 ∈ buf) : Holds buf (cstr buf) := by
  induction buf with
  | nil => cases h
  | cons c buf ih =>
      by_cases hc : c = 0
      · subst hc
        exact nil_iff.mpr ⟨buf, rfl⟩
      · have hmem : 0 ∈ buf := (List.mem_cons.mp h).resolve_left fun h ↦ hc h.symm
        have hcons : cstr (c :: buf) = c :: cstr buf :=
          List.takeWhile_cons_of_pos (by simpa using hc)
        rw [hcons]
        exact cons_iff.mpr ⟨hc, buf, rfl, ih hmem⟩

/-- A pointer into a string. -/
theorem drop (h : Holds buf (s ++ t)) : Holds (buf.drop s.length) t := by
  obtain ⟨hmem, rest, rfl⟩ := h
  refine ⟨fun h ↦ hmem (List.mem_append_right s h), rest, ?_⟩
  rw [List.append_assoc, List.drop_left]

/-- A terminator written into a string. -/
theorem truncate (h : Holds buf (s ++ t)) : Holds (buf.set s.length 0) s := by
  obtain ⟨hmem, rest, rfl⟩ := h
  refine ⟨fun h ↦ hmem (List.mem_append_left t h), ((t ++ 0 :: rest).drop 1), ?_⟩
  rw [List.append_assoc, List.set_append_right _ _ (Nat.le_refl _), Nat.sub_self]
  cases t <;> rfl

/-! ## What the functions do on such buffers -/

theorem strlen_eq (h : Holds buf s) : strlen buf = some s.length := by
  induction s generalizing buf with
  | nil =>
      obtain ⟨rest, rfl⟩ := nil_iff.mp h
      rfl
  | cons c s ih =>
      obtain ⟨hc, b, rfl, hb⟩ := cons_iff.mp h
      rw [strlen, if_neg hc, ih hb]
      rfl

/-- `strlen` returns only if there is a terminator. -/
theorem of_strlen {len : Nat} (h : strlen buf = some len) : Holds buf (cstr buf) := by
  refine of_mem ?_
  induction buf generalizing len with
  | nil => cases h
  | cons c buf ih =>
      rw [strlen] at h
      split at h
      next hc => exact List.mem_cons.mpr (.inl hc.symm)
      next hc =>
        obtain ⟨_, hlen, _⟩ := Option.map_eq_some_iff.mp h
        exact List.mem_cons_of_mem c (ih hlen)

/-- `strcpy` writes the string and its terminator, and nothing else. -/
theorem strcpy_eq (h : Holds buf s) (hlen : s.length < dest.length) :
    strcpy dest buf = some (s ++ 0 :: dest.drop (s.length + 1)) := by
  induction s generalizing buf dest with
  | nil =>
      obtain ⟨rest, rfl⟩ := nil_iff.mp h
      cases dest with
      | nil => exact absurd hlen (Nat.not_lt_zero _)
      | cons d dest => rfl
  | cons c s ih =>
      obtain ⟨hc, b, rfl, hb⟩ := cons_iff.mp h
      cases dest with
      | nil => exact absurd hlen (Nat.not_lt_zero _)
      | cons d dest =>
          rw [strcpy, if_neg hc, ih hb (Nat.lt_of_succ_lt_succ hlen)]
          rfl

/-- `strcat` appends the second string to the first. -/
theorem strcat_eq (hs : Holds dest s) (ht : Holds buf t)
    (hlen : s.length + t.length < dest.length) :
    strcat dest buf = some (s ++ (t ++ 0 :: dest.drop (s.length + t.length + 1))) := by
  induction s generalizing dest with
  | nil =>
      obtain ⟨rest, rfl⟩ := nil_iff.mp hs
      rw [strcat, if_pos rfl, strcpy_eq ht (by simpa using hlen)]
      simp
  | cons d s ih =>
      obtain ⟨hd, b, rfl, hb⟩ := cons_iff.mp hs
      have hlen' : s.length + t.length < b.length := by
        simp only [List.length_cons] at hlen
        omega
      rw [strcat, if_neg hd, ih hb hlen', Option.map_some, List.cons_append, List.length_cons,
        Nat.add_right_comm s.length 1, Nat.add_right_comm (s.length + t.length) 1,
        List.drop_succ_cons]

/-- `strcpy` into a buffer that is large enough. -/
theorem strcpy_holds (h : Holds buf s) (hlen : s.length < dest.length) :
    ∃ d, strcpy dest buf = some d ∧ d.length = dest.length ∧ Holds d s := by
  refine ⟨_, h.strcpy_eq hlen, ?_, h.1, _, rfl⟩
  simp only [List.length_append, List.length_cons, List.length_drop]
  omega

/-- `strcat` in a buffer that is large enough. -/
theorem strcat_holds (hs : Holds dest s) (ht : Holds buf t)
    (hlen : s.length + t.length < dest.length) :
    ∃ d, strcat dest buf = some d ∧ d.length = dest.length ∧ Holds d (s ++ t) := by
  refine ⟨_, hs.strcat_eq ht hlen, ?_, ?_, _, (List.append_assoc _ _ _).symm⟩
  · simp only [List.length_append, List.length_cons, List.length_drop]
    omega
  · rw [List.mem_append, not_or]
    exact ⟨hs.1, ht.1⟩

/-- `strncpyFill` writes `n` zeros. -/
theorem strncpyFill_eq (hlen : n ≤ dest.length) :
    strncpyFill dest n = some (List.replicate n 0 ++ dest.drop n) := by
  induction n generalizing dest with
  | zero => simp [strncpyFill]
  | succ n ih =>
      cases dest with
      | nil => exact absurd hlen (Nat.not_succ_le_zero n)
      | cons d dest =>
          rw [strncpyFill, ih (Nat.le_of_succ_le_succ hlen), List.replicate_succ]
          rfl

/-- `strncpy` of a string that is shorter than `n` fills up with zeros, and writes one byte
more than `n`. -/
theorem strncpy_eq (h : Holds buf s) (hn : s.length < n) (hlen : n < dest.length) :
    strncpy dest buf n
      = some (s ++ (List.replicate (n + 1 - s.length) 0 ++ dest.drop (n + 1))) := by
  induction s generalizing buf dest n with
  | nil =>
      obtain ⟨rest, rfl⟩ := nil_iff.mp h
      cases n with
      | zero => exact absurd hn (Nat.not_lt_zero _)
      | succ n =>
          cases dest with
          | nil => exact absurd hlen (Nat.not_lt_zero _)
          | cons d dest =>
              rw [strncpy, if_pos rfl, strncpyFill_eq (Nat.le_of_lt_succ hlen)]
              rfl
  | cons c s ih =>
      obtain ⟨hc, b, rfl, hb⟩ := cons_iff.mp h
      cases n with
      | zero => exact absurd hn (Nat.not_lt_zero _)
      | succ n =>
          cases dest with
          | nil => exact absurd hlen (Nat.not_lt_zero _)
          | cons d dest =>
              rw [strncpy, if_neg hc, ih hb (Nat.lt_of_succ_lt_succ hn)
                (Nat.lt_of_succ_lt_succ hlen), List.length_cons, Nat.add_sub_add_right]
              rfl

/-- `strncpy` of a string of `n` bytes or more copies `n` bytes and no terminator. -/
theorem strncpy_eq_take (h : Holds buf s) (hn : n ≤ s.length) (hlen : n ≤ dest.length) :
    strncpy dest buf n = some (s.take n ++ dest.drop n) := by
  induction n generalizing buf dest s with
  | zero => simp [strncpy]
  | succ n ih =>
      cases s with
      | nil => exact absurd hn (Nat.not_succ_le_zero n)
      | cons c s =>
          obtain ⟨hc, b, rfl, hb⟩ := cons_iff.mp h
          cases dest with
          | nil => exact absurd hlen (Nat.not_succ_le_zero n)
          | cons d dest =>
              rw [strncpy, if_neg hc, ih hb (Nat.le_of_succ_le_succ hn)
                (Nat.le_of_succ_le_succ hlen)]
              rfl

end Holds

end KontolOS.Strings
