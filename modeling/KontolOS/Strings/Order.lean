import Mathlib.Order.Defs.Unbundled
import KontolOS.Strings

/-!
# One order in three functions

`strcmp` and `strncmp` of `src/lib/string.c` and `memcmp` of `src/kernel/memory.c` stop at different
places, but what they return has the sign of one order: the lexicographic one of bytes, which are
compared as unsigned numbers (`compares_lexicographic`).  On strings it is a total order.
-/

namespace KontolOS.Strings

/-! ## The functions -/

/-- `strncmp` -/
def strncmp : List UInt8 → List UInt8 → Nat → Option Int
  | _, _, 0 => some 0
  | c :: s1, d :: s2, n + 1 =>
      if c ≠ 0 ∧ c = d then strncmp s1 s2 n else some ((c.toNat : Int) - (d.toNat : Int))
  | _, _, _ + 1 => none

/-- `memcmp` -/
def memcmp : List UInt8 → List UInt8 → Nat → Option Int
  | _, _, 0 => some 0
  | c :: p1, d :: p2, n + 1 =>
      if c ≠ d then some ((c.toNat : Int) - (d.toNat : Int)) else memcmp p1 p2 n
  | _, _, _ + 1 => none

variable {buf dest s t p q : List UInt8} {c d : UInt8} {n : Nat}

/-! ## The order -/

/-- The difference of two bytes has the sign of their order. -/
theorem compare_sub (c d : UInt8) : compare ((c.toNat : Int) - d.toNat) 0 = compare c d := by
  rw [UInt8.compare_eq_toNat_compare_toNat]
  rcases Nat.lt_trichotomy c.toNat d.toNat with hlt | heq | hgt
  · rw [Nat.compare_eq_lt.mpr hlt, Int.compare_eq_lt]
    omega
  · rw [Nat.compare_eq_eq.mpr heq, Int.compare_eq_eq]
    omega
  · rw [Nat.compare_eq_gt.mpr hgt, Int.compare_eq_gt]
    omega

/-- Where two bytes differ, the lists are decided. -/
theorem compare_cons_of_ne (hne : c ≠ d) (s t : List UInt8) :
    compare (c :: s) (d :: t) = compare ((c.toNat : Int) - d.toNat) 0 := by
  rw [List.compare_cons_cons, compare_sub]
  cases hcmp : compare c d with
  | lt => rfl
  | eq => exact absurd (Std.compare_eq_iff_eq.mp hcmp) hne
  | gt => rfl

theorem compare_cons_self (c : UInt8) (s t : List UInt8) :
    compare (c :: s) (c :: t) = compare s t := by
  rw [List.compare_cons_cons, Std.compare_self]
  rfl

/-- The end of a string comes before every other byte. -/
theorem compare_nil_cons_sub (hd : d ≠ 0) (t : List UInt8) :
    compare (((0 : UInt8).toNat : Int) - d.toNat) 0 = compare [] (d :: t) := by
  have hpos : d.toNat ≠ 0 := fun h ↦ hd (UInt8.toNat_inj.mp h)
  rw [List.compare_nil_cons, Int.compare_eq_lt, UInt8.toNat_zero]
  omega

theorem compare_cons_nil_sub (hc : c ≠ 0) (s : List UInt8) :
    compare ((c.toNat : Int) - (0 : UInt8).toNat) 0 = compare (c :: s) [] := by
  have hpos : c.toNat ≠ 0 := fun h ↦ hc (UInt8.toNat_inj.mp h)
  rw [List.compare_cons_nil, Int.compare_eq_gt, UInt8.toNat_zero]
  omega

/-! ## The loops -/

/-- **`strcmp`** -/
theorem strcmp_compare (hs : Holds buf s) (ht : Holds dest t) :
    ∃ r, strcmp buf dest = some r ∧ compare r 0 = compare s t := by
  induction s generalizing buf dest t with
  | nil =>
      obtain ⟨rest, rfl⟩ := Holds.nil_iff.mp hs
      cases t with
      | nil =>
          obtain ⟨rest', rfl⟩ := Holds.nil_iff.mp ht
          exact ⟨0, rfl, rfl⟩
      | cons d t =>
          obtain ⟨hd, b, rfl, _⟩ := Holds.cons_iff.mp ht
          exact ⟨_, if_neg fun h ↦ h.1 rfl, compare_nil_cons_sub hd t⟩
  | cons c s ih =>
      obtain ⟨hc, b, rfl, hb⟩ := Holds.cons_iff.mp hs
      cases t with
      | nil =>
          obtain ⟨rest', rfl⟩ := Holds.nil_iff.mp ht
          exact ⟨_, if_neg fun h ↦ hc h.2, compare_cons_nil_sub hc s⟩
      | cons d t =>
          obtain ⟨hd, b', rfl, hb'⟩ := Holds.cons_iff.mp ht
          by_cases hcd : c = d
          · subst hcd
            obtain ⟨r, hr, hsign⟩ := ih hb hb'
            rw [compare_cons_self]
            exact ⟨r, by rw [strcmp, if_pos ⟨hc, rfl⟩, hr], hsign⟩
          · exact ⟨_, if_neg fun h ↦ hcd h.2, (compare_cons_of_ne hcd s t).symm⟩

/-- `strcmp` tells whether two strings are equal. -/
theorem Holds.strcmp_eq (hs : Holds buf s) (ht : Holds dest t) :
    ∃ r, strcmp buf dest = some r ∧ (r = 0 ↔ s = t) := by
  obtain ⟨r, hr, hsign⟩ := strcmp_compare hs ht
  refine ⟨r, hr, ?_⟩
  rw [← Int.compare_eq_eq, hsign]
  exact Std.compare_eq_iff_eq

/-- **`strncmp`**, of which the buffers need not have more than the `n` bytes. -/
theorem strncmp_compare (hs : 0 ∉ s) (ht : 0 ∉ t) (hbuf : (s ++ [0]).take n <+: buf)
    (hdest : (t ++ [0]).take n <+: dest) :
    ∃ r, strncmp buf dest n = some r ∧ compare r 0 = compare (s.take n) (t.take n) := by
  induction n generalizing buf dest s t with
  | zero => exact ⟨0, by rw [strncmp], rfl⟩
  | succ n ih =>
      obtain ⟨rest, rfl⟩ := hbuf
      obtain ⟨rest', rfl⟩ := hdest
      cases s with
      | nil =>
          cases t with
          | nil => exact ⟨0, rfl, rfl⟩
          | cons d t =>
              have hd : d ≠ 0 := fun h ↦ ht (h ▸ List.mem_cons_self)
              exact ⟨_, if_neg fun h ↦ h.1 rfl, compare_nil_cons_sub hd _⟩
      | cons c s =>
          have hc : c ≠ 0 := fun h ↦ hs (h ▸ List.mem_cons_self)
          cases t with
          | nil => exact ⟨_, if_neg fun h ↦ hc h.2, compare_cons_nil_sub hc _⟩
          | cons d t =>
              by_cases hcd : c = d
              · subst hcd
                obtain ⟨r, hr, hsign⟩ := ih (fun h ↦ hs (List.mem_cons_of_mem c h))
                  (fun h ↦ ht (List.mem_cons_of_mem c h)) (List.prefix_append _ rest)
                  (List.prefix_append _ rest')
                refine ⟨r, (if_pos ⟨hc, rfl⟩).trans hr, hsign.trans ?_⟩
                exact (compare_cons_self c _ _).symm
              · exact ⟨_, if_neg fun h ↦ hcd h.2, (compare_cons_of_ne hcd _ _).symm⟩

/-- **`memcmp`** -/
theorem memcmp_compare (hp : n ≤ p.length) (hq : n ≤ q.length) :
    ∃ r, memcmp p q n = some r ∧ compare r 0 = compare (p.take n) (q.take n) := by
  induction n generalizing p q with
  | zero => exact ⟨0, by rw [memcmp], rfl⟩
  | succ n ih =>
      obtain ⟨c, p, rfl⟩ := List.exists_cons_of_length_pos (Nat.zero_lt_of_lt hp)
      obtain ⟨d, q, rfl⟩ := List.exists_cons_of_length_pos (Nat.zero_lt_of_lt hq)
      rw [memcmp, List.take_succ_cons, List.take_succ_cons]
      by_cases hcd : c = d
      · subst hcd
        rw [if_neg fun h ↦ h rfl, compare_cons_self]
        exact ih (Nat.le_of_succ_le_succ hp) (Nat.le_of_succ_le_succ hq)
      · rw [if_pos hcd, compare_cons_of_ne hcd]
        exact ⟨_, rfl, rfl⟩

/-! ## The order laws -/

/-- `strcmp` does not find the first string greater. -/
def StrLe (s t : List UInt8) : Prop := ∃ r ≤ 0, strcmp (s ++ [0]) (t ++ [0]) = some r

theorem strLe_iff (hs : 0 ∉ s) (ht : 0 ∉ t) : StrLe s t ↔ (compare s t).isLE = true := by
  obtain ⟨r, hr, hsign⟩ := strcmp_compare ⟨hs, [], rfl⟩ ⟨ht, [], rfl⟩
  have hle : StrLe s t ↔ r ≤ 0 := by
    constructor
    · rintro ⟨r', hr', hcmp⟩
      rw [← Option.some.inj (hcmp.symm.trans hr)]
      exact hr'
    · exact fun h ↦ ⟨r, h, hr⟩
  rw [hle, ← hsign]
  exact Int.isLE_compare.symm

/-- **`strcmp` is a total order** of the strings. -/
theorem isLinearOrder_strLe : IsLinearOrder {s : List UInt8 // 0 ∉ s} fun s t ↦ StrLe s t where
  refl s := by
    rw [strLe_iff s.2 s.2, Std.compare_self]
    rfl
  trans s t u hst htu := by
    rw [strLe_iff s.2 t.2] at hst
    rw [strLe_iff t.2 u.2] at htu
    rw [strLe_iff s.2 u.2]
    exact Std.TransCmp.isLE_trans hst htu
  antisymm s t hst hts := by
    rw [strLe_iff s.2 t.2] at hst
    rw [strLe_iff t.2 s.2] at hts
    apply Subtype.ext
    exact Std.compare_eq_iff_eq.mp (Std.OrientedCmp.isLE_antisymm hst hts)
  total s t := by
    have hswap : compare s.1 t.1 = (compare t.1 s.1).swap := Std.OrientedCmp.eq_swap
    rw [strLe_iff s.2 t.2, strLe_iff t.2 s.2, hswap]
    cases compare t.1 s.1 with
    | lt => exact .inr rfl
    | eq => exact .inl rfl
    | gt => exact .inl rfl

/-- **The three functions have the sign of one order**, the lexicographic one of bytes as unsigned
numbers: `strcmp` on strings, `strncmp` on strings that are cut to `n` bytes, and `memcmp` on
blocks of `n` bytes.  None of them needs a byte behind a terminator or behind the `n`-th one. -/
theorem compares_lexicographic (hs : 0 ∉ s) (ht : 0 ∉ t) (n : Nat) :
    (∀ buf dest, Holds buf s → Holds dest t →
      ∃ r, strcmp buf dest = some r ∧ compare r 0 = compare s t) ∧
    (∀ buf dest, (s ++ [0]).take n <+: buf → (t ++ [0]).take n <+: dest →
      ∃ r, strncmp buf dest n = some r ∧ compare r 0 = compare (s.take n) (t.take n)) ∧
    (∀ p q, n ≤ p.length → n ≤ q.length →
      ∃ r, memcmp p q n = some r ∧ compare r 0 = compare (p.take n) (q.take n)) ∧
    IsLinearOrder {s : List UInt8 // 0 ∉ s} fun s t ↦ StrLe s t :=
  ⟨fun _ _ ↦ strcmp_compare, fun _ _ ↦ strncmp_compare hs ht, fun _ _ ↦ memcmp_compare,
    isLinearOrder_strLe⟩

/-- A byte that a signed character would take for negative is greater than a letter. -/
theorem compares_lexicographic_high :
    (∀ buf dest, Holds buf [0x80] → Holds dest [0x61] →
      ∃ r, strcmp buf dest = some r ∧ compare r 0 = compare [(0x80 : UInt8)] [0x61]) ∧
    (∀ buf dest, ([(0x80 : UInt8)] ++ [0]).take 1 <+: buf →
      ([(0x61 : UInt8)] ++ [0]).take 1 <+: dest →
      ∃ r, strncmp buf dest 1 = some r ∧
        compare r 0 = compare ([(0x80 : UInt8)].take 1) ([0x61].take 1)) ∧
    (∀ p q, 1 ≤ p.length → 1 ≤ q.length →
      ∃ r, memcmp p q 1 = some r ∧ compare r 0 = compare (p.take 1) (q.take 1)) ∧
    IsLinearOrder {s : List UInt8 // 0 ∉ s} fun s t ↦ StrLe s t :=
  compares_lexicographic (s := [0x80]) (t := [0x61]) (by decide) (by decide) 1

end KontolOS.Strings
