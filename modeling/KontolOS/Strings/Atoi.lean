import KontolOS.Lib.Numeral
import KontolOS.Strings.Itoa

/-!
# Strings as numbers

`atoi` of `src/lib/string.c` skips blanks, takes a sign, and goes on as long as there are digits.
Its `int` may wrap on the way, and once more when the sign is applied.  What `itoa` writes is the
canonical numeral of its argument, in every base that there are digits for, and `atoi` reads the
one in base ten back, the least number included (`itoa_atoi`).
-/

namespace KontolOS.Strings

open KontolOS.Lib

/-! ## The function -/

/-- "Skip whitespace" -/
def atoiSkip : List UInt8 → Option (List UInt8)
  | [] => none
  | c :: str => if c = 0x20 ∨ c = 0x09 then atoiSkip str else some (c :: str)

/-- "Handle sign": the sign, and what `str` points to behind it. -/
def atoiSign : List UInt8 → Option (Int × List UInt8)
  | [] => none
  | c :: str =>
      if c = 0x2D then some (-1, str) else if c = 0x2B then some (1, str) else some (1, c :: str)

/-- "Convert digits", where `result` is an `int`. -/
def atoiDigits : List UInt8 → Int → Option Int
  | [], _ => none
  | c :: str, result =>
      if 0x30 ≤ c ∧ c ≤ 0x39 then
        atoiDigits str (Int.bmod (result * 10 + (c.toNat - 0x30)) (2 ^ 32))
      else some result

/-- `atoi` -/
def atoi (str : List UInt8) : Option Int := do
  let str ← atoiSkip str
  let (sign, str) ← atoiSign str
  let result ← atoiDigits str 0
  return Int.bmod (sign * result) (2 ^ 32)

/-! ## What `itoa` is to write -/

/-- The digits, from the one for 0 to the one for 35. -/
def lowerDigits : List UInt8 := cstr (literal "0123456789abcdefghijklmnopqrstuvwxyz")

/-- The string for the digits of a numeral. -/
def numeralText (ds : List Nat) : List UInt8 := ds.map fun d ↦ lowerDigits.getD d 0

/-- **The text of a number**: in base ten its numeral, with a minus sign in front if it is negative,
and in any other base the numeral of the number modulo `2 ^ 32`. -/
def Denotes (base : Nat) (value : Int) (text : List UInt8) : Prop :=
  ∃ ds, IsNumeral base (if base = 10 then value.natAbs else (value % 2 ^ 32).toNat) ds ∧
    text = (if base = 10 ∧ value < 0 then [0x2D] else []) ++ numeralText ds

variable {base n : Nat} {value : Int} {ds : List Nat} {str text rest : List UInt8}

/-! ## `itoa` -/

theorem digitChar_eq (hn : n < 36) : digitChar n = lowerDigits.getD n 0 := by
  have hall : ∀ n < 36, digitChar n = lowerDigits.getD n 0 := by decide
  exact hall n hn

theorem isNumeral_digitsOf (hbase : 2 ≤ base) (n : Nat) :
    IsNumeral base n (digitsOf base n).reverse := by
  rw [digitsOf]
  split
  next hzero =>
    rw [hzero]
    exact isNumeral_zero (Nat.zero_lt_of_lt hbase)
  next hpos => exact isNumeral_digits hbase hpos

theorem numeral_eq_numeralText (hbase : 2 ≤ base) (hbase' : base ≤ 36) (n : Nat) :
    numeral base n = numeralText (digitsOf base n).reverse := by
  refine List.map_congr_left fun d hd ↦ digitChar_eq ?_
  exact Nat.lt_of_lt_of_le ((isNumeral_digitsOf hbase n).lt d hd) hbase'

/-- The text that `itoa` writes is that of the number. -/
theorem denotes_itoaText (hmin : -2 ^ 31 ≤ value) (hmax : value < 2 ^ 31) (hbase : 2 ≤ base)
    (hbase' : base ≤ 36) : Denotes base value (itoaText value base) := by
  rw [itoaText]
  split
  next hneg =>
    have habs : toUnsigned (-value) = value.natAbs := toUnsigned_neg hmin hneg.1
    refine ⟨(digitsOf base value.natAbs).reverse, ?_, ?_⟩
    · rw [if_pos hneg.2]
      exact isNumeral_digitsOf hbase _
    · rw [if_pos hneg.symm, habs, numeral_eq_numeralText hbase hbase']
      rfl
  next hpos =>
    have habs : toUnsigned value = if base = 10 then value.natAbs else (value % 2 ^ 32).toNat := by
      split
      next hten => exact toUnsigned_of_nonneg hmax (Int.not_lt.mp fun h ↦ hpos ⟨h, hten⟩)
      next => rfl
    refine ⟨_, isNumeral_digitsOf hbase _, ?_⟩
    rw [if_neg fun h ↦ hpos h.symm, ← habs, numeral_eq_numeralText hbase hbase']
    rfl

theorem length_numeral_le {k : Nat} (hbase : 2 ≤ base) (hn : n < base ^ (k + 1)) :
    (numeral base n).length ≤ k + 1 := by
  rw [numeral, List.length_map]
  exact (isNumeral_digitsOf hbase n).length_le hbase hn

/-- 32 characters are enough for every number in every base. -/
theorem length_itoaText_le (hbase : 2 ≤ base) (value : Int) :
    (itoaText value base).length ≤ 32 := by
  rw [itoaText]
  split
  next hneg =>
    have hsmall : toUnsigned (-value) < base ^ (9 + 1) := by
      rw [hneg.2]
      unfold toUnsigned
      omega
    have hlen := length_numeral_le hbase hsmall
    rw [List.length_cons]
    omega
  next hpos =>
    have hsmall : toUnsigned value < base ^ (31 + 1) :=
      Nat.lt_of_lt_of_le (toUnsigned_lt value) (Nat.pow_le_pow_left hbase 32)
    exact length_numeral_le hbase hsmall

/-! ## `atoi` -/

/-- A decimal digit, as the loop sees it. -/
theorem lowerDigits_ten (hn : n < 10) :
    (0x30 ≤ lowerDigits.getD n 0 ∧ lowerDigits.getD n 0 ≤ 0x39) ∧
      (lowerDigits.getD n 0).toNat = 0x30 + n := by
  have hall : ∀ n < 10, (0x30 ≤ lowerDigits.getD n 0 ∧ lowerDigits.getD n 0 ≤ 0x39) ∧
      (lowerDigits.getD n 0).toNat = 0x30 + n := by decide
  exact hall n hn

/-- **The loop** computes the number of the digits modulo `2 ^ 32`. -/
theorem atoiDigits_eq (hds : ∀ d ∈ ds, d < 10) (n : Nat) (rest : List UInt8) :
    atoiDigits (numeralText ds ++ 0 :: rest) (Int.bmod n (2 ^ 32)) =
      some (Int.bmod (ds.foldl (fun n d ↦ n * 10 + d) n : Nat) (2 ^ 32)) := by
  induction ds generalizing n with
  | nil => exact if_neg (by decide)
  | cons d ds ih =>
      obtain ⟨hdigit, hval⟩ := lowerDigits_ten (hds d List.mem_cons_self)
      have hrest := ih (fun e he ↦ hds e (List.mem_cons_of_mem d he)) (n * 10 + d)
      have hstep : Int.bmod (Int.bmod n (2 ^ 32) * 10 + ((lowerDigits.getD d 0).toNat - 0x30))
          (2 ^ 32) = Int.bmod (n * 10 + d : Nat) (2 ^ 32) := by
        have hsub : ((lowerDigits.getD d 0).toNat : Int) - 0x30 = d := by omega
        rw [hsub, ← Int.bmod_add_bmod, Int.bmod_mul_bmod, Int.bmod_add_bmod]
        rfl
      rw [numeralText, List.map_cons, List.cons_append, atoiDigits, if_pos hdigit, hstep,
        List.foldl_cons, ← hrest]
      rfl

/-- The first character is no blank. -/
theorem atoiSkip_digit (hn : n < 10) :
    atoiSkip (lowerDigits.getD n 0 :: rest) = some (lowerDigits.getD n 0 :: rest) := by
  have hall : ∀ n < 10, ¬ (lowerDigits.getD n 0 = 0x20 ∨ lowerDigits.getD n 0 = 0x09) := by decide
  exact if_neg (hall n hn)

/-- And no sign, if it is a digit. -/
theorem atoiSign_digit (hn : n < 10) :
    atoiSign (lowerDigits.getD n 0 :: rest) = some (1, lowerDigits.getD n 0 :: rest) := by
  have hall : ∀ n < 10, lowerDigits.getD n 0 ≠ 0x2D ∧ lowerDigits.getD n 0 ≠ 0x2B := by decide
  obtain ⟨hminus, hplus⟩ := hall n hn
  rw [atoiSign, if_neg hminus, if_neg hplus]

/-- A number of an `int` is what it is modulo `2 ^ 32`. -/
theorem bmod_of_int32 (hmin : -2 ^ 31 ≤ value) (hmax : value < 2 ^ 31) :
    Int.bmod value (2 ^ 32) = value := by
  rw [Int.bmod_def]
  split
  · omega
  · omega

/-- **`atoi`** reads the text of a number. -/
theorem atoi_of_denotes (h : Denotes 10 value text) (hmin : -2 ^ 31 ≤ value)
    (hmax : value < 2 ^ 31) : atoi (text ++ 0 :: rest) = some value := by
  obtain ⟨ds, hds, rfl⟩ := h
  rw [if_pos rfl] at hds
  have hdigits := atoiDigits_eq hds.lt 0 rest
  have hvalue : ds.foldl (fun n d ↦ n * 10 + d) 0 = value.natAbs := hds.value
  rw [hvalue, show Int.bmod (0 : Nat) (2 ^ 32) = 0 from rfl] at hdigits
  by_cases hneg : value < 0
  · rw [if_pos ⟨rfl, hneg⟩]
    have hskip : atoiSkip ([0x2D] ++ numeralText ds ++ 0 :: rest) =
        some (0x2D :: (numeralText ds ++ 0 :: rest)) := if_neg (by decide)
    have hsign : atoiSign (0x2D :: (numeralText ds ++ 0 :: rest)) =
        some (-1, numeralText ds ++ 0 :: rest) := by rw [atoiSign, if_pos rfl]
    have hmul : -1 * (value.natAbs : Int) = value := by omega
    simp only [atoi, hskip, hsign, hdigits, Option.bind_eq_bind, Option.bind_some]
    rw [Int.mul_bmod_bmod, hmul, bmod_of_int32 hmin hmax]
    rfl
  · rw [if_neg fun h ↦ hneg h.2, List.nil_append]
    obtain ⟨d, ds, rfl⟩ := List.exists_cons_of_ne_nil hds.ne_nil
    have hd := hds.lt d List.mem_cons_self
    have hfirst : numeralText (d :: ds) ++ 0 :: rest =
        lowerDigits.getD d 0 :: (numeralText ds ++ 0 :: rest) := rfl
    have habs : (value.natAbs : Int) = value := by omega
    rw [hfirst] at hdigits ⊢
    simp only [atoi, atoiSkip_digit hd, atoiSign_digit hd, hdigits, Option.bind_eq_bind,
      Option.bind_some]
    rw [Int.mul_bmod_bmod, habs, Int.one_mul, bmod_of_int32 hmin hmax]
    rfl

/-- **`itoa` writes the numeral of a number, and `atoi` reads it back.** -/
theorem itoa_atoi (hmin : -2 ^ 31 ≤ value) (hmax : value < 2 ^ 31) (hbase : 2 ≤ base)
    (hbase' : base ≤ 36) :
    ∃ text, Denotes base value text ∧ 0 ∉ text ∧ text.length ≤ 32 ∧
      ∀ str, text.length < str.length →
        itoa value str base = some (text ++ 0 :: str.drop (text.length + 1)) ∧
        (base = 10 → (itoa value str base).bind atoi = some value) := by
  have hdenotes := denotes_itoaText hmin hmax hbase hbase'
  refine ⟨itoaText value base, hdenotes, zero_not_mem_itoaText hbase hbase' value,
    length_itoaText_le hbase value, fun str hroom ↦ ⟨itoa_eq value hbase hroom, ?_⟩⟩
  rintro rfl
  rw [itoa_eq value hbase hroom, Option.bind_some]
  exact atoi_of_denotes hdenotes hmin hmax

/-- The least number, in base ten. -/
theorem itoa_atoi_min : ∃ text, Denotes 10 (-2 ^ 31) text ∧ 0 ∉ text ∧ text.length ≤ 32 ∧
    ∀ str, text.length < str.length →
      itoa (-2 ^ 31) str 10 = some (text ++ 0 :: str.drop (text.length + 1)) ∧
      (10 = 10 → (itoa (-2 ^ 31) str 10).bind atoi = some (-2 ^ 31)) :=
  itoa_atoi (by decide) (by decide) (by decide) (by decide)

end KontolOS.Strings
