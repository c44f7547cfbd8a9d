import Mathlib.Data.List.Induction
import Mathlib.Data.Nat.Digits.Defs
import KontolOS.Strings

/-!
# Numbers as strings

`itoa` of `src/lib/string.c` writes the digits of a number from the last one to the first, and turns
them round in place.  What it leaves in its buffer is the numeral of the number, behind a minus sign
if the number is negative and the base is ten (`itoa_eq`).
-/

namespace KontolOS.Strings

open KontolOS.Lib

/-! ## The function -/

/-- `*p = c`, for a pointer to the place `p` of `str`. -/
def storeChar (str : List UInt8) (p : Nat) (c : UInt8) : Option (List UInt8) :=
  if p < str.length then some (str.set p c) else none

/-- The digit for a number below 36. -/
def digitChar (divisor : Nat) : UInt8 :=
  if divisor < 10 then 0x30 + UInt8.ofNat divisor else 0x61 + UInt8.ofNat divisor - 10

/-- `(unsigned int)value` -/
def toUnsigned (value : Int) : Nat := (value % 2 ^ 32).toNat

/-- "Calculate digits in reverse order"; there are at most `n` of them. -/
def itoaDigits (base : Nat) : Nat → Nat → Nat → List UInt8 → Option (Nat × List UInt8)
  | 0, _, _, _ => none
  | n + 1, uvalue, p, str => do
      let str ← storeChar str p (digitChar (uvalue % base))
      let uvalue := uvalue / base
      if uvalue ≠ 0 then itoaDigits base n uvalue (p + 1) str else return (p + 1, str)

/-- "Reverse the string", which takes less than `n` turns. -/
def itoaReverse : Nat → Nat → Nat → List UInt8 → Option (List UInt8)
  | 0, _, _, _ => none
  | n + 1, p1, p2, str =>
      if p1 < p2 then do
        let tmp ← str[p1]?
        let str ← storeChar str p1 (← str[p2]?)
        let str ← storeChar str p2 tmp
        itoaReverse n (p1 + 1) (p2 - 1) str
      else some str

/-- `itoa`, for a base that is not negative: what `str` points to afterwards. -/
def itoa (value : Int) (str : List UInt8) (base : Nat) : Option (List UInt8) := do
  let (start, uvalue, str) ←
    if value < 0 ∧ base = 10 then do
      let str ← storeChar str 0 0x2D
      some (1, toUnsigned (-value), str)
    else some (0, toUnsigned value, str)
  let (p, str) ← itoaDigits base 32 uvalue start str
  let str ← storeChar str p 0
  itoaReverse str.length start (p - 1) str

/-! ## Numerals -/

/-- The digits of a number, the last one first. -/
def digitsOf (base n : Nat) : List Nat := if n = 0 then [0] else Nat.digits base n

/-- **The numeral of a number.** -/
def numeral (base n : Nat) : List UInt8 := (digitsOf base n).reverse.map digitChar

variable {base n k : Nat} {str pre rest : List UInt8}

theorem digitsOf_of_lt (hbase : 2 ≤ base) (hn : n / base = 0) : digitsOf base n = [n % base] := by
  have hlt : n < base := (Nat.div_eq_zero_iff_lt (by omega)).mp hn
  rw [digitsOf, Nat.mod_eq_of_lt hlt]
  split
  next hzero => rw [hzero]
  next hpos => exact Nat.digits_of_lt base n hpos hlt

theorem digitsOf_of_ne (hbase : 2 ≤ base) (hn : n / base ≠ 0) :
    digitsOf base n = n % base :: digitsOf base (n / base) := by
  have hpos : n ≠ 0 := by
    rintro rfl
    exact hn (Nat.zero_div base)
  rw [digitsOf, digitsOf, if_neg hpos, if_neg hn,
    Nat.digits_of_two_le_of_pos hbase (Nat.pos_of_ne_zero hpos)]

theorem digitsOf_ne_nil (base n : Nat) : digitsOf base n ≠ [] := by
  rw [digitsOf]
  split
  · exact List.cons_ne_nil _ _
  next hn => exact Nat.digits_ne_nil_iff_ne_zero.mpr hn

theorem length_numeral_pos (base n : Nat) : 0 < (numeral base n).length := by
  rw [numeral, List.length_map, List.length_reverse]
  exact List.length_pos_of_ne_nil (digitsOf_ne_nil base n)

/-- A digit is not the terminator. -/
theorem digitChar_ne_zero (hn : n < 36) : digitChar n ≠ 0 := by
  have hall : ∀ n < 36, digitChar n ≠ 0 := by decide
  exact hall n hn

theorem zero_not_mem_numeral (hbase : 2 ≤ base) (hbase' : base ≤ 36) (n : Nat) :
    0 ∉ numeral base n := by
  rintro hmem
  obtain ⟨d, hd, hzero⟩ := List.mem_map.mp hmem
  refine digitChar_ne_zero ?_ hzero
  rw [List.mem_reverse, digitsOf] at hd
  split at hd
  · rw [List.mem_singleton.mp hd]
    decide
  · exact Nat.lt_of_lt_of_le (Nat.digits_lt_base hbase hd) hbase'

/-! ## The loops -/

theorem storeChar_append (pre rest : List UInt8) (b c : UInt8) :
    storeChar (pre ++ b :: rest) pre.length c = some (pre ++ c :: rest) := by
  rw [storeChar, if_pos (by simp), set_length_append]

/-- **The first loop** writes the digits, the last one first. -/
theorem itoaDigits_eq (hbase : 2 ≤ base) (hn : n < base ^ k) (hk : 0 < k)
    (hroom : (digitsOf base n).length ≤ rest.length) :
    itoaDigits base k n pre.length (pre ++ rest) =
      some (pre.length + (digitsOf base n).length,
        pre ++ (digitsOf base n).map digitChar ++ rest.drop (digitsOf base n).length) := by
  induction k generalizing n pre rest with
  | zero => exact absurd hk (Nat.lt_irrefl 0)
  | succ k ih =>
      obtain ⟨b, rest, rfl⟩ : ∃ b r, rest = b :: r := by
        refine List.exists_cons_of_ne_nil (List.ne_nil_of_length_pos ?_)
        exact Nat.lt_of_lt_of_le (List.length_pos_of_ne_nil (digitsOf_ne_nil base n)) hroom
      rw [itoaDigits, storeChar_append, Option.bind_eq_bind, Option.bind_some]
      by_cases hlast : n / base = 0
      · rw [if_neg (not_not.mpr hlast), digitsOf_of_lt hbase hlast]
        simp
      · rw [digitsOf_of_ne hbase hlast] at hroom ⊢
        have hsmall : n / base < base ^ k :=
          Nat.div_lt_of_lt_mul (by rwa [Nat.pow_succ, Nat.mul_comm] at hn)
        have hk' : 0 < k := by
          refine Nat.pos_of_ne_zero ?_
          rintro rfl
          exact hlast (Nat.lt_one_iff.mp hsmall)
        have hrest := @ih (n / base) (pre ++ [digitChar (n % base)]) rest hsmall hk'
          (Nat.le_of_succ_le_succ hroom)
        rw [List.length_append, List.length_singleton, List.append_assoc _ [_],
          List.singleton_append] at hrest
        rw [if_pos hlast, hrest, List.length_cons, List.map_cons, List.drop_succ_cons,
          Nat.add_right_comm, Nat.add_assoc]
        simp

/-- **The second loop** turns them round. -/
theorem itoaReverse_eq (pre mid post : List UInt8) (hk : mid.length < 2 * k + 2) :
    itoaReverse (k + 1) pre.length (pre.length + mid.length - 1) (pre ++ mid ++ post) =
      some (pre ++ mid.reverse ++ post) := by
  induction k generalizing pre mid post with
  | zero =>
      have hstop : ¬ pre.length < pre.length + mid.length - 1 := by omega
      rw [itoaReverse, if_neg hstop]
      match mid, hk with
      | [], _ => rfl
      | [a], _ => rfl
  | succ k ih =>
      cases mid with
      | nil =>
          rw [itoaReverse, if_neg (by simp)]
          rfl
      | cons a tail =>
          rcases List.eq_nil_or_concat tail with rfl | ⟨m, b, rfl⟩
          · rw [itoaReverse, if_neg (by simp)]
            rfl
          · -- the first character and the last one are exchanged
            rw [List.concat_eq_append] at hk ⊢
            have hlen : (a :: (m ++ [b])).length = m.length + 2 := by simp
            have hlast : pre.length + (a :: (m ++ [b])).length - 1 = (pre ++ b :: m).length := by
              rw [hlen, List.length_append, List.length_cons]
              omega
            have hstr : pre ++ (a :: (m ++ [b])) ++ post = pre ++ a :: (m ++ b :: post) := by simp
            have hfirst : (pre ++ a :: (m ++ b :: post))[pre.length]? = some a :=
              getElem?_length_append ..
            have hend : (pre ++ a :: (m ++ b :: post))[(pre ++ b :: m).length]? = some b := by
              have hplace : (pre ++ b :: m).length = (pre ++ a :: m).length := by simp
              have hsplit : pre ++ a :: (m ++ b :: post) = (pre ++ a :: m) ++ b :: post := by simp
              rw [hplace, hsplit, getElem?_length_append]
            have hstore : storeChar (pre ++ b :: (m ++ b :: post)) (pre ++ b :: m).length a =
                some (pre ++ b :: (m ++ a :: post)) := by
              have := storeChar_append (pre ++ b :: m) post b a
              simpa using this
            have hrest := ih (pre ++ [b]) m (a :: post) (by omega)
            rw [itoaReverse, if_pos (by rw [hlen]; omega), hstr, hlast, hfirst, hend]
            simp only [Option.bind_eq_bind, Option.bind_some]
            rw [storeChar_append, Option.bind_some, hstore, Option.bind_some]
            have hfrom : (pre ++ [b]).length = pre.length + 1 := by simp
            have hto : (pre ++ [b]).length + m.length - 1 = (pre ++ b :: m).length - 1 := by
              simp only [List.length_append, List.length_cons, List.length_nil]
              omega
            rw [hto, hfrom] at hrest
            simpa using hrest

/-! ## The whole function -/

/-- What `itoa` writes. -/
def itoaText (value : Int) (base : Nat) : List UInt8 :=
  if value < 0 ∧ base = 10 then 0x2D :: numeral base (toUnsigned (-value))
  else numeral base (toUnsigned value)

theorem toUnsigned_lt (value : Int) : toUnsigned value < 2 ^ 32 := by
  unfold toUnsigned
  omega

theorem toUnsigned_neg {value : Int} (hmin : -2 ^ 31 ≤ value) (hneg : value < 0) :
    toUnsigned (-value) = value.natAbs := by
  unfold toUnsigned
  omega

theorem toUnsigned_of_nonneg {value : Int} (hmax : value < 2 ^ 31) (hpos : 0 ≤ value) :
    toUnsigned value = value.natAbs := by
  unfold toUnsigned
  omega

theorem zero_not_mem_itoaText (hbase : 2 ≤ base) (hbase' : base ≤ 36) (value : Int) :
    0 ∉ itoaText value base := by
  rw [itoaText]
  split
  · rw [List.mem_cons, not_or]
    exact ⟨by decide, zero_not_mem_numeral hbase hbase' _⟩
  · exact zero_not_mem_numeral hbase hbase' _

/-- Both loops, and the terminator in between. -/
theorem itoa_digits (hbase : 2 ≤ base) (hn : n < 2 ^ 32)
    (hroom : (numeral base n).length < rest.length) :
    ((itoaDigits base 32 n pre.length (pre ++ rest)).bind fun x ↦
      (storeChar x.2 x.1 0).bind fun str ↦ itoaReverse str.length pre.length (x.1 - 1) str) =
      some (pre ++ numeral base n ++ 0 :: rest.drop ((numeral base n).length + 1)) := by
  have hlen : (numeral base n).length = (digitsOf base n).length := by
    rw [numeral, List.length_map, List.length_reverse]
  rw [hlen] at hroom ⊢
  have hpow : n < base ^ 32 := Nat.lt_of_lt_of_le hn (Nat.pow_le_pow_left hbase 32)
  obtain ⟨b, tail, htail⟩ : ∃ b tail, rest.drop (digitsOf base n).length = b :: tail :=
    List.exists_cons_of_ne_nil (List.drop_eq_nil_iff.not.mpr (Nat.not_le.mpr hroom))
  have hplace : pre.length + (digitsOf base n).length =
      (pre ++ (digitsOf base n).map digitChar).length := by
    rw [List.length_append, List.length_map]
  have hturns : ((digitsOf base n).map digitChar).length <
      2 * (pre.length + (digitsOf base n).length + tail.length) + 2 := by
    rw [List.length_map]
    omega
  have hreverse := itoaReverse_eq pre ((digitsOf base n).map digitChar) (0 :: tail) hturns
  have hfuel : (pre ++ (digitsOf base n).map digitChar ++ 0 :: tail).length =
      pre.length + (digitsOf base n).length + tail.length + 1 := by
    simp only [List.length_append, List.length_map, List.length_cons]
    omega
  rw [itoaDigits_eq hbase hpow (by decide) (Nat.le_of_lt hroom), Option.bind_some, htail, hplace,
    storeChar_append, Option.bind_some, hfuel, ← hplace]
  rw [List.length_map] at hreverse
  rw [hreverse, ← List.tail_drop, htail, numeral, List.map_reverse]
  rfl

/-- **`itoa`** writes the numeral of its argument and a terminator, if there is room. -/
theorem itoa_eq (value : Int) (hbase : 2 ≤ base)
    (hroom : (itoaText value base).length < str.length) :
    itoa value str base = some
      (itoaText value base ++ 0 :: str.drop ((itoaText value base).length + 1)) := by
  unfold itoaText at hroom ⊢
  rw [itoa]
  split at hroom
  next hneg =>
    obtain ⟨b, rest, rfl⟩ : ∃ b rest, str = b :: rest :=
      List.exists_cons_of_ne_nil (List.ne_nil_of_length_pos (Nat.zero_lt_of_lt hroom))
    have hloops := @itoa_digits base (toUnsigned (-value)) [0x2D] rest hbase (toUnsigned_lt _)
      (Nat.lt_of_succ_lt_succ hroom)
    have hminus : storeChar (b :: rest) 0 0x2D = some (0x2D :: rest) := if_pos (Nat.succ_pos _)
    rw [if_pos hneg, if_pos hneg, hminus]
    exact hloops
  next hpos =>
    have hloops := @itoa_digits base (toUnsigned value) [] str hbase (toUnsigned_lt _) hroom
    rw [if_neg hpos, if_neg hpos]
    exact hloops

end KontolOS.Strings
