import KontolOS.Drivers.Output
import KontolOS.Strings.Itoa

/-!
# Two ways to print a number

`vga_print_dec` prints a number with its sign, and `itoa` writes one into a buffer.  Both negate a
negative number first: `itoa` goes on with an unsigned number, and `vga_print_dec` with a signed
one, which for the least number is still negative.  They agree on all others (`printersAgree_iff`).
-/

namespace KontolOS.Drivers

open KontolOS.Lib KontolOS.Strings

/-- The canonical decimal numeral: the digits, and a minus sign in front of a negative number. -/
def signedDecimal (num : Int) : List UInt8 :=
  (if num < 0 then [0x2D] else []) ++ decimal num.natAbs

/-- **The printers agree** on a number: `itoa` writes its numeral into any buffer of 12 bytes, and
what `vga_print_dec` does is to give the characters of this numeral to `vga_putchar`. -/
def PrintersAgree (num : Int) : Prop :=
  ∀ buf : List UInt8, 12 ≤ buf.length → ∃ buf', itoa num buf 10 = some buf' ∧
    Holds buf' (signedDecimal num) ∧ ∀ v, vgaPrintDec num v = putDigits (signedDecimal num) v

variable {num : Int} {n : Nat}

/-! ## `itoa` -/

theorem decimal_eq_numeral (n : Nat) : decimal n = numeral 10 n := by
  rw [decimal, numeral, digitsOf]
  split
  · rfl
  · refine List.map_congr_left fun d hd ↦ ?_
    exact (if_pos (Nat.digits_lt_base (by decide) (List.mem_reverse.mp hd))).symm

theorem itoaText_ten (hmin : -2 ^ 31 ≤ num) (hmax : num < 2 ^ 31) :
    itoaText num 10 = signedDecimal num := by
  rw [itoaText, signedDecimal, decimal_eq_numeral]
  by_cases hneg : num < 0
  · rw [if_pos ⟨hneg, rfl⟩, if_pos hneg, toUnsigned_neg hmin hneg]
    rfl
  · rw [if_neg fun h ↦ hneg h.1, if_neg hneg, toUnsigned_of_nonneg hmax (Int.not_lt.mp hneg)]
    rfl

/-- `itoa` has no trouble with any number. -/
theorem itoa_ten (hmin : -2 ^ 31 ≤ num) (hmax : num < 2 ^ 31) {buf : List UInt8}
    (hbuf : 12 ≤ buf.length) : ∃ buf', itoa num buf 10 = some buf' ∧
      Holds buf' (signedDecimal num) := by
  have habs : (decimal num.natAbs).length ≤ 9 + 1 := length_decimal_le (by omega)
  have hlen : (itoaText num 10).length ≤ 11 := by
    rw [itoaText_ten hmin hmax, signedDecimal, List.length_append]
    split
    · rw [List.length_singleton]
      omega
    · rw [List.length_nil]
      omega
  have hitoa := itoa_eq num (by decide : 2 ≤ 10)
    (show (itoaText num 10).length < buf.length by omega)
  have hzero := zero_not_mem_itoaText (by decide : 2 ≤ 10) (by decide) num
  rw [itoaText_ten hmin hmax] at hitoa hzero
  exact ⟨_, hitoa, hzero, _, rfl⟩

/-! ## `vga_print_dec` -/

/-- A negative number. -/
theorem vgaPrintDec_neg (hpos : 0 < n) (hn : n < 2 ^ 31) (v : Vga) :
    vgaPrintDec (-n) v = putDigits (0x2D :: decimal n) v := by
  have hneg : -(n : Int) < 0 := by omega
  have hminus : negInt32 (-n) = n := by
    rw [negInt32, if_neg (by omega), Int.neg_neg]
  have hne : (n : Int) ≠ 0 := by omega
  simp only [vgaPrintDec, hneg, if_true, hminus, if_neg hne,
    decDigits_eq (show n < 10 ^ 12 by omega)]
  rw [decimal, if_neg (by omega), List.append_nil]
  rfl

/-- **The least number** is printed without its digits. -/
theorem vgaPrintDec_min (v : Vga) : vgaPrintDec (-2 ^ 31) v = putDigits [0x2D] v := by
  have hneg : (-2 ^ 31 : Int) < 0 := by decide
  have hminus : negInt32 (-2 ^ 31) = -2 ^ 31 := if_pos rfl
  have hne : (-2 ^ 31 : Int) ≠ 0 := by decide
  have hdigits : decDigits 12 (-2 ^ 31) [] = some [] := if_neg (by decide)
  simp only [vgaPrintDec, hneg, if_true, hminus, if_neg hne, hdigits]
  rfl

/-- Its digits are missed. -/
theorem not_prints_min :
    ¬ ∀ v, vgaPrintDec (-2 ^ 31) v = putDigits (signedDecimal (-2 ^ 31)) v := by
  intro hprint
  have hlen := (onScreen_vgaInit fun _ ↦ 0).length_eq_of_putDigits
    ((hprint _).symm.trans (vgaPrintDec_min _))
  change (0x2D :: decimal (2 ^ 31)).length = 1 at hlen
  rw [List.length_cons, decimal_eq_numeral] at hlen
  have hdigits := length_numeral_pos 10 (2 ^ 31)
  omega

/-- A number that can be negated. -/
theorem vgaPrintDec_of_ne (hmin : -2 ^ 31 ≤ num) (hmax : num < 2 ^ 31) (hne : num ≠ -2 ^ 31)
    (v : Vga) : vgaPrintDec num v = putDigits (signedDecimal num) v := by
  rw [signedDecimal]
  split
  next hneg =>
    obtain ⟨n, rfl⟩ : ∃ n : Nat, num = -n := ⟨num.natAbs, by omega⟩
    rw [Int.natAbs_neg, Int.natAbs_natCast]
    exact vgaPrintDec_neg (by omega) (by omega) v
  next hnonneg =>
    obtain ⟨n, rfl⟩ := Int.eq_ofNat_of_zero_le (Int.not_lt.mp hnonneg)
    exact vgaPrintDec_eq (by omega) v

/-! ## Both -/

/-- **The printers agree** exactly on the numbers that can be negated. -/
theorem printersAgree_iff (hmin : -2 ^ 31 ≤ num) (hmax : num < 2 ^ 31) :
    PrintersAgree num ↔ num ≠ -2 ^ 31 := by
  constructor
  · rintro hagree rfl
    obtain ⟨_, _, _, hprint⟩ := hagree (List.replicate 12 0) (by decide)
    exact not_prints_min hprint
  · intro hne buf hbuf
    obtain ⟨buf', hitoa, hholds⟩ := itoa_ten hmin hmax hbuf
    exact ⟨buf', hitoa, hholds, vgaPrintDec_of_ne hmin hmax hne⟩

/-- A negative number. -/
theorem printersAgree_iff_neg : PrintersAgree (-120) ∧ (-120 : Int) ≠ -2 ^ 31 :=
  ⟨(printersAgree_iff (by decide) (by decide)).mpr (by decide), by decide⟩

/-- **The printers do not agree** on the least number, of which `vga_print_dec` prints only the
sign. -/
theorem not_printersAgree : ¬ PrintersAgree (-2 ^ 31) := by
  intro hagree
  obtain ⟨_, _, _, hprint⟩ := hagree (List.replicate 12 0) (by decide)
  exact not_prints_min hprint

end KontolOS.Drivers
