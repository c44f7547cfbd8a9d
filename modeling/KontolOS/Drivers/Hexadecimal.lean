import KontolOS.Drivers.Output
import KontolOS.Strings.Atoi

/-!
# Two ways to write a number in base sixteen

`vga_print_hex` finds eight digits from the last to the first and skips the leading zeros, while
`itoa` divides until nothing is left and turns the digits round.  Both come to the canonical
numeral, and there is only one: up to the case of the letters the two write the same
(`vgaPrintHex_itoa`).
-/

namespace KontolOS.Drivers

open KontolOS.Lib KontolOS.Strings

/-- "Skip leading zeros", where a read behind the end of `buffer` gives `none`. -/
def scanZeros : List UInt8 → Option (List UInt8)
  | [] => none
  | c :: rest =>
      if c = 0x30 then do
        let d ← rest.head?
        if d ≠ 0 then scanZeros rest else return c :: rest
      else some (c :: rest)

/-- `toupper` -/
def toupper (c : Int) : Int := if 0x61 ≤ c ∧ c ≤ 0x7A then c - 32 else c

/-- `toupper` of each character. -/
def toupperText (text : List UInt8) : List UInt8 :=
  text.map fun c ↦ UInt8.ofNat (toupper c.toNat).toNat

/-- The string for the digits of a hexadecimal numeral. -/
def hexText (ds : List Nat) : List UInt8 := ds.map fun d ↦ hexChars.toList.getD d 0

variable {d n : Nat} {ds : List Nat} {ptr : List UInt8}

/-! ## The digits -/

theorem hexChars_get (h : d < 16) : hexChars.get ⟨d, h⟩ = hexChars.toList.getD d 0 := by
  have hall : ∀ i : Fin 16, hexChars.get i = hexChars.toList.getD i 0 := by decide
  exact hall ⟨d, h⟩

theorem hexChar_eq (num : UInt32) : hexChar num = hexChars.toList.getD (num.toNat % 16) 0 := by
  have hmask : (num &&& 0xF).toNat = num.toNat % 16 :=
    (UInt32.toNat_and num 0xF).trans (Nat.and_two_pow_sub_one_eq_mod num.toNat 4)
  have hlt : (num &&& 0xF).toNat < 16 := by
    rw [hmask]
    exact Nat.mod_lt _ (by decide)
  exact (hexChars_get hlt).trans (congrArg (hexChars.toList.getD · 0) hmask)

/-- **The first loop** finds the last digits. -/
theorem hexDigits_eq (i : Nat) (num : UInt32) (ds : List Nat) :
    hexDigits i num (hexText ds ++ [0]) = hexText (lastDigits 16 i num.toNat ds) ++ [0] := by
  induction i generalizing num ds with
  | zero => rfl
  | succ i ih =>
      have hshift : (num >>> 4).toNat = num.toNat / 16 :=
        (UInt32.toNat_shiftRight num 4).trans (Nat.shiftRight_eq_div_pow num.toNat 4)
      have hrest := ih (num >>> 4) (num.toNat % 16 :: ds)
      rw [hshift] at hrest
      rw [hexDigits, hexChar_eq, lastDigits, ← hrest]
      rfl

/-! ## The leading zeros -/

/-- **The scan** does not run past the terminator. -/
theorem scanZeros_eq (h : 0 ∈ ptr) : scanZeros ptr = some (skipZeros ptr) := by
  induction ptr with
  | nil => cases h
  | cons c ptr ih =>
      rw [scanZeros]
      by_cases hc : c = 0x30
      · have hrest : 0 ∈ ptr := (List.mem_cons.mp h).resolve_left fun h0 ↦ by
          rw [hc] at h0
          exact absurd h0 (by decide)
        obtain ⟨d, ptr, rfl⟩ := List.exists_cons_of_ne_nil (List.ne_nil_of_mem hrest)
        rw [if_pos hc, List.head?_cons, Option.bind_eq_bind, Option.bind_some, skipZeros]
        by_cases hd : d = 0
        · rw [if_neg (not_not.mpr hd), if_neg fun hboth ↦ hboth.2 hd]
          rfl
        · rw [if_pos hd, if_pos ⟨hc, hd⟩, ih hrest]
      · rw [if_neg hc]
        cases ptr with
        | nil => rfl
        | cons d ptr => rw [skipZeros, if_neg fun hboth ↦ hc hboth.1]

/-- Only the digit for zero is skipped, and no digit is taken for the terminator. -/
theorem hexChars_getD (hd : d < 16) :
    (hexChars.toList.getD d 0 = 0x30 ↔ d = 0) ∧ hexChars.toList.getD d 0 ≠ 0 := by
  have hall : ∀ d < 16,
      (hexChars.toList.getD d 0 = 0x30 ↔ d = 0) ∧ hexChars.toList.getD d 0 ≠ 0 := by decide
  exact hall d hd

/-- **The second loop** drops the leading zeros. -/
theorem skipZeros_eq (hlt : ∀ d ∈ ds, d < 16) :
    skipZeros (hexText ds ++ [0]) = hexText (dropZeros ds) ++ [0] := by
  fun_induction dropZeros ds with
  | case1 e ds ih =>
      have he := (hexChars_getD (hlt e (List.mem_cons_of_mem 0 List.mem_cons_self))).2
      have hzero : hexChars.toList.getD 0 0 = 0x30 := rfl
      rw [← ih fun d hd ↦ hlt d (List.mem_cons_of_mem 0 hd)]
      exact if_pos ⟨hzero, he⟩
  | case2 d e ds hd =>
      have hne := (hexChars_getD (hlt d List.mem_cons_self)).1.not.mpr hd
      exact if_neg fun hboth ↦ hne hboth.1
  | case3 ds hshort =>
      rcases ds with _ | ⟨d, _ | ⟨e, ds⟩⟩
      · rfl
      · exact if_neg fun hboth ↦ hboth.2 rfl
      · exact absurd rfl (hshort d e ds)

theorem zero_not_mem_hexText (hlt : ∀ d ∈ ds, d < 16) : 0 ∉ hexText ds := by
  intro hmem
  obtain ⟨d, hd, hzero⟩ := List.mem_map.mp hmem
  exact (hexChars_getD (hlt d hd)).2 hzero

/-! ## Both -/

/-- `toupper` turns the digits of `itoa` into those of `vga_print_hex`. -/
theorem toupperText_numeralText (hlt : ∀ d ∈ ds, d < 16) :
    toupperText (numeralText ds) = hexText ds := by
  have hall : ∀ d < 16, UInt8.ofNat (toupper (lowerDigits.getD d 0).toNat).toNat =
      hexChars.toList.getD d 0 := by decide
  rw [toupperText, numeralText, List.map_map]
  exact List.map_congr_left fun d hd ↦ hall d (hlt d hd)

/-- **`vga_print_hex`** prints the canonical numeral. -/
theorem vgaPrintHex_eq (num : UInt32) : ∃ ds, IsNumeral 16 num.toNat ds ∧
    ∀ s, vgaPrintHex num s = putDigits ([0x30, 0x78] ++ hexText ds) s := by
  have hlt : ∀ d ∈ lastDigits 16 8 num.toNat [], d < 16 := fun d ↦
    lt_of_mem_lastDigits (by decide) fun d hd ↦ absurd hd List.not_mem_nil
  have hne : lastDigits 16 8 num.toNat [] ≠ [] := by
    refine List.ne_nil_of_length_pos ?_
    rw [length_lastDigits]
    decide
  have hvalue : horner 16 (lastDigits 16 8 num.toNat []) = num.toNat := by
    rw [horner_lastDigits, List.length_nil, pow_zero, Nat.mul_one]
    exact Nat.mod_eq_of_lt num.toNat_lt
  have hnumeral := isNumeral_dropZeros hne hlt
  rw [hvalue] at hnumeral
  refine ⟨_, hnumeral, fun s ↦ ?_⟩
  have hbuffer : hexDigits 8 num [0] = hexText (lastDigits 16 8 num.toNat []) ++ [0] :=
    hexDigits_eq 8 num []
  have hprefix : Holds [0x30, 0x78, 0] [0x30, 0x78] := ⟨by decide, [], rfl⟩
  have hholds : Holds (hexText (dropZeros (lastDigits 16 8 num.toNat [])) ++ [0])
      (hexText (dropZeros (lastDigits 16 8 num.toNat []))) :=
    ⟨zero_not_mem_hexText hnumeral.lt, [], rfl⟩
  rw [vgaPrintHex, vgaPrint_eq hprefix, hbuffer, skipZeros_eq hlt, putDigits_append]
  exact congrArg (Option.bind _) (funext fun t ↦ vgaPrint_eq hholds t)

/-- **`vga_print_hex` and `itoa` agree**: what is printed is `0x` and the canonical numeral, that is
what `itoa` writes into any buffer of nine bytes, in capital letters. -/
theorem vgaPrintHex_itoa (num : UInt32) : ∃ ds, IsNumeral 16 num.toNat ds ∧
    (∀ s, vgaPrintHex num s = putDigits ([0x30, 0x78] ++ hexText ds) s) ∧
    scanZeros (hexDigits 8 num [0]) = some (skipZeros (hexDigits 8 num [0])) ∧
    ∀ str, 9 ≤ str.length → ∃ text str',
      itoa (Int.bmod num.toNat (2 ^ 32)) str 16 = some str' ∧ Holds str' text ∧
      toupperText text = hexText ds := by
  obtain ⟨ds, hds, hprint⟩ := vgaPrintHex_eq num
  refine ⟨ds, hds, hprint, scanZeros_eq (mem_hexDigits (List.mem_singleton.mpr rfl)),
    fun str hroom ↦ ?_⟩
  have hnum : num.toNat < 2 ^ 32 := num.toNat_lt
  have hmin : -2 ^ 31 ≤ Int.bmod num.toNat (2 ^ 32) := Int.le_bmod (by decide)
  have hmax : Int.bmod num.toNat (2 ^ 32) < 2 ^ 31 := Int.bmod_lt (by decide)
  have hmod : (Int.bmod num.toNat (2 ^ 32) % 2 ^ 32).toNat = num.toNat := by
    have hself : Int.bmod num.toNat (2 ^ 32) % (2 ^ 32 : Nat) = num.toNat % (2 ^ 32 : Nat) :=
      Int.bmod_emod
    omega
  obtain ⟨ds', hds', htext⟩ := denotes_itoaText hmin hmax (by decide : 2 ≤ 16) (by decide)
  rw [if_neg (by decide), hmod] at hds'
  rw [if_neg fun h ↦ absurd h.1 (by decide), List.nil_append] at htext
  have hlen : ds'.length ≤ 7 + 1 := hds'.length_le (by decide) hnum
  have hfits : (itoaText (Int.bmod num.toNat (2 ^ 32)) 16).length < str.length := by
    rw [htext, numeralText, List.length_map]
    omega
  refine ⟨itoaText (Int.bmod num.toNat (2 ^ 32)) 16, _, itoa_eq _ (by decide) hfits, ?_, ?_⟩
  · exact ⟨zero_not_mem_itoaText (by decide) (by decide) _, _, rfl⟩
  · rw [htext, toupperText_numeralText hds'.lt, hds'.unique hds (by decide)]

end KontolOS.Drivers
