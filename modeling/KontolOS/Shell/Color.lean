import Mathlib.Data.List.TakeWhile
import KontolOS.Drivers.Output
import KontolOS.Fs.Ramfs

/-!
# `color`

The command `color` of `src/kernel/shell.c` reads the digits at the beginning of its argument into
an `int`, and takes what comes out if it is a number from 0 to 15.  Whatever is behind the digits,
and whether there are any, does not matter, and the number is that of the digits modulo `2 ^ 32`:
the command accepts more than the numbers from 0 to 15 (`colors_iff`).
-/

namespace KontolOS.Shell

open KontolOS.Strings KontolOS.Drivers KontolOS.Fs

/-! ## The command -/

/-- `*p >= '0' && *p <= '9'` -/
def isDigit (c : UInt8) : Bool := 0x30 ≤ c && c ≤ 0x39

/-- The loop over the digits, in which `color` is an `int`. -/
def colorLoop : List UInt8 → Int → Option Int
  | [], _ => none
  | c :: p, color =>
      if isDigit c then colorLoop p (Int.bmod (color * 10 + (c.toNat - 0x30)) (2 ^ 32))
      else some color

/-- `cmd_color`: what it does with the screen; `argv1` is `argv[1]` if there is one. -/
def cmdColor (argv1 : Option (List UInt8)) : Option (List VgaCall) :=
  match argv1 with
  | none => some [.print (literal "Usage: color <0-15>\n"),
      .print (literal "Colors: 0=Black, 1=Blue, 2=Green, 3=Cyan, 4=Red, 5=Magenta\n"),
      .print (literal "        6=Brown, 7=LightGrey, 8=DarkGrey, 9=LightBlue\n"),
      .print (literal "        10=LightGreen, 11=LightCyan, 12=LightRed\n"),
      .print (literal "        13=LightMagenta, 14=Yellow, 15=White\n")]
  | some p => do
      let color ← colorLoop p 0
      if 0 ≤ color ∧ color ≤ 15 then
        return [.setColor (UInt8.ofNat color.toNat) 0, .print (literal "Text color changed!\n")]
      else return [.print (literal "Invalid color. Use 0-15.\n")]

/-! ## What it is to do -/

/-- The number that some digits stand for. -/
def digitsValue (ds : List UInt8) : Nat := ds.foldl (fun n c ↦ n * 10 + (c.toNat - 0x30)) 0

/-- A number from 0 to 15. -/
def IsColor (arg : List UInt8) : Prop :=
  arg ≠ [] ∧ (∀ c ∈ arg, isDigit c = true) ∧ digitsValue arg ≤ 15

instance (arg : List UInt8) : Decidable (IsColor arg) :=
  decidable_of_iff (arg.isEmpty = false ∧ arg.all isDigit = true ∧ digitsValue arg ≤ 15) <| by
    rw [IsColor, List.all_eq_true, List.isEmpty_eq_false_iff]

/-- **The colour is set exactly by its number**: whatever the screen, `color` reports that the
colour is changed and changes it if the argument is a number from 0 to 15, and otherwise reports an
invalid colour and leaves it alone. -/
def Colors (str arg : List UInt8) : Prop :=
  ∃ calls, cmdColor (some str) = some calls ∧
    printed calls = cstr (if IsColor arg then literal "Text color changed!\n"
      else literal "Invalid color. Use 0-15.\n") ∧
    ∀ b₀ v, OnScreen b₀ v → ∃ v', runCalls calls v = some v' ∧ OnScreen b₀ v' ∧
      Emits v (printed calls) v' ∧ v'.vgaColor =
        if IsColor arg then vgaMakeColor (UInt8.ofNat (digitsValue arg)) 0 else v.vgaColor

variable {str arg : List UInt8} {c : UInt8} {n : Nat}

/-! ## The loop -/

/-- A digit more. -/
theorem toInt_digit (hc : isDigit c = true) (n : Nat) :
    Int.bmod (toInt n * 10 + (c.toNat - 0x30)) (2 ^ 32) = toInt (n * 10 + (c.toNat - 0x30)) := by
  have hge : 0x30 ≤ c.toNat := by
    rw [isDigit, Bool.and_eq_true, decide_eq_true_eq] at hc
    exact UInt8.le_iff_toNat_le.mp hc.1
  have hcast : ((n * 10 + (c.toNat - 0x30) : Nat) : Int) = n * 10 + ((c.toNat : Int) - 0x30) := by
    omega
  have hwrap (m : Nat) (x d : Int) :
      Int.bmod (Int.bmod x m * 10 + d) m = Int.bmod (x * 10 + d) m := by
    rw [← Int.bmod_add_bmod, Int.bmod_mul_bmod, Int.bmod_add_bmod]
  exact (hwrap _ _ _).trans (congrArg (Int.bmod · _) hcast.symm)

/-- **The loop** reads the digits at the beginning, modulo `2 ^ 32`. -/
theorem colorLoop_eq (h : Holds str arg) (n : Nat) : colorLoop str (toInt n) =
    some (toInt ((arg.takeWhile isDigit).foldl (fun n c ↦ n * 10 + (c.toNat - 0x30)) n)) := by
  induction arg generalizing str n with
  | nil =>
      obtain ⟨rest, rfl⟩ := Holds.nil_iff.mp h
      rfl
  | cons c arg ih =>
      obtain ⟨_, p, rfl, hp⟩ := Holds.cons_iff.mp h
      rw [colorLoop]
      cases hc : isDigit c with
      | false =>
          rw [List.takeWhile_cons_of_neg (by simp [hc])]
          rfl
      | true =>
          rw [List.takeWhile_cons_of_pos hc, List.foldl_cons, if_pos rfl, toInt_digit hc, ih hp]

/-- A remainder is turned into a number with a sign. -/
theorem bmod_cases (x : Int) (m : Nat) :
    (x % m < (m + 1) / 2 ∧ Int.bmod x m = x % m) ∨
      ((m + 1) / 2 ≤ x % m ∧ Int.bmod x m = x % m - m) := by
  rw [Int.bmod_def]
  split
  next hlow => exact .inl ⟨hlow, rfl⟩
  next hhigh => exact .inr ⟨Int.not_lt.mp hhigh, rfl⟩

/-- A number is taken if it is small, modulo `2 ^ 32`. -/
theorem toInt_mem_iff (n : Nat) : 0 ≤ toInt n ∧ toInt n ≤ 15 ↔ n % 2 ^ 32 ≤ 15 := by
  have hcases := bmod_cases n (2 ^ 32)
  change (_ ∧ toInt n = _) ∨ (_ ∧ toInt n = _) at hcases
  generalize toInt n = color at hcases ⊢
  omega

theorem toNat_toInt (hn : n % 2 ^ 32 ≤ 15) : (toInt n).toNat = n % 2 ^ 32 := by
  have hcases := bmod_cases n (2 ^ 32)
  change (_ ∧ toInt n = _) ∨ (_ ∧ toInt n = _) at hcases
  generalize toInt n = color at hcases ⊢
  omega

/-! ## The command -/

/-- The command, for the digits at the beginning of its argument. -/
theorem cmdColor_eq (h : Holds str arg) : cmdColor (some str) = some
    (if digitsValue (arg.takeWhile isDigit) % 2 ^ 32 ≤ 15 then
      [.setColor (UInt8.ofNat (digitsValue (arg.takeWhile isDigit) % 2 ^ 32)) 0,
        .print (literal "Text color changed!\n")]
    else [.print (literal "Invalid color. Use 0-15.\n")]) := by
  have hloop := colorLoop_eq h 0
  rw [toInt_of_lt (by decide), Nat.cast_zero, ← digitsValue] at hloop
  generalize digitsValue (arg.takeWhile isDigit) = n at hloop ⊢
  by_cases hle : n % 2 ^ 32 ≤ 15
  · have hcolor := (toInt_mem_iff n).mpr hle
    rw [cmdColor, hloop, Option.bind_eq_bind, Option.bind_some, if_pos hcolor, if_pos hle,
      toNat_toInt hle]
    rfl
  · have hcolor := (toInt_mem_iff n).not.mpr hle
    rw [cmdColor, hloop, Option.bind_eq_bind, Option.bind_some, if_neg hcolor, if_neg hle]
    rfl

theorem printed_report (text : String) : printed [.print (literal text)] = cstr (literal text) :=
  List.append_nil _

/-- A report does not change the colour. -/
theorem runCalls_report {b₀ : Nat → UInt16} {v : Vga} (hv : OnScreen b₀ v) (text : String) :
    ∃ v', runCalls [.print (literal text)] v = some v' ∧ OnScreen b₀ v' ∧
      Emits v (printed [.print (literal text)]) v' ∧ v'.vgaColor = v.vgaColor := by
  obtain ⟨v', hprint, hv', hemits⟩ := hv.vgaPrint_emits (zero_mem_literal text)
  rw [printed_report]
  refine ⟨v', ?_, hv', hemits, ?_⟩
  · rw [runCalls]
    exact (congrArg (Option.bind · _) hprint).trans rfl
  · rw [vgaPrint_eq (Holds.of_mem (zero_mem_literal text))] at hprint
    exact color_putDigits hprint

/-- A report in another colour. -/
theorem runCalls_changed {b₀ : Nat → UInt16} {v : Vga} (hv : OnScreen b₀ v) (color : UInt8)
    (text : String) :
    ∃ v', runCalls [.setColor color 0, .print (literal text)] v = some v' ∧ OnScreen b₀ v' ∧
      Emits v (printed [.setColor color 0, .print (literal text)]) v' ∧
      v'.vgaColor = vgaMakeColor color 0 := by
  have hset : OnScreen b₀ (vgaSetColor color 0 v) :=
    ⟨hv.toConfined.of_eq rfl rfl, hv.row_lt, hv.col_lt⟩
  obtain ⟨v', hrun, hv', hemits, hcolor⟩ := runCalls_report hset text
  exact ⟨v', hrun, hv', .color color 0 hemits, hcolor⟩

/-- What is taken for a colour and is none. -/
theorem not_colors_of_le (h : Holds str arg) (hcolor : ¬ IsColor arg)
    (hle : digitsValue (arg.takeWhile isDigit) % 2 ^ 32 ≤ 15) : ¬ Colors str arg := by
  rintro ⟨calls, hcalls, hprinted, _⟩
  rw [cmdColor_eq h, if_pos hle] at hcalls
  rw [← Option.some.inj hcalls, if_neg hcolor] at hprinted
  have hreport := (printed_report "Text color changed!\n").symm.trans hprinted
  exact absurd hreport (by decide)

/-- **A colour is set by its number exactly if** the argument is a number from 0 to 15, or its
digits stand for a number that is not from 0 to 15 even modulo `2 ^ 32`. -/
theorem colors_iff (h : Holds str arg) : Colors str arg ↔
    IsColor arg ∨ 15 < digitsValue (arg.takeWhile isDigit) % 2 ^ 32 := by
  by_cases hcolor : IsColor arg
  · -- all characters are digits
    obtain ⟨_, hdigits, hle⟩ := id hcolor
    have hall : arg.takeWhile isDigit = arg := List.takeWhile_eq_self_iff.mpr hdigits
    have hmod : digitsValue arg % 2 ^ 32 = digitsValue arg := Nat.mod_eq_of_lt (by omega)
    rw [Colors, cmdColor_eq h]
    simp only [hall, hmod, if_pos hle, if_pos hcolor]
    refine iff_of_true ⟨_, rfl, printed_report _, fun b₀ v hv ↦ ?_⟩ (.inl hcolor)
    exact runCalls_changed hv _ _
  · rw [or_iff_right hcolor]
    by_cases hle : digitsValue (arg.takeWhile isDigit) % 2 ^ 32 ≤ 15
    · exact iff_of_false (not_colors_of_le h hcolor hle) (Nat.not_lt.mpr hle)
    · rw [Colors, cmdColor_eq h]
      simp only [if_neg hle, if_neg hcolor]
      refine iff_of_true ⟨_, rfl, printed_report _, fun b₀ v hv ↦ ?_⟩ (Nat.not_le.mp hle)
      exact runCalls_report hv _

/-- The number of a colour. -/
theorem colors_iff_seven : Colors (literal "7") [0x37] :=
  (colors_iff ⟨by decide, [], rfl⟩).mpr (.inl (by decide))

/-- **Other arguments are taken, too**: one without a digit, one that goes on behind its digits,
and a number that is too large for an `int`. -/
theorem not_colors : ¬ Colors (literal "x") [0x78] ∧ ¬ Colors (literal "5z") [0x35, 0x7A] ∧
    ¬ Colors (literal "4294967297")
      [0x34, 0x32, 0x39, 0x34, 0x39, 0x36, 0x37, 0x32, 0x39, 0x37] := by
  refine ⟨?_, ?_, ?_⟩
  · exact not_colors_of_le ⟨by decide, [], rfl⟩ (by decide) (by decide)
  · exact not_colors_of_le ⟨by decide, [], rfl⟩ (by decide) (by decide)
  · exact not_colors_of_le ⟨by decide, [], rfl⟩ (by decide) (by decide)

end KontolOS.Shell
