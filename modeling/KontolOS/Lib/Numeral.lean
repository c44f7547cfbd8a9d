import Mathlib.Data.Nat.Digits.Lemmas

/-!
# Positional numerals

The digits of a number, written from the first one on.  A list of digits stands for a number
(`horner`), and each number has exactly one numeral that does not begin with a zero it could do
without (`isNumeral_iff`).  A numeral of a fixed width becomes this one when its leading zeros are
dropped (`isNumeral_dropZeros`).
-/

namespace KontolOS.Lib

/-- The number that a list of digits stands for. -/
def horner (base : Nat) (ds : List Nat) : Nat := ds.foldl (fun n d ↦ n * base + d) 0

/-- **The canonical numeral** of `n`. -/
structure IsNumeral (base n : Nat) (ds : List Nat) : Prop where
  /-- there is a digit -/
  ne_nil : ds ≠ []
  /-- the digits are below the base -/
  lt : ∀ d ∈ ds, d < base
  /-- the first digit is zero only if it is the only one -/
  head : ds.head? = some 0 → ds = [0]
  /-- the digits stand for the number -/
  value : horner base ds = n

variable {base n k d : Nat} {ds ds' : List Nat}

/-! ## Numbers of digits -/

theorem foldl_horner (base n : Nat) (ds : List Nat) :
    ds.foldl (fun n d ↦ n * base + d) n = n * base ^ ds.length + horner base ds := by
  induction ds generalizing n with
  | nil => simp [horner]
  | cons d ds ih =>
      rw [horner, List.foldl_cons, List.foldl_cons, ih, ih (0 * base + d), List.length_cons,
        pow_succ]
      ring

theorem horner_cons (base d : Nat) (ds : List Nat) :
    horner base (d :: ds) = d * base ^ ds.length + horner base ds := by
  rw [horner, List.foldl_cons, foldl_horner, Nat.zero_mul, Nat.zero_add]

theorem horner_singleton (base d : Nat) : horner base [d] = d := by
  rw [horner_cons, List.length_nil, pow_zero, Nat.mul_one]
  rfl

theorem horner_eq_ofDigits (base : Nat) (ds : List Nat) :
    horner base ds = Nat.ofDigits base ds.reverse := by
  induction ds with
  | nil => rfl
  | cons d ds ih =>
      rw [horner_cons, List.reverse_cons, Nat.ofDigits_append, Nat.ofDigits_singleton,
        List.length_reverse, ih]
      ring

/-! ## The numeral of a number -/

theorem isNumeral_zero (hbase : 0 < base) : IsNumeral base 0 [0] where
  ne_nil := List.cons_ne_nil _ _
  lt d hd := by
    rw [List.mem_singleton.mp hd]
    exact hbase
  head _ := rfl
  value := horner_singleton base 0

theorem isNumeral_digits (hbase : 1 < base) (hn : n ≠ 0) :
    IsNumeral base n (Nat.digits base n).reverse where
  ne_nil h := Nat.digits_ne_nil_iff_ne_zero.mpr hn (List.reverse_eq_nil_iff.mp h)
  lt d hd := Nat.digits_lt_base hbase (List.mem_reverse.mp hd)
  head h := by
    have hne : Nat.digits base n ≠ [] := Nat.digits_ne_nil_iff_ne_zero.mpr hn
    rw [List.head?_reverse, List.getLast?_eq_some_getLast hne] at h
    exact absurd (Option.some.inj h) (Nat.getLast_digit_ne_zero base hn)
  value := by rw [horner_eq_ofDigits, List.reverse_reverse, Nat.ofDigits_digits]

/-- **The numeral is unique.** -/
theorem IsNumeral.unique (h : IsNumeral base n ds) (h' : IsNumeral base n ds') (hbase : 1 < base) :
    ds = ds' := by
  -- a numeral that does not begin with zero is the list of the digits
  have hdigits : ∀ {ds : List Nat}, IsNumeral base n ds → ds.head? ≠ some 0 →
      ds = (Nat.digits base n).reverse := by
    intro ds h hhead
    rw [← List.reverse_eq_iff, ← h.value, horner_eq_ofDigits]
    refine (Nat.digits_ofDigits base hbase _ (fun d hd ↦ h.lt d (List.mem_reverse.mp hd)) ?_).symm
    intro hne hlast
    apply hhead
    rw [← List.getLast?_reverse, List.getLast?_eq_some_getLast hne, hlast]
  have hzero : ∀ {ds : List Nat}, IsNumeral base n ds → ds.head? = some 0 → n = 0 := by
    intro ds h hhead
    rw [← h.value, h.head hhead, horner_singleton]
  by_cases hhead : ds.head? = some 0
  · by_cases hhead' : ds'.head? = some 0
    · rw [h.head hhead, h'.head hhead']
    · have hnil := hdigits h' hhead'
      rw [hzero h hhead, Nat.digits_zero] at hnil
      exact absurd hnil h'.ne_nil
  · by_cases hhead' : ds'.head? = some 0
    · have hnil := hdigits h hhead
      rw [hzero h' hhead', Nat.digits_zero] at hnil
      exact absurd hnil h.ne_nil
    · rw [hdigits h hhead, hdigits h' hhead']

/-- A number below a power of the base has not more digits than that. -/
theorem IsNumeral.length_le (h : IsNumeral base n ds) (hbase : 1 < base) (hn : n < base ^ (k + 1)) :
    ds.length ≤ k + 1 := by
  rcases Nat.eq_zero_or_pos n with rfl | hpos
  · rw [h.unique (isNumeral_zero (Nat.zero_lt_of_lt hbase)) hbase]
    exact Nat.succ_le_succ (Nat.zero_le k)
  · rw [h.unique (isNumeral_digits hbase (Nat.ne_of_gt hpos)) hbase, List.length_reverse]
    exact (Nat.digits_length_le_iff hbase n).mpr hn

/-! ## Numerals of a fixed width -/

/-- The last `k` digits of `n`, and `ds` behind them. -/
def lastDigits (base : Nat) : Nat → Nat → List Nat → List Nat
  | 0, _, ds => ds
  | k + 1, n, ds => lastDigits base k (n / base) (n % base :: ds)

/-- A numeral without its leading zeros. -/
def dropZeros : List Nat → List Nat
  | d :: e :: ds => if d = 0 then dropZeros (e :: ds) else d :: e :: ds
  | ds => ds

theorem length_lastDigits (base k n : Nat) (ds : List Nat) :
    (lastDigits base k n ds).length = k + ds.length := by
  induction k generalizing n ds with
  | zero => rw [lastDigits, Nat.zero_add]
  | succ k ih => rw [lastDigits, ih, List.length_cons, Nat.add_right_comm, Nat.add_assoc]

theorem lt_of_mem_lastDigits (hbase : 0 < base) (hds : ∀ d ∈ ds, d < base)
    (h : d ∈ lastDigits base k n ds) : d < base := by
  induction k generalizing n ds with
  | zero => exact hds d h
  | succ k ih =>
      refine ih (List.forall_mem_cons.mpr ⟨?_, hds⟩) h
      exact Nat.mod_lt n hbase

/-- They are those of the number modulo a power of the base. -/
theorem horner_lastDigits (base k n : Nat) (ds : List Nat) :
    horner base (lastDigits base k n ds) = n % base ^ k * base ^ ds.length + horner base ds := by
  induction k generalizing n ds with
  | zero => rw [lastDigits, pow_zero, Nat.mod_one, Nat.zero_mul, Nat.zero_add]
  | succ k ih =>
      rw [lastDigits, ih, horner_cons, List.length_cons, pow_succ, pow_succ', Nat.mod_mul]
      ring

/-- **Dropping the leading zeros** makes a numeral canonical. -/
theorem isNumeral_dropZeros (hne : ds ≠ []) (hlt : ∀ d ∈ ds, d < base) :
    IsNumeral base (horner base ds) (dropZeros ds) := by
  fun_induction dropZeros ds with
  | case1 e ds ih =>
      have hrest := ih (List.cons_ne_nil e ds) fun d hd ↦ hlt d (List.mem_cons_of_mem 0 hd)
      rw [horner_cons, Nat.zero_mul, Nat.zero_add]
      exact hrest
  | case2 d e ds hd => exact ⟨hne, hlt, fun h ↦ absurd (Option.some.inj h) hd, rfl⟩
  | case3 ds hshort =>
      refine ⟨hne, hlt, fun h ↦ ?_, rfl⟩
      match ds, hshort with
      | [d], _ => rw [Option.some.inj h]
      | d :: e :: ds, hshort => exact absurd rfl (hshort d e ds)

end KontolOS.Lib
