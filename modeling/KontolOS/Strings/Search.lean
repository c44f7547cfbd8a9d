import KontolOS.Lib.Search
import KontolOS.Strings

/-!
# Searching a string

`strstr` of `src/lib/string.c` compares the needle with the string at one place after the other.
The loop that compares ends at the end of either string, and whether the needle was found is seen
from where it stopped in the needle (`strstrMatch_eq`).  What comes out is the first occurrence
(`strstr_first`).
-/

namespace KontolOS.Strings

open KontolOS.Lib

/-- The inner loop of `strstr`: what `n` points to at its end. -/
def strstrMatch : List UInt8 → List UInt8 → Option (List UInt8)
  | [], _ => none
  | c :: h, n =>
      if c = 0 then some n
      else match n with
        | [] => none
        | d :: n => if d ≠ 0 ∧ c = d then strstrMatch h n else some (d :: n)

/-- The outer loop, from the place `i` of the string on. -/
def strstrLoop (needle : List UInt8) : List UInt8 → Nat → Option (Option Nat)
  | [], _ => none
  | c :: haystack, i =>
      if c = 0 then some none
      else do
        let n ← strstrMatch (c :: haystack) needle
        let d ← n.head?
        if d = 0 then return some i else strstrLoop needle haystack (i + 1)

/-- `strstr`: the place in `haystack` that it points to, if it is not `NULL`. -/
def strstr (haystack needle : List UInt8) : Option (Option Nat) := do
  let d ← needle.head?
  if d = 0 then return some 0 else strstrLoop needle haystack 0

variable {haystack needle h n s t : List UInt8} {i : Nat}

/-- **The inner loop** stops at the end of the needle exactly if the string begins with it. -/
theorem strstrMatch_eq (hs : Holds h s) (ht : Holds n t) :
    ∃ n' d, strstrMatch h n = some n' ∧ n'.head? = some d ∧ (d = 0 ↔ t <+: s) := by
  induction s generalizing h n t with
  | nil =>
      obtain ⟨rest, rfl⟩ := Holds.nil_iff.mp hs
      have hloop : strstrMatch (0 :: rest) n = some n := if_pos rfl
      cases t with
      | nil =>
          obtain ⟨rest', rfl⟩ := Holds.nil_iff.mp ht
          exact ⟨_, 0, hloop, rfl, iff_of_true rfl List.nil_prefix⟩
      | cons d t =>
          obtain ⟨hd, n', rfl, _⟩ := Holds.cons_iff.mp ht
          refine ⟨_, d, hloop, rfl, iff_of_false hd fun hpre ↦ ?_⟩
          cases List.prefix_nil.mp hpre
  | cons c s ih =>
      obtain ⟨hc, h, rfl, hs'⟩ := Holds.cons_iff.mp hs
      cases t with
      | nil =>
          obtain ⟨rest', rfl⟩ := Holds.nil_iff.mp ht
          refine ⟨0 :: rest', 0, ?_, rfl, iff_of_true rfl List.nil_prefix⟩
          simp only [strstrMatch, if_neg hc]
          exact if_neg fun hboth ↦ hboth.1 rfl
      | cons d t =>
          obtain ⟨hd, n', rfl, ht'⟩ := Holds.cons_iff.mp ht
          simp only [strstrMatch, if_neg hc, List.cons_prefix_cons]
          by_cases hcd : c = d
          · rw [if_pos ⟨hd, hcd⟩]
            obtain ⟨n'', e, hloop, hhead, hiff⟩ := ih hs' ht'
            refine ⟨n'', e, hloop, hhead, hiff.trans ?_⟩
            rw [and_iff_right hcd.symm]
          · rw [if_neg fun hboth ↦ hcd hboth.2]
            exact ⟨_, d, rfl, rfl, iff_of_false hd fun hboth ↦ hcd hboth.1.symm⟩

/-- **The outer loop** finds the first occurrence. -/
theorem strstrLoop_eq (hs : Holds haystack s) (ht : Holds needle t) (hne : t ≠ []) (i : Nat) :
    strstrLoop needle haystack i = some ((firstAt t s).map (· + i)) := by
  induction s generalizing haystack i with
  | nil =>
      obtain ⟨rest, rfl⟩ := Holds.nil_iff.mp hs
      rw [strstrLoop, if_pos rfl, firstAt_nil_right hne]
      rfl
  | cons c s ih =>
      obtain ⟨hc, h, rfl, hs'⟩ := Holds.cons_iff.mp hs
      obtain ⟨n', d, hmatch, hhead, hiff⟩ := strstrMatch_eq hs ht
      rw [strstrLoop, if_neg hc, firstAt_cons]
      simp only [hmatch, hhead, Option.bind_eq_bind, Option.bind_some]
      by_cases hpre : t <+: c :: s
      · rw [if_pos (hiff.mpr hpre), if_pos hpre, Option.map_some, Nat.zero_add]
        rfl
      · rw [if_neg fun hd ↦ hpre (hiff.mp hd), if_neg hpre, ih hs', Option.map_map]
        congr 2
        funext j
        change j + (i + 1) = j + 1 + i
        rw [Nat.add_comm i 1, Nat.add_assoc]

/-- **`strstr`** is the first occurrence. -/
theorem strstr_eq (hs : Holds haystack s) (ht : Holds needle t) :
    strstr haystack needle = some (firstAt t s) := by
  cases t with
  | nil =>
      obtain ⟨rest, rfl⟩ := Holds.nil_iff.mp ht
      rw [firstAt_nil_left]
      rfl
  | cons d t =>
      obtain ⟨hd, n, hn, _⟩ := Holds.cons_iff.mp ht
      have hloop := strstrLoop_eq hs ht (List.cons_ne_nil d t) 0
      rw [strstr, show needle.head? = some d by rw [hn]; rfl, Option.bind_eq_bind, Option.bind_some,
        if_neg hd, hloop]
      congr 1
      cases firstAt (d :: t) s with
      | none => rfl
      | some j => rfl

/-- **`strstr` finds the first occurrence**: it returns the place `i` of the string exactly if this
is the least one at which the needle begins, and `NULL` exactly if the needle does not occur.  It
reads nothing behind the terminators, which may be the last bytes of their buffers. -/
theorem strstr_first (hs : Holds haystack s) (ht : Holds needle t) :
    ∃ r, strstr haystack needle = some r ∧
      (∀ i, r = some i ↔ IsLeast {i | i ≤ s.length ∧ t <+: s.drop i} i) ∧
      (r = none ↔ ¬ t <:+: s) :=
  ⟨firstAt t s, strstr_eq hs ht, fun _ ↦ firstAt_eq_some_iff, firstAt_eq_none_iff⟩

/-- A match that fails late. -/
theorem strstr_first_aab : ∃ r, strstr (literal "aaab") (literal "aab") = some r ∧
    (∀ i, r = some i ↔
      IsLeast {i | i ≤ [(0x61 : UInt8), 0x61, 0x61, 0x62].length ∧
        [(0x61 : UInt8), 0x61, 0x62] <+: [0x61, 0x61, 0x61, 0x62].drop i} i) ∧
    (r = none ↔ ¬ [(0x61 : UInt8), 0x61, 0x62] <:+: [0x61, 0x61, 0x61, 0x62]) :=
  strstr_first (s := [0x61, 0x61, 0x61, 0x62]) (t := [0x61, 0x61, 0x62])
    ⟨by decide, [], rfl⟩ ⟨by decide, [], rfl⟩

end KontolOS.Strings
