import Mathlib.Data.List.Basic
import Mathlib.Tactic.Ring

/-!
# Byte memories and 32-bit words

A memory is a total map from addresses to bytes.  Words of 32 bits are stored
little-endian in four consecutive bytes, as on the x86.  The file collects the
read-over-write laws of byte and word accesses, and of whole byte strings, in the
form a program proof uses them: a write changes what is read at its own address
and is invisible to a read whose bytes it does not touch.
-/

namespace KontolOS.Lib

/-! ## Unsigned 32-bit arithmetic -/

/-- Addition of 32-bit unsigned integers. -/
def add32 (a b : Nat) : Nat := (a + b) % 2 ^ 32

/-- Subtraction of 32-bit unsigned integers. -/
def sub32 (a b : Nat) : Nat := (a + 2 ^ 32 - b % 2 ^ 32) % 2 ^ 32

/-- Multiplication of 32-bit unsigned integers. -/
def mul32 (a b : Nat) : Nat := (a * b) % 2 ^ 32

theorem add32_of_lt {a b : Nat} (h : a + b < 2 ^ 32) : add32 a b = a + b := Nat.mod_eq_of_lt h

theorem sub32_of_le {a b : Nat} (h : b ≤ a) (ha : a < 2 ^ 32) : sub32 a b = a - b := by
  unfold sub32
  omega

theorem mul32_of_lt {a b : Nat} (h : a * b < 2 ^ 32) : mul32 a b = a * b := Nat.mod_eq_of_lt h

/-- A byte-addressed memory. -/
abbrev Mem : Type := Nat → UInt8

namespace Mem

/-! ## Bytes and words -/

/-- Store one byte. -/
def store8 (m : Mem) (a : Nat) (v : UInt8) : Mem := fun x ↦ if x = a then v else m x

/-- Load a 32-bit little-endian word. -/
def load32 (m : Mem) (a : Nat) : Nat :=
  (m a).toNat + 256 * (m (a + 1)).toNat + 65536 * (m (a + 2)).toNat
    + 16777216 * (m (a + 3)).toNat

/-- Store a 32-bit little-endian word; only the low 32 bits of `v` are kept. -/
def store32 (m : Mem) (a v : Nat) : Mem :=
  store8 (store8 (store8 (store8 m a (.ofNat v)) (a + 1) (.ofNat (v / 256)))
    (a + 2) (.ofNat (v / 65536))) (a + 3) (.ofNat (v / 16777216))

@[simp] theorem store8_same (m : Mem) (a : Nat) (v : UInt8) : store8 m a v a = v := if_pos rfl

theorem store8_of_ne {m : Mem} {a x : Nat} {v : UInt8} (h : x ≠ a) :
    store8 m a v x = m x := if_neg h

/-- A word store changes nothing outside its four bytes. -/
theorem store32_off {m : Mem} {a v x : Nat} (h : x < a ∨ a + 4 ≤ x) :
    store32 m a v x = m x := by
  unfold store32
  rw [store8_of_ne (by omega), store8_of_ne (by omega), store8_of_ne (by omega),
    store8_of_ne (by omega)]

/-- A load reads four bytes and nothing else. -/
theorem load32_congr {m m' : Mem} {a : Nat} (h : ∀ i < 4, m' (a + i) = m (a + i)) :
    load32 m' a = load32 m a := by
  unfold load32
  rw [h 1 (by omega), h 2 (by omega), h 3 (by omega), show m' a = m a from h 0 (by omega)]

theorem load32_lt (m : Mem) (a : Nat) : load32 m a < 2 ^ 32 := by
  have h₀ := (m a).toNat_lt
  have h₁ := (m (a + 1)).toNat_lt
  have h₂ := (m (a + 2)).toNat_lt
  have h₃ := (m (a + 3)).toNat_lt
  unfold load32
  omega

/-- A word reads back as it was stored. -/
@[simp] theorem load32_store32_same (m : Mem) (a v : Nat) :
    load32 (store32 m a v) a = v % 2 ^ 32 := by
  have h₀ : store32 m a v a = .ofNat v := by
    unfold store32
    rw [store8_of_ne (by omega), store8_of_ne (by omega), store8_of_ne (by omega), store8_same]
  have h₁ : store32 m a v (a + 1) = .ofNat (v / 256) := by
    unfold store32
    rw [store8_of_ne (by omega), store8_of_ne (by omega), store8_same]
  have h₂ : store32 m a v (a + 2) = .ofNat (v / 65536) := by
    unfold store32
    rw [store8_of_ne (by omega), store8_same]
  have h₃ : store32 m a v (a + 3) = .ofNat (v / 16777216) := store8_same _ _ _
  unfold load32
  rw [h₀, h₁, h₂, h₃]
  simp only [UInt8.toNat_ofNat']
  omega

/-- A word store is invisible to a word load elsewhere. -/
theorem load32_store32_of_disjoint {m : Mem} {a b v : Nat} (h : b + 4 ≤ a ∨ a + 4 ≤ b) :
    load32 (store32 m a v) b = load32 m b :=
  load32_congr fun _ _ ↦ store32_off (by omega)

/-- A byte store is invisible to a word load elsewhere. -/
theorem load32_store8_of_off {m : Mem} {a b : Nat} {v : UInt8} (h : a < b ∨ b + 4 ≤ a) :
    load32 (store8 m a v) b = load32 m b :=
  load32_congr fun _ _ ↦ store8_of_ne (by omega)

/-! ## Byte strings -/

/-- The `n` bytes from address `a`. -/
def bytes (m : Mem) (a n : Nat) : List UInt8 := (List.range n).map fun i ↦ m (a + i)

/-- Overwrite the memory from address `a` with the byte string `xs`. -/
def write (m : Mem) (a : Nat) (xs : List UInt8) : Mem := fun x ↦
  if a ≤ x then (xs[x - a]?).getD (m x) else m x

@[simp] theorem length_bytes (m : Mem) (a n : Nat) : (bytes m a n).length = n := by
  simp [bytes]

theorem getElem?_bytes {m : Mem} {a n i : Nat} (h : i < n) :
    (bytes m a n)[i]? = some (m (a + i)) := by
  simp [bytes, h]

theorem bytes_succ (m : Mem) (a n : Nat) : bytes m a (n + 1) = m a :: bytes m (a + 1) n := by
  simp only [bytes, List.range_succ_eq_map, List.map_cons, List.map_map]
  congr 1
  exact List.map_congr_left fun i _ ↦ by simp [Nat.add_assoc, Nat.add_comm 1]

/-- Byte strings are read byte by byte. -/
theorem bytes_eq_iff {m : Mem} {a n : Nat} {xs : List UInt8} :
    bytes m a n = xs ↔ xs.length = n ∧ ∀ i < n, xs[i]? = some (m (a + i)) := by
  constructor
  · rintro rfl
    exact ⟨length_bytes m a n, fun i hi ↦ getElem?_bytes hi⟩
  · rintro ⟨hlen, h⟩
    apply List.ext_getElem?
    intro i
    by_cases hi : i < n
    · rw [h i hi, getElem?_bytes hi]
    · rw [List.getElem?_eq_none (by simp; omega), List.getElem?_eq_none (by omega)]

theorem bytes_congr {m m' : Mem} {a n : Nat} (h : ∀ i < n, m' (a + i) = m (a + i)) :
    bytes m' a n = bytes m a n := by
  unfold bytes
  exact List.map_congr_left fun i hi ↦ h i (List.mem_range.mp hi)

theorem bytes_append (m : Mem) (a n k : Nat) :
    bytes m a (n + k) = bytes m a n ++ bytes m (a + n) k := by
  simp [bytes, List.range_add, Nat.add_assoc]

/-- A slice of a byte string is a byte string. -/
theorem bytes_slice (m : Mem) (a n off k : Nat) :
    bytes m (a + off) (min k (n - off)) = ((bytes m a n).drop off).take k := by
  refine bytes_eq_iff.mpr ⟨by simp, fun i hi ↦ ?_⟩
  rw [List.getElem?_take_of_lt (by omega), List.getElem?_drop, getElem?_bytes (by omega),
    Nat.add_assoc]

/-- A write of `xs` at `a` changes nothing outside its range. -/
theorem write_off {m : Mem} {a x : Nat} {xs : List UInt8} (h : x < a ∨ a + xs.length ≤ x) :
    write m a xs x = m x := by
  unfold write
  split
  · rw [List.getElem?_eq_none (by omega)]; rfl
  · rfl

/-- A write of `xs` at `a` puts the `i`-th byte at `a + i`. -/
theorem write_at {m : Mem} {a i : Nat} {xs : List UInt8} {v : UInt8} (h : xs[i]? = some v) :
    write m a xs (a + i) = v := by
  simp [write, h]

@[simp] theorem write_nil (m : Mem) (a : Nat) : write m a [] = m := by
  funext x; simp [write]

/-- The bytes just written read back. -/
theorem bytes_write_same (m : Mem) (a : Nat) (xs : List UInt8) :
    bytes (write m a xs) a xs.length = xs :=
  bytes_eq_iff.mpr ⟨rfl, fun i hi ↦ by
    rw [write_at (List.getElem?_eq_getElem hi), List.getElem?_eq_getElem hi]⟩

/-- Bytes written behind others. -/
theorem bytes_write_behind (m : Mem) (a k : Nat) (xs : List UInt8) :
    bytes (write m (a + k) xs) a (k + xs.length) = bytes m a k ++ xs := by
  have hfront : bytes (write m (a + k) xs) a k = bytes m a k :=
    bytes_congr fun j hj ↦ write_off (.inl (Nat.add_lt_add_left hj _))
  rw [bytes_append, bytes_write_same, hfront]

/-- Writing a byte string is writing its head and then its tail one address on. -/
theorem write_cons (m : Mem) (a : Nat) (v : UInt8) (xs : List UInt8) :
    write m a (v :: xs) = write (store8 m a v) (a + 1) xs := by
  funext x
  rcases Nat.lt_trichotomy x a with h | rfl | h
  · rw [write_off (by omega), write_off (by omega), store8_of_ne (by omega)]
  · have htail : write (store8 m x v) (x + 1) xs x = v := by
      rw [write_off (by omega), store8_same]
    rw [htail]
    simp [write]
  · obtain ⟨i, rfl⟩ : ∃ i, x = a + 1 + i := ⟨x - (a + 1), by omega⟩
    unfold write
    rw [if_pos (by omega), if_pos (by omega), store8_of_ne (by omega),
      show a + 1 + i - a = i + 1 by omega, show a + 1 + i - (a + 1) = i by omega]
    simp

/-- Writing two byte strings one behind the other is writing them together. -/
theorem write_append (m : Mem) (a : Nat) (xs ys : List UInt8) :
    write m a (xs ++ ys) = write (write m a xs) (a + xs.length) ys := by
  induction xs generalizing m a with
  | nil => simp
  | cons x xs ih =>
      rw [List.cons_append, write_cons, write_cons, ih, List.length_cons, Nat.add_assoc,
        Nat.add_comm 1]

/-- A byte string can be written from its last byte on. -/
theorem write_concat (m : Mem) (a : Nat) (xs : List UInt8) (v : UInt8) :
    write m a (xs ++ [v]) = write (store8 m (a + xs.length) v) a xs := by
  rw [write_append, write_cons, write_nil]
  funext x
  by_cases hx : x = a + xs.length
  · rw [hx, store8_same, write_off (.inr (Nat.le_refl _)), store8_same]
  · rw [store8_of_ne hx]
    unfold write
    rw [store8_of_ne hx]

/-- A word that is loaded and stored is copied. -/
theorem store32_load32 (m m' : Mem) (a b : Nat) :
    store32 m a (load32 m' b) = write m a (bytes m' b 4) := by
  have h₀ := (m' b).toNat_lt
  have h₁ := (m' (b + 1)).toNat_lt
  have h₂ := (m' (b + 2)).toNat_lt
  have h₃ := (m' (b + 3)).toNat_lt
  have hbyte : ∀ (n : Nat) (x : UInt8), n % 256 = x.toNat → UInt8.ofNat n = x := fun n x hx ↦
    UInt8.toNat_inj.mp (UInt8.toNat_ofNat'.trans hx)
  simp only [bytes_succ, write_cons, store32]
  rw [hbyte (load32 m' b) (m' b) (by unfold load32; omega),
    hbyte (load32 m' b / 256) (m' (b + 1)) (by unfold load32; omega),
    hbyte (load32 m' b / 65536) (m' (b + 2)) (by unfold load32; omega),
    hbyte (load32 m' b / 16777216) (m' (b + 3)) (by unfold load32; omega)]
  exact (write_nil _ _).symm

end Mem

end KontolOS.Lib
