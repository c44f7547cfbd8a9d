import Mathlib.Data.List.Basic
import Mathlib.Logic.Relation
import Mathlib.Tactic.Ring

/-!
# A stack of words

The stack of a 32-bit machine: it grows downwards in a memory of bytes, whose addresses wrap
around.  `StackAt m esp ws` says that the words `ws` lie on it, the top one first.  Pushing a
word leaves those below it alone, as long as the stack is smaller than the memory, and whatever
is done to the memory elsewhere leaves all of them alone.

A machine that is deterministic but for a call that it waits for reaches that call, and nothing
else (`Settles`).
-/

namespace KontolOS.Lib

/-! ## Words in a memory that wraps around -/

/-- A memory of `2 ^ 32` bytes. -/
abbrev FlatMem : Type := BitVec 32 → BitVec 8

namespace FlatMem

/-- Load a little-endian word. -/
def load (m : FlatMem) (a : BitVec 32) : BitVec 32 := m (a + 3) ++ m (a + 2) ++ m (a + 1) ++ m a

/-- Store a little-endian word. -/
def store (m : FlatMem) (a v : BitVec 32) : FlatMem := fun x ↦
  if x = a then v.extractLsb' 0 8
  else if x = a + 1 then v.extractLsb' 8 8
  else if x = a + 2 then v.extractLsb' 16 8
  else if x = a + 3 then v.extractLsb' 24 8
  else m x

variable {m m' : FlatMem} {a b v : BitVec 32}

/-- A load reads four bytes and nothing else. -/
theorem load_congr (h : ∀ i < 4, m' (a + BitVec.ofNat 32 i) = m (a + BitVec.ofNat 32 i)) :
    load m' a = load m a := by
  have h₀ := h 0 (by decide)
  rw [BitVec.add_zero] at h₀
  rw [load, load, h₀, show m' (a + 1) = m (a + 1) from h 1 (by decide),
    show m' (a + 2) = m (a + 2) from h 2 (by decide),
    show m' (a + 3) = m (a + 3) from h 3 (by decide)]

/-- A word reads back as it was stored. -/
theorem load_store_same (m : FlatMem) (a v : BitVec 32) : load (store m a v) a = v := by
  have h₁ : a + 1 ≠ a := by bv_omega
  have h₂ : a + 2 ≠ a ∧ a + 2 ≠ a + 1 := by constructor <;> bv_omega
  have h₃ : a + 3 ≠ a ∧ a + 3 ≠ a + 1 ∧ a + 3 ≠ a + 2 := by refine ⟨?_, ?_, ?_⟩ <;> bv_omega
  simp only [load, store, h₁, h₂.1, h₂.2, h₃.1, h₃.2.1, h₃.2.2, if_true, if_false]
  ext i hi
  have hbit : ∀ k, k = i → v.getLsbD k = v[i] := by
    rintro k rfl
    exact BitVec.getLsbD_eq_getElem hi
  simp only [BitVec.getElem_append, BitVec.getElem_extractLsb']
  split
  · exact hbit _ (by omega)
  split
  · exact hbit _ (by omega)
  split
  · exact hbit _ (by omega)
  · exact hbit _ (by omega)

/-- A store is invisible to a load elsewhere. -/
theorem load_store_of_disjoint (h : 4 ≤ (b - a).toNat) (h' : 4 ≤ (a - b).toNat) :
    load (store m a v) b = load m b := by
  refine load_congr fun i hi ↦ ?_
  have h₀ : b + BitVec.ofNat 32 i ≠ a := by bv_omega
  have h₁ : b + BitVec.ofNat 32 i ≠ a + 1 := by bv_omega
  have h₂ : b + BitVec.ofNat 32 i ≠ a + 2 := by bv_omega
  have h₃ : b + BitVec.ofNat 32 i ≠ a + 3 := by bv_omega
  simp only [store, h₀, h₁, h₂, h₃, if_false]

end FlatMem

/-! ## The words on the stack -/

/-- The words `ws` lie at the stack pointer `esp`, one above the other. -/
def StackAt (m : FlatMem) (esp : BitVec 32) (ws : List (BitVec 32)) : Prop :=
  ∀ i w, ws[i]? = some w → m.load (esp + BitVec.ofNat 32 (4 * i)) = w

namespace StackAt

variable {m m' : FlatMem} {esp w : BitVec 32} {ws us : List (BitVec 32)}

/-- Where nothing lies. -/
theorem nil (m : FlatMem) (esp : BitVec 32) : StackAt m esp [] := nofun

/-- The top of the stack. -/
theorem top (h : StackAt m esp (w :: ws)) : m.load esp = w := by
  simpa using h 0 w rfl

/-- **Push.** -/
theorem push (h : StackAt m esp ws) (hlen : 4 * ws.length + 4 < 2 ^ 32) (w : BitVec 32) :
    StackAt (m.store (esp - 4) w) (esp - 4) (w :: ws) := by
  intro i u hi
  cases i with
  | zero =>
      rw [List.getElem?_cons_zero, Option.some.injEq] at hi
      rw [Nat.mul_zero, BitVec.add_zero, FlatMem.load_store_same, hi]
  | succ i =>
      rw [List.getElem?_cons_succ] at hi
      have hlt := (List.getElem?_eq_some_iff.mp hi).1
      have haddr : esp - 4 + BitVec.ofNat 32 (4 * (i + 1)) = esp + BitVec.ofNat 32 (4 * i) := by
        bv_omega
      rw [haddr, FlatMem.load_store_of_disjoint (by bv_omega) (by bv_omega)]
      exact h i u hi

/-- The stack without its first words. -/
theorem drop (h : StackAt m esp (us ++ ws)) :
    StackAt m (esp + BitVec.ofNat 32 (4 * us.length)) ws := by
  intro i w hi
  have haddr : esp + BitVec.ofNat 32 (4 * us.length) + BitVec.ofNat 32 (4 * i) =
      esp + BitVec.ofNat 32 (4 * (us.length + i)) := by
    bv_omega
  rw [haddr]
  refine h (us.length + i) w ?_
  rw [List.getElem?_append_right (Nat.le_add_right _ _), Nat.add_sub_cancel_left, hi]

/-- **Pop.** -/
theorem pop (h : StackAt m esp (w :: ws)) : StackAt m (esp + 4) ws :=
  have hdrop : StackAt m (esp + BitVec.ofNat 32 (4 * [w].length)) ws := drop h
  hdrop

/-- The stack in a memory that agrees on it. -/
theorem congr (h : StackAt m esp ws)
    (hm : ∀ i < 4 * ws.length, m' (esp + BitVec.ofNat 32 i) = m (esp + BitVec.ofNat 32 i)) :
    StackAt m' esp ws := by
  intro i w hi
  have hlt := (List.getElem?_eq_some_iff.mp hi).1
  rw [← h i w hi]
  refine FlatMem.load_congr fun k hk ↦ ?_
  have haddr : esp + BitVec.ofNat 32 (4 * i) + BitVec.ofNat 32 k =
      esp + BitVec.ofNat 32 (4 * i + k) := by
    bv_omega
  rw [haddr]
  exact hm _ (by omega)

end StackAt

/-! ## Machines that wait -/

section Settles

variable {σ : Type*} {next : σ → Option σ} {c c' d : σ}

/-- The steps of `next` lead from `c` to `d`, where they end. -/
def Settles (next : σ → Option σ) (c d : σ) : Prop :=
  Relation.ReflTransGen (fun c c' ↦ next c = some c') c d ∧ next d = none

/-- A step from a state that settles is on the way, or it is there already. -/
theorem Settles.step (h : Settles next c d) (hstep : next c = some c') : Settles next c' d := by
  obtain ⟨hsteps, hend⟩ := h
  rcases Relation.ReflTransGen.cases_head hsteps with rfl | ⟨c'', hfirst, hrest⟩
  · rw [hend] at hstep
    cases hstep
  · obtain rfl : c'' = c' := Option.some.inj (hfirst.symm.trans hstep)
    exact ⟨hrest, hend⟩

/-- A state from which there is no step settles where it is. -/
theorem Settles.eq_of_none (h : Settles next c d) (hc : next c = none) : c = d := by
  rcases Relation.ReflTransGen.cases_head h.1 with rfl | ⟨c'', hfirst, _⟩
  · rfl
  · rw [hc] at hfirst
    cases hfirst

end Settles

end KontolOS.Lib
