import KontolOS.Lib.FirstFit

/-!
# How large a gap there must be

Between used blocks there is at most one free block each, and so a tiling with few used blocks
that are not too large has a free block that is large, wherever the used ones lie
(`Tiles.exists_free_of_few`).  First fit does not fail then, however fragmented the interval is.
-/

namespace KontolOS.Lib

variable {lo hi k m n : Nat} {b : Block} {bs : List Block}

/-- The number of blocks that are in state `u`. -/
def population (u : Bool) (bs : List Block) : Nat := bs.countP fun b ↦ b.used == u

@[simp] theorem population_nil (u : Bool) : population u [] = 0 := rfl

@[simp] theorem population_cons (u : Bool) (b : Block) (bs : List Block) :
    population u (b :: bs) = population u bs + if b.used = u then 1 else 0 := by
  unfold population
  rw [List.countP_cons]
  simp

/-- The blocks of a tiling are different. -/
theorem Tiles.nodup (h : Tiles lo bs hi) : bs.Nodup := by
  induction bs generalizing lo with
  | nil => exact List.nodup_nil
  | cons b bs ih =>
      obtain ⟨_, hpos, hrest⟩ := h
      refine List.nodup_cons.mpr ⟨fun hmem ↦ ?_, ih hrest⟩
      have hge := (hrest.mem_bounds hmem).1
      unfold Block.fin at hge
      omega

/-- What some blocks of bounded size take. -/
theorem extent_le {u : Bool} (h : ∀ b ∈ bs, b.used = u → b.size ≤ m) :
    extent u bs ≤ population u bs * m := by
  induction bs with
  | nil => exact Nat.zero_le _
  | cons b bs ih =>
      obtain ⟨hb, hbs⟩ := List.forall_mem_cons.mp h
      have hrest := ih hbs
      rw [extent_cons, population_cons]
      split
      next hu =>
        have hsize := hb hu
        rw [Nat.add_one_mul]
        omega
      next => simpa using hrest

/-- Each free block but the first has a used one in front of it. -/
theorem Coalesced.population_le (h : Coalesced bs) :
    population false bs ≤ population true bs + 1 ∧
      ((∀ b ∈ bs.head?, b.used = true) → population false bs ≤ population true bs) := by
  induction bs with
  | nil => exact ⟨Nat.zero_le _, fun _ ↦ Nat.le_refl _⟩
  | cons b bs ih =>
      obtain ⟨hle, hhead⟩ := ih h.tail
      rw [population_cons, population_cons]
      cases hu : b.used with
      | true =>
          simp only [Bool.true_eq_false, if_false, if_true, Nat.add_zero]
          exact ⟨Nat.le_succ_of_le hle, fun _ ↦ hle⟩
      | false =>
          -- the next block is used
          have hnext : ∀ c ∈ bs.head?, c.used = true := by
            intro c hc
            obtain ⟨rest, rfl⟩ := List.head?_eq_some_iff.mp hc
            have hchain := (List.isChain_cons_cons.mp h).1
            rw [hu] at hchain
            exact hchain.resolve_left Bool.false_ne_true
          refine ⟨by simpa using hhead hnext, fun hfirst ↦ ?_⟩
          have hused := hfirst b rfl
          rw [hu] at hused
          cases hused

/-- **Few used blocks leave a large free one.** -/
theorem Tiles.exists_free_of_few (h : Tiles lo bs hi) (hco : Coalesced bs)
    (hsize : ∀ b ∈ bs, b.used = true → b.size ≤ m) (hfew : population true bs ≤ k)
    (hroom : lo + (k * m + (k + 1) * n) ≤ hi) (hn : 0 < n) :
    ∃ b ∈ bs, b.used = false ∧ n ≤ b.size := by
  by_contra hno
  have hsmall : ∀ b ∈ bs, b.used = false → b.size ≤ n - 1 := by
    intro b hb hu
    have hlt : ¬ n ≤ b.size := fun hle ↦ hno ⟨b, hb, hu, hle⟩
    omega
  have hused : extent true bs ≤ k * m :=
    Nat.le_trans (extent_le hsize) (Nat.mul_le_mul_right m hfew)
  have hgaps : population false bs ≤ k + 1 :=
    Nat.le_trans hco.population_le.1 (Nat.succ_le_succ hfew)
  have hfree : extent false bs ≤ (k + 1) * (n - 1) :=
    Nat.le_trans (extent_le hsmall) (Nat.mul_le_mul_right (n - 1) hgaps)
  have hless : (k + 1) * (n - 1) < (k + 1) * n :=
    Nat.mul_lt_mul_of_pos_left (Nat.sub_lt hn Nat.one_pos) k.succ_pos
  have hall := h.extent_add
  omega

/-- So first fit finds a block. -/
theorem alloc_ne_none_of_few {slack : Nat} (h : Tiles lo bs hi) (hco : Coalesced bs)
    (hsize : ∀ b ∈ bs, b.used = true → b.size ≤ m) (hfew : population true bs ≤ k)
    (hroom : lo + (k * m + (k + 1) * n) ≤ hi) (hn : 0 < n) : alloc n slack bs ≠ none := by
  obtain ⟨b, hb, hu, hle⟩ := h.exists_free_of_few hco hsize hfew hroom hn
  intro hnone
  exact absurd hle (Nat.not_le.mpr (alloc_eq_none_iff.mp hnone b hb hu))

end KontolOS.Lib
