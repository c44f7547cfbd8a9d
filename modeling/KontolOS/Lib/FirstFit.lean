import KontolOS.Lib.Tiling

/-!
# First fit and coalescing on a list of blocks

The abstract first-fit allocator.  `alloc n k` takes the first free block of at least
`n` addresses and cuts it down to `n` when at least `k` addresses would be left over;
`release a` frees the block at address `a` and coalesces *every* run of neighbouring
free blocks.  Releasing is specified globally on purpose: that merging with one
neighbour on each side amounts to the same thing is a property of coalesced tilings
(`Tiles.ext_of_coalesced`), not part of what an allocator is for.

Each operation comes with the same three facts: it preserves (or establishes)
`Coalesced`, it changes the set of used blocks by exactly one, and it accounts for the
change in used addresses.
-/

namespace KontolOS.Lib

/-! ## Sizes -/

/-- Every block has at least `m` addresses, and a multiple of `q` of them. -/
def WellSized (m q : Nat) (bs : List Block) : Prop := ∀ b ∈ bs, m ≤ b.size ∧ q ∣ b.size

/-- In a tiling by blocks of a multiple of `q`, every block begins at a multiple of `q`. -/
theorem Tiles.dvd_addr {m q lo hi : Nat} {bs : List Block} (h : Tiles lo bs hi)
    (hw : WellSized m q bs) (hlo : q ∣ lo) {b : Block} (hb : b ∈ bs) : q ∣ b.addr := by
  induction bs generalizing lo with
  | nil => cases hb
  | cons c bs ih =>
      obtain ⟨rfl, _, ht⟩ := h
      rcases List.mem_cons.mp hb with rfl | hb'
      · exact hlo
      · exact ih ht (fun d hd ↦ hw d (List.mem_cons_of_mem _ hd))
          (Nat.dvd_add hlo (hw c List.mem_cons_self).2) hb'

/-! ## Allocation -/

/-- A free block of at least `n` addresses. -/
def Block.fits (n : Nat) (b : Block) : Bool := !b.used && decide (n ≤ b.size)

theorem Block.fits_iff {n : Nat} {b : Block} :
    b.fits n = true ↔ b.used = false ∧ n ≤ b.size := by
  simp [Block.fits]

/-- What remains of the block `b` once `n` of its addresses are handed out: the used
block, followed by the free rest if that has at least `k` addresses. -/
def Block.carve (n k : Nat) (b : Block) : Block × List Block :=
  if n + k ≤ b.size then
    ({ b with size := n, used := true },
      [{ addr := b.addr + n, size := b.size - n, used := false }])
  else
    ({ b with used := true }, [])

/-- First fit: the block handed out and the list that results. -/
def alloc (n k : Nat) : List Block → Option (Block × List Block)
  | [] => none
  | b :: bs =>
      if b.fits n then some ((b.carve n k).1, (b.carve n k).1 :: (b.carve n k).2 ++ bs)
      else (alloc n k bs).map fun r ↦ (r.1, b :: r.2)

section Carve

variable {n k : Nat} {b : Block}

@[simp] theorem carve_addr : (b.carve n k).1.addr = b.addr := by
  unfold Block.carve; split <;> rfl

@[simp] theorem carve_used : (b.carve n k).1.used = true := by
  unfold Block.carve; split <;> rfl

theorem carve_size : (b.carve n k).1.size = if n + k ≤ b.size then n else b.size := by
  unfold Block.carve
  split <;> rfl

theorem carve_rest_free {c : Block} (hc : c ∈ (b.carve n k).2) : c.used = false := by
  unfold Block.carve at hc
  split at hc
  · simp only [List.mem_singleton] at hc; rw [hc]
  · cases hc

theorem carve_size_bounds (hn : n ≤ b.size) (hk : 0 < k) :
    n ≤ (b.carve n k).1.size ∧ (b.carve n k).1.size < n + k := by
  unfold Block.carve
  split
  · exact ⟨Nat.le_refl _, by simpa using hk⟩
  · exact ⟨hn, by simpa using ‹¬ n + k ≤ b.size›⟩

theorem carve_fin_le (hn : n ≤ b.size) : (b.carve n k).1.fin ≤ b.fin := by
  unfold Block.carve Block.fin
  split <;> simp [hn]

end Carve

section Alloc

variable {n k lo hi : Nat} {bs bs' : List Block} {b : Block}

/-- First fit fails exactly when no free block is large enough. -/
theorem alloc_eq_none_iff : alloc n k bs = none ↔ ∀ b ∈ bs, b.used = false → b.size < n := by
  induction bs with
  | nil => simp [alloc]
  | cons b bs ih =>
      by_cases hf : b.fits n = true
      · have := Block.fits_iff.mp hf
        simp only [alloc, hf, ↓reduceIte, List.mem_cons, forall_eq_or_imp]
        constructor
        · intro h; cases h
        · intro h; have := h.1 this.1; omega
      · have hnot : b.used = false → b.size < n := by
          intro hu
          by_contra hlt
          exact hf (Block.fits_iff.mpr ⟨hu, by omega⟩)
        simp only [alloc, hf, Bool.false_eq_true, ↓reduceIte, Option.map_eq_none_iff, ih,
          List.mem_cons, forall_eq_or_imp]
        exact ⟨fun h ↦ ⟨hnot, h⟩, fun h ↦ h.2⟩

/-- **First fit fails only when it must**: on a coalesced tiling it finds a block exactly if
there are `n` consecutive addresses that meet no used block. -/
theorem alloc_eq_none_iff_no_range (h : Tiles lo bs hi) (hco : Coalesced bs) (hn : 0 < n) :
    alloc n k bs = none ↔ ¬ ∃ x, lo ≤ x ∧ x + n ≤ hi ∧
      ∀ b ∈ bs, b.used = true → b.fin ≤ x ∨ x + n ≤ b.addr := by
  rw [alloc_eq_none_iff]
  constructor
  · rintro hnone ⟨x, hx, hxn, havoid⟩
    obtain ⟨b, hb, hbu, hbx, hxb⟩ := h.exists_free_of_range hco hn hx hxn havoid
    have := hnone b hb hbu
    unfold Block.fin at hxb
    omega
  · intro hno b hb hbu
    by_contra hlt
    have hfit : b.addr + n ≤ b.fin := Nat.add_le_add_left (Nat.not_lt.mp hlt) _
    have hbound := h.mem_bounds hb
    refine hno ⟨b.addr, hbound.1, Nat.le_trans hfit hbound.2.2, fun c hc hcu ↦ ?_⟩
    rcases h.eq_or_disjoint hc hb with rfl | hd | hd
    · rw [hbu] at hcu
      cases hcu
    · exact .inl hd
    · exact .inr (Nat.le_trans hfit hd)

/-- A successful first fit, in the shape its correctness proof wants: the blocks before
the one taken do not fit, and nothing else moves. -/
theorem alloc_eq_some (h : alloc n k bs = some (b, bs')) :
    ∃ pre c post, bs = pre ++ c :: post ∧ (∀ d ∈ pre, d.fits n = false) ∧ c.fits n = true ∧
      b = (c.carve n k).1 ∧ bs' = pre ++ (c.carve n k).1 :: (c.carve n k).2 ++ post := by
  induction bs generalizing bs' with
  | nil => cases h
  | cons d bs ih =>
      unfold alloc at h
      by_cases hf : d.fits n = true
      · rw [if_pos hf] at h
        cases h
        exact ⟨[], d, bs, rfl, (fun _ hd ↦ nomatch hd), hf, rfl, rfl⟩
      · rw [if_neg hf] at h
        cases hr : alloc n k bs with
        | none => rw [hr] at h; cases h
        | some r =>
            rw [hr] at h
            cases h
            obtain ⟨pre, c, post, rfl, hpre, hc, hb, hbs⟩ := ih hr
            refine ⟨d :: pre, c, post, rfl, ?_, hc, hb, by rw [hbs]; rfl⟩
            intro e he
            rcases List.mem_cons.mp he with rfl | he
            · simpa using hf
            · exact hpre e he

theorem alloc_used (h : alloc n k bs = some (b, bs')) : b.used = true := by
  obtain ⟨_, c, _, _, _, _, rfl, _⟩ := alloc_eq_some h
  exact carve_used

theorem alloc_size_bounds (hk : 0 < k) (h : alloc n k bs = some (b, bs')) :
    n ≤ b.size ∧ b.size < n + k := by
  obtain ⟨_, c, _, _, _, hc, rfl, _⟩ := alloc_eq_some h
  exact carve_size_bounds (Block.fits_iff.mp hc).2 hk

theorem alloc_mem (h : alloc n k bs = some (b, bs')) : b ∈ bs' := by
  obtain ⟨_, _, _, _, _, _, rfl, rfl⟩ := alloc_eq_some h
  simp

/-- The block handed out is the beginning of a free block. -/
theorem alloc_from_free (h : alloc n k bs = some (b, bs')) :
    ∃ c ∈ bs, c.used = false ∧ b.addr = c.addr ∧ b.fin ≤ c.fin := by
  obtain ⟨_, c, _, rfl, _, hc, rfl, _⟩ := alloc_eq_some h
  have hf := Block.fits_iff.mp hc
  exact ⟨c, by simp, hf.1, carve_addr, carve_fin_le hf.2⟩

/-- The block handed out is the beginning of the lowest free block that is large enough, or all of
it. -/
theorem alloc_lowest (ht : Tiles lo bs hi) (h : alloc n k bs = some (b, bs')) :
    ∃ c ∈ bs, c.used = false ∧ n ≤ c.size ∧ b.addr = c.addr ∧
      (b.size = if n + k ≤ c.size then n else c.size) ∧
      ∀ d ∈ bs, d.used = false → n ≤ d.size → c.addr ≤ d.addr := by
  obtain ⟨pre, c, post, rfl, hpre, hc, rfl, _⟩ := alloc_eq_some h
  obtain ⟨hcu, hcn⟩ := Block.fits_iff.mp hc
  refine ⟨c, by simp, hcu, hcn, carve_addr, carve_size, fun d hd hdu hdn ↦ ?_⟩
  obtain ⟨_, _, hcpost⟩ := Tiles.append_iff.mp ht
  rcases List.mem_append.mp hd with hd | hd
  · have hnot := hpre d hd
    rw [Block.fits_iff.mpr ⟨hdu, hdn⟩] at hnot
    cases hnot
  · exact hcpost.1 ▸ (hcpost.mem_bounds hd).1

/-- Allocation adds one used block and touches no other. -/
theorem mem_alloc_iff (h : alloc n k bs = some (b, bs')) {d : Block} (hd : d.used = true) :
    d ∈ bs' ↔ d ∈ bs ∨ d = b := by
  obtain ⟨pre, c, post, rfl, _, hc, rfl, rfl⟩ := alloc_eq_some h
  have hcd : d ≠ c := fun heq ↦ by
    rw [← heq, Block.fits_iff, hd] at hc
    cases hc.1
  have hrest : d ∉ (c.carve n k).2 := fun hm ↦ by simp [carve_rest_free hm] at hd
  simp only [List.mem_append, List.mem_cons, hcd, hrest, false_or, or_false]
  tauto

theorem extent_alloc (h : alloc n k bs = some (b, bs')) :
    extent true bs' = extent true bs + b.size := by
  obtain ⟨pre, c, post, rfl, _, hc, rfl, rfl⟩ := alloc_eq_some h
  have hrest : extent true (c.carve n k).2 = 0 := by
    unfold Block.carve; split <;> simp
  simp [(Block.fits_iff.mp hc).1, hrest]
  omega

theorem Coalesced.alloc (hco : Coalesced bs) (h : alloc n k bs = some (b, bs')) :
    Coalesced bs' := by
  obtain ⟨pre, c, post, rfl, _, hc, _, rfl⟩ := alloc_eq_some h
  have hcu := (Block.fits_iff.mp hc).1
  obtain ⟨h₁, h₂, _⟩ := List.isChain_append.mp hco
  obtain ⟨hnext, h₃⟩ := List.isChain_cons.mp h₂
  -- the blocks around the one taken: a used block, then possibly a free rest, then `post`
  have hpost : Coalesced ((c.carve n k).2 ++ post) := by
    unfold Block.carve
    split
    · refine List.isChain_cons.mpr ⟨fun y hy ↦ .inr ?_, h₃⟩
      simpa [hcu] using hnext y hy
    · exact h₃
  rw [List.append_assoc]
  refine List.isChain_append.mpr ⟨h₁, List.isChain_cons.mpr ⟨?_, hpost⟩, ?_⟩
  · intro y _
    exact .inl carve_used
  · intro x _ y hy
    simp only [List.cons_append, List.head?_cons, Option.mem_some_iff] at hy
    exact .inr (hy ▸ carve_used)

end Alloc

/-! ## Release -/

/-- Put a block in front of a list, merging it with the first one if both are free. -/
def Block.glue (b : Block) : List Block → List Block
  | [] => [b]
  | c :: cs =>
      if b.used = false ∧ c.used = false then { b with size := b.size + c.size } :: cs
      else b :: c :: cs

/-- Merge every run of neighbouring free blocks. -/
def coalesce (bs : List Block) : List Block := bs.foldr Block.glue []

/-- Mark the block at address `a` free. -/
def Block.freeAt (a : Nat) (b : Block) : Block :=
  if b.addr = a then { b with used := false } else b

/-- Free the block at address `a` and coalesce. -/
def release (a : Nat) (bs : List Block) : List Block := coalesce (bs.map (Block.freeAt a))

section Coalesce

variable {lo hi : Nat} {bs : List Block} {b : Block}

@[simp] theorem coalesce_cons : coalesce (b :: bs) = b.glue (coalesce bs) := rfl

theorem Tiles.glue (h : Tiles lo (b :: bs) hi) : Tiles lo (b.glue bs) hi := by
  cases bs with
  | nil => exact h
  | cons c cs =>
      simp only [Block.glue]
      split
      · obtain ⟨rfl, hb, hc, hcs, ht⟩ := h
        refine ⟨rfl, Nat.lt_of_lt_of_le hb (Nat.le_add_right _ _), ?_⟩
        have hfin : c.fin = Block.fin { b with size := b.size + c.size } := by
          unfold Block.fin at hc ⊢
          simp only
          omega
        exact hfin ▸ ht
      · exact h

theorem Tiles.coalesce (h : Tiles lo bs hi) : Tiles lo (coalesce bs) hi := by
  induction bs generalizing lo with
  | nil => exact h
  | cons b bs ih => exact Tiles.glue (b := b) ⟨h.1, h.2.1, ih h.2.2⟩

theorem coalesced_glue (h : Coalesced bs) : Coalesced (b.glue bs) := by
  cases bs with
  | nil => exact List.isChain_singleton _
  | cons c cs =>
      simp only [Block.glue]
      split
      · rename_i hf
        have hmerged : Coalesced ([] ++ { b with size := b.size + c.size } :: cs) :=
          Coalesced.merge (List.isChain_singleton b) h hf.2
        exact hmerged
      · rename_i hf
        refine List.isChain_cons.mpr ⟨fun y hy ↦ ?_, h⟩
        simp only [List.head?_cons, Option.mem_some_iff] at hy
        subst hy
        cases hb : b.used <;> cases hc : c.used <;> simp_all

theorem coalesced_coalesce (bs : List Block) : Coalesced (coalesce bs) := by
  induction bs with
  | nil => exact .nil
  | cons b bs ih => exact coalesced_glue ih

/-- Coalescing leaves the used blocks alone. -/
theorem mem_coalesce_iff {d : Block} (hd : d.used = true) : d ∈ coalesce bs ↔ d ∈ bs := by
  induction bs with
  | nil => rfl
  | cons b bs ih =>
      rw [coalesce_cons, List.mem_cons, ← ih]
      cases hcs : coalesce bs with
      | nil => simp [Block.glue]
      | cons c cs =>
          simp only [Block.glue]
          split
          · rename_i hf
            have h₁ : d ≠ { b with size := b.size + c.size } := fun h ↦ by simp [h, hf.1] at hd
            have h₂ : d ≠ b := fun h ↦ by simp [h, hf.1] at hd
            have h₃ : d ≠ c := fun h ↦ by simp [h, hf.2] at hd
            simp [h₁, h₂, h₃]
          · simp

theorem extent_coalesce : extent true (coalesce bs) = extent true bs := by
  induction bs with
  | nil => rfl
  | cons b bs ih =>
      rw [coalesce_cons, extent_cons, ← ih]
      cases coalesce bs with
      | nil => simp [Block.glue]
      | cons c cs =>
          simp only [Block.glue]
          split
          · rename_i hf
            simp [hf.1, hf.2]
          · simp

end Coalesce

section Release

variable {lo hi a : Nat} {bs : List Block} {b : Block}

@[simp] theorem freeAt_addr : (b.freeAt a).addr = b.addr := by
  unfold Block.freeAt; split <;> rfl

@[simp] theorem freeAt_size : (b.freeAt a).size = b.size := by
  unfold Block.freeAt; split <;> rfl

theorem freeAt_of_ne (h : b.addr ≠ a) : b.freeAt a = b := if_neg h

theorem Tiles.map_freeAt (h : Tiles lo bs hi) : Tiles lo (bs.map (Block.freeAt a)) hi := by
  induction bs generalizing lo with
  | nil => exact h
  | cons b bs ih =>
      refine ⟨by simpa using h.1, by simpa using h.2.1, ?_⟩
      have := ih h.2.2
      simpa [Block.fin] using this

theorem Tiles.release (h : Tiles lo bs hi) : Tiles lo (release a bs) hi :=
  h.map_freeAt.coalesce

theorem coalesced_release : Coalesced (release a bs) := coalesced_coalesce _

/-- Releasing removes the block at `a` from the used blocks and touches no other. -/
theorem mem_release_iff {d : Block} (hd : d.used = true) :
    d ∈ release a bs ↔ d ∈ bs ∧ d.addr ≠ a := by
  unfold release
  rw [mem_coalesce_iff hd, List.mem_map]
  constructor
  · rintro ⟨c, hc, rfl⟩
    by_cases ha : c.addr = a
    · simp [Block.freeAt, ha] at hd
    · rw [freeAt_of_ne ha]; exact ⟨hc, ha⟩
  · rintro ⟨hmem, ha⟩
    exact ⟨d, hmem, freeAt_of_ne ha⟩

theorem extent_release (h : Tiles lo bs hi) (hb : b ∈ bs) (hbu : b.used = true) :
    extent true (release b.addr bs) + b.size = extent true bs := by
  obtain ⟨pre, post, rfl⟩ := List.mem_iff_append.mp hb
  have hkeep : ∀ cs : List Block, (∀ c ∈ cs, c.addr ≠ b.addr) →
      cs.map (Block.freeAt b.addr) = cs := fun cs hcs ↦
    (List.map_congr_left fun c hc ↦ freeAt_of_ne (hcs c hc)).trans (List.map_id cs)
  obtain ⟨mid, h₁, rfl, hs, h₂⟩ := Tiles.append_iff.mp h
  have hpre : pre.map (Block.freeAt b.addr) = pre := hkeep pre fun c hc ↦ by
    have := h₁.mem_bounds hc
    omega
  have hpost : post.map (Block.freeAt b.addr) = post := hkeep post fun c hc ↦ by
    have := (h₂.mem_bounds hc).1
    unfold Block.fin at this
    omega
  unfold release
  rw [extent_coalesce, List.map_append, List.map_cons, hpre, hpost]
  simp [Block.freeAt, hbu]
  omega

/-- Merging removes boundaries and adds none. -/
theorem mem_coalesce_addr {d : Block} (hd : d ∈ coalesce bs) : ∃ c ∈ bs, c.addr = d.addr := by
  induction bs generalizing d with
  | nil => cases hd
  | cons b bs ih =>
      have htail : ∀ e ∈ coalesce bs, ∃ c ∈ b :: bs, c.addr = e.addr := fun e he ↦ by
        obtain ⟨c, hc, hce⟩ := ih he
        exact ⟨c, List.mem_cons_of_mem _ hc, hce⟩
      rw [coalesce_cons] at hd
      cases hcs : coalesce bs with
      | nil =>
          rw [hcs, Block.glue, List.mem_singleton] at hd
          exact ⟨b, List.mem_cons_self, by rw [hd]⟩
      | cons e es =>
          rw [hcs] at hd htail
          simp only [Block.glue] at hd
          split at hd
          · rcases List.mem_cons.mp hd with rfl | hd
            · exact ⟨b, List.mem_cons_self, rfl⟩
            · exact htail d (List.mem_cons_of_mem _ hd)
          · rcases List.mem_cons.mp hd with rfl | hd
            · exact ⟨d, List.mem_cons_self, rfl⟩
            · exact htail d hd

theorem mem_release_addr {d : Block} (hd : d ∈ release a bs) : ∃ c ∈ bs, c.addr = d.addr := by
  obtain ⟨c, hc, hcd⟩ := mem_coalesce_addr hd
  obtain ⟨c', hc', rfl⟩ := List.mem_map.mp hc
  exact ⟨c', hc', freeAt_addr.symm.trans hcd⟩

/-- A block that is free, or becomes so, lies in a free block afterwards: at its beginning, or
behind at least as many addresses as a block has. -/
theorem exists_release_of_free {m q : Nat} (h : Tiles lo bs hi) (hw : WellSized m q bs)
    (hb : b ∈ bs) (hfree : b.used = false ∨ b.addr = a) :
    ∃ f ∈ release a bs, f.used = false ∧ b.fin ≤ f.fin ∧
      (b.addr = f.addr ∨ f.addr + m ≤ b.addr) := by
  have hbound := h.mem_bounds hb
  obtain ⟨f, hf, hfu, hfb, hbf⟩ := (h.release (a := a)).exists_free_of_range
    coalesced_release (x := b.addr) (n := b.size)
    (Nat.pos_of_lt_add_right hbound.2.1) hbound.1 hbound.2.2 fun c hc hcu ↦ by
      obtain ⟨hc, hca⟩ := (mem_release_iff hcu).mp hc
      rcases h.eq_or_disjoint hc hb with rfl | hd
      · rcases hfree with hbu | hba
        · rw [hbu] at hcu
          cases hcu
        · exact absurd hba hca
      · exact hd
  refine ⟨f, hf, hfu, hbf, ?_⟩
  obtain ⟨c, hc, hcf⟩ := mem_release_addr hf
  rcases h.eq_or_disjoint hc hb with rfl | hd | hd
  · exact .inl hcf
  · have := (hw c hc).1
    exact .inr (by unfold Block.fin at hd; omega)
  · omega

end Release

end KontolOS.Lib
