import Mathlib.Data.List.Chain
import Mathlib.Tactic.Ring

/-!
# Tilings of an interval by blocks

A boundary-tag allocator cuts one interval of addresses into consecutive blocks,
each either used or free.  This file is about such cuts, independently of how an
allocator stores them: `Tiles lo bs hi` says that the blocks `bs` cover `[lo, hi)`
in order, without gap or overlap, and `Coalesced bs` that no two neighbours are
both free.

The two facts a program proof needs from `Coalesced` are

* `Tiles.ext_of_coalesced`: a coalesced tiling is determined by its used blocks, so
  it is a normal form for the set of live allocations;
* `Tiles.exists_free_of_range`: every range of addresses that meets no used block
  lies inside a single free block, so a search block by block misses nothing.
-/

namespace KontolOS.Lib

/-- A block of an interval: its first address, its extent and whether it is used. -/
structure Block where
  /-- The first address of the block. -/
  addr : Nat
  /-- The number of addresses in the block. -/
  size : Nat
  /-- Whether the block is in use. -/
  used : Bool
  deriving DecidableEq, Repr

/-- The first address after the block. -/
def Block.fin (b : Block) : Nat := b.addr + b.size

/-- The blocks `bs` cover `[lo, hi)` in order and without gap, each of them non-empty. -/
def Tiles : Nat → List Block → Nat → Prop
  | lo, [], hi => lo = hi
  | lo, b :: bs, hi => b.addr = lo ∧ 0 < b.size ∧ Tiles b.fin bs hi

/-- No two neighbouring blocks are both free. -/
def Coalesced (bs : List Block) : Prop := bs.IsChain fun b c ↦ b.used = true ∨ c.used = true

/-- The summed size of the blocks that are in state `u`. -/
def extent (u : Bool) (bs : List Block) : Nat :=
  ((bs.filter fun b ↦ b.used = u).map Block.size).sum

/-! ## Sums of sizes -/

@[simp] theorem extent_nil (u : Bool) : extent u [] = 0 := rfl

@[simp] theorem extent_cons (u : Bool) (b : Block) (bs : List Block) :
    extent u (b :: bs) = (if b.used = u then b.size else 0) + extent u bs := by
  unfold extent
  by_cases h : b.used = u <;> simp [h]

/-- A block is part of the extent of its kind. -/
theorem le_extent {u : Bool} {b : Block} {bs : List Block} (hb : b ∈ bs) (hu : b.used = u) :
    b.size ≤ extent u bs := by
  induction bs with
  | nil => cases hb
  | cons c bs ih =>
      rw [extent_cons]
      rcases List.mem_cons.mp hb with rfl | hb
      · rw [if_pos hu]
        exact Nat.le_add_right _ _
      · exact Nat.le_trans (ih hb) (Nat.le_add_left _ _)

theorem extent_eq_zero {u : Bool} {bs : List Block} (h : ∀ b ∈ bs, b.used ≠ u) :
    extent u bs = 0 := by
  induction bs with
  | nil => rfl
  | cons b bs ih =>
      rw [extent_cons, if_neg (h b List.mem_cons_self), Nat.zero_add]
      exact ih fun c hc ↦ h c (List.mem_cons_of_mem _ hc)

@[simp] theorem extent_append (u : Bool) (as bs : List Block) :
    extent u (as ++ bs) = extent u as + extent u bs := by
  simp [extent]

/-! ## Merging -/

/-- **A free block is merged with the block in front of it**, and the list stays coalesced. -/
theorem Coalesced.merge {bs cs : List Block} {b c : Block} {n : Nat} (hbs : Coalesced (bs ++ [b]))
    (hcs : Coalesced (c :: cs)) (hcu : c.used = false) :
    Coalesced (bs ++ { b with size := n } :: cs) := by
  obtain ⟨hfront, _, hseam⟩ := List.isChain_append.mp hbs
  obtain ⟨hafter, hrest⟩ := List.isChain_cons.mp hcs
  refine List.isChain_append.mpr ⟨hfront, List.isChain_cons.mpr ⟨fun d hd ↦ .inr ?_, hrest⟩, ?_⟩
  · -- what is behind a free block is used
    refine (hafter d hd).resolve_left fun h ↦ ?_
    rw [hcu] at h
    cases h
  · intro x hx d hd
    cases hd
    exact hseam x hx b rfl

namespace Tiles

variable {lo mid hi : Nat} {as bs cs : List Block} {b c : Block}

/-! ## Structure of a tiling -/

@[simp] theorem nil_iff : Tiles lo [] hi ↔ lo = hi := Iff.rfl

@[simp] theorem cons_iff :
    Tiles lo (b :: bs) hi ↔ b.addr = lo ∧ 0 < b.size ∧ Tiles b.fin bs hi := Iff.rfl

/-- A tiling of a concatenation is a tiling of each half up to a common cut. -/
theorem append_iff : Tiles lo (as ++ bs) hi ↔ ∃ mid, Tiles lo as mid ∧ Tiles mid bs hi := by
  induction as generalizing lo with
  | nil => simp
  | cons a as ih =>
      simp only [List.cons_append, cons_iff, ih]
      constructor
      · rintro ⟨h, hs, mid, h₁, h₂⟩
        exact ⟨mid, ⟨h, hs, h₁⟩, h₂⟩
      · rintro ⟨mid, ⟨h, hs, h₁⟩, h₂⟩
        exact ⟨h, hs, mid, h₁, h₂⟩

theorem le (h : Tiles lo bs hi) : lo ≤ hi := by
  induction bs generalizing lo with
  | nil => exact Nat.le_of_eq h
  | cons b bs ih =>
      obtain ⟨rfl, _, ht⟩ := h
      exact Nat.le_trans (Nat.le_add_right _ _) (ih ht)

/-- Every block of a tiling is non-empty and lies inside the interval. -/
theorem mem_bounds (h : Tiles lo bs hi) (hb : b ∈ bs) :
    lo ≤ b.addr ∧ b.addr < b.fin ∧ b.fin ≤ hi := by
  obtain ⟨pre, post, rfl⟩ := List.mem_iff_append.mp hb
  obtain ⟨mid, h₁, rfl, hs, h₂⟩ := append_iff.mp h
  exact ⟨h₁.le, by unfold Block.fin; omega, h₂.le⟩

/-- Two blocks of a tiling are equal or apart. -/
theorem eq_or_disjoint (h : Tiles lo bs hi) (hb : b ∈ bs) (hc : c ∈ bs) :
    b = c ∨ b.fin ≤ c.addr ∨ c.fin ≤ b.addr := by
  induction bs generalizing lo with
  | nil => cases hb
  | cons d bs ih =>
      obtain ⟨_, _, ht⟩ := h
      rcases List.mem_cons.mp hb with rfl | hb' <;> rcases List.mem_cons.mp hc with rfl | hc'
      · exact .inl rfl
      · exact .inr (.inl (ht.mem_bounds hc').1)
      · exact .inr (.inr (ht.mem_bounds hb').1)
      · exact ih ht hb' hc'

/-- The blocks of a tiling are told apart by any address they contain. -/
theorem eq_of_mem_of_mem (h : Tiles lo bs hi) (hb : b ∈ bs) (hc : c ∈ bs) {x : Nat}
    (hbx : b.addr ≤ x ∧ x < b.fin) (hcx : c.addr ≤ x ∧ x < c.fin) : b = c := by
  rcases h.eq_or_disjoint hb hc with rfl | h' | h'
  · rfl
  · omega
  · omega

/-- The blocks of a tiling are told apart by their addresses. -/
theorem eq_of_addr_eq (h : Tiles lo bs hi) (hb : b ∈ bs) (hc : c ∈ bs)
    (hbc : b.addr = c.addr) : b = c :=
  h.eq_of_mem_of_mem hb hc ⟨Nat.le_refl _, (h.mem_bounds hb).2.1⟩
    ⟨Nat.le_of_eq hbc.symm, hbc ▸ (h.mem_bounds hc).2.1⟩

/-- Every address of the interval lies in a block. -/
theorem exists_mem_of_mem (h : Tiles lo bs hi) {x : Nat} (hx : lo ≤ x) (hx' : x < hi) :
    ∃ b ∈ bs, b.addr ≤ x ∧ x < b.fin := by
  induction bs generalizing lo with
  | nil => exact absurd (h ▸ hx') (by omega)
  | cons b bs ih =>
      obtain ⟨rfl, _, ht⟩ := h
      by_cases hlt : x < b.fin
      · exact ⟨b, List.mem_cons_self, hx, hlt⟩
      · obtain ⟨c, hc, hcx⟩ := ih ht (by omega)
        exact ⟨c, List.mem_cons_of_mem _ hc, hcx⟩

/-- Each block of a tiling ends where the next one begins. -/
theorem isChain (h : Tiles lo bs hi) : bs.IsChain fun b c ↦ b.addr + b.size = c.addr := by
  induction bs generalizing lo with
  | nil => exact .nil
  | cons b bs ih =>
      refine (ih h.2.2).cons fun c hc ↦ ?_
      cases bs with
      | nil => cases hc
      | cons d bs =>
          cases hc
          exact h.2.2.1.symm

/-- Used and free blocks together exhaust the interval. -/
theorem extent_add (h : Tiles lo bs hi) : lo + extent true bs + extent false bs = hi := by
  induction bs generalizing lo with
  | nil => exact h
  | cons b bs ih =>
      obtain ⟨rfl, _, ht⟩ := h
      have := ih ht
      simp only [Block.fin] at this
      cases hu : b.used <;> simp [hu] <;> omega

/-! ## The normal form -/

theorem Coalesced.tail (h : Coalesced (b :: bs)) : Coalesced bs := List.IsChain.tail h

/-- The free block in front of a used one ends where the used one begins: between the
same address and the same used blocks there is room for one free block only. -/
private theorem free_head_fin_le (hb : Tiles lo (b :: bs) hi) (hc : Tiles lo (c :: cs) hi)
    (hbu : b.used = false) (hcc : Coalesced (c :: cs)) (hcu : c.used = false)
    (hsame : ∀ d, d.used = true → (d ∈ b :: bs ↔ d ∈ c :: cs)) : b.fin ≤ c.fin := by
  cases cs with
  | nil =>
      have : c.fin = hi := hc.2.2
      exact this ▸ (hb.mem_bounds List.mem_cons_self).2.2
  | cons d cs =>
      have hdu : d.used = true := by
        rcases (List.isChain_cons_cons.mp hcc).1 with h | h
        · simp [hcu] at h
        · exact h
      have hmem : d ∈ b :: bs := (hsame d hdu).mpr (by simp)
      rcases List.mem_cons.mp hmem with rfl | hmem
      · simp [hbu] at hdu
      · exact (hc.2.2.1 : d.addr = c.fin) ▸ (hb.2.2.mem_bounds hmem).1

/-- A coalesced tiling is determined by its used blocks. -/
theorem ext_of_coalesced (hb : Tiles lo bs hi) (hc : Tiles lo cs hi) (hbc : Coalesced bs)
    (hcc : Coalesced cs) (hsame : ∀ d, d.used = true → (d ∈ bs ↔ d ∈ cs)) : bs = cs := by
  induction bs generalizing lo cs with
  | nil =>
      cases cs with
      | nil => rfl
      | cons c cs =>
          have := (hc.mem_bounds List.mem_cons_self)
          have : lo = hi := hb
          omega
  | cons b bs ih =>
      cases cs with
      | nil =>
          have := (hb.mem_bounds List.mem_cons_self)
          have : lo = hi := hc
          omega
      | cons c cs =>
          have haddr : b.addr = c.addr := hb.1.trans hc.1.symm
          have hhead : b = c := by
            cases hbu : b.used with
            | true =>
                exact hc.eq_of_addr_eq ((hsame b hbu).mp List.mem_cons_self)
                  List.mem_cons_self haddr
            | false =>
                cases hcu : c.used with
                | true =>
                    exact hb.eq_of_addr_eq List.mem_cons_self
                      ((hsame c hcu).mpr List.mem_cons_self) haddr
                | false =>
                    -- both heads are free, so they reach to the same next used block
                    have h₁ := free_head_fin_le hb hc hbu hcc hcu hsame
                    have h₂ := free_head_fin_le hc hb hcu hbc hbu fun d hd ↦ (hsame d hd).symm
                    cases b; cases c
                    simp only [Block.fin] at *
                    simp_all
                    omega
          subst hhead
          congr 1
          refine ih hb.2.2 hc.2.2 (Coalesced.tail hbc) (Coalesced.tail hcc) fun d hd ↦ ?_
          have hnot : ∀ {es : List Block}, Tiles b.fin es hi → b ∉ es := fun hes hmem ↦ by
            have := (hes.mem_bounds hmem).1
            have := hb.mem_bounds List.mem_cons_self
            omega
          constructor
          · intro hmem
            rcases List.mem_cons.mp ((hsame d hd).mp (List.mem_cons_of_mem _ hmem)) with rfl | h
            · exact absurd hmem (hnot hb.2.2)
            · exact h
          · intro hmem
            rcases List.mem_cons.mp ((hsame d hd).mpr (List.mem_cons_of_mem _ hmem)) with rfl | h
            · exact absurd hmem (hnot hc.2.2)
            · exact h

/-- A range of addresses that meets no used block lies inside one free block. -/
theorem exists_free_of_range (h : Tiles lo bs hi) (hco : Coalesced bs) {x n : Nat}
    (hn : 0 < n) (hx : lo ≤ x) (hxn : x + n ≤ hi)
    (havoid : ∀ b ∈ bs, b.used = true → b.fin ≤ x ∨ x + n ≤ b.addr) :
    ∃ b ∈ bs, b.used = false ∧ b.addr ≤ x ∧ x + n ≤ b.fin := by
  obtain ⟨b, hb, hbx, hxb⟩ := h.exists_mem_of_mem hx (by omega)
  have hbu : b.used = false := by
    cases hu : b.used with
    | false => rfl
    | true =>
        have := havoid b hb hu
        omega
  refine ⟨b, hb, hbu, hbx, ?_⟩
  by_contra hlt
  -- the block after `b` is used, and begins inside the range
  obtain ⟨pre, post, rfl⟩ := List.mem_iff_append.mp hb
  obtain ⟨mid, _, hmid, _, hpost⟩ := append_iff.mp h
  cases post with
  | nil =>
      have : b.fin = hi := hpost
      omega
  | cons c post =>
      have hcu : c.used = true := by
        have := List.isChain_cons_cons.mp (List.IsChain.right_of_append hco)
        rcases this.1 with h | h
        · simp [hbu] at h
        · exact h
      have hcaddr : c.addr = b.fin := hpost.1
      have hcfin := (hpost.mem_bounds List.mem_cons_self).2.1
      have := havoid c (by simp) hcu
      omega

end Tiles

/-! ## The free ranges -/

/-- The address `x` of `[lo, hi)` lies in no used block. -/
def Vacant (lo : Nat) (bs : List Block) (hi x : Nat) : Prop :=
  lo ≤ x ∧ x < hi ∧ ∀ b ∈ bs, b.used = true → x < b.addr ∨ b.fin ≤ x

/-- The `n` addresses from `x` on are vacant, and neither the address in front of them nor the
one behind them is. -/
structure MaximalVacant (lo : Nat) (bs : List Block) (hi x n : Nat) : Prop where
  /-- the range is not empty -/
  pos : 0 < n
  /-- its addresses are vacant -/
  inside : ∀ i < n, Vacant lo bs hi (x + i)
  /-- it cannot be continued to the front -/
  before : ∀ y, y + 1 = x → ¬ Vacant lo bs hi y
  /-- it cannot be continued to the back -/
  after : ¬ Vacant lo bs hi (x + n)

namespace Tiles

variable {lo hi x n : Nat} {bs : List Block} {b : Block}

/-- The addresses of a free block are vacant. -/
theorem vacant_of_free (h : Tiles lo bs hi) (hb : b ∈ bs) (hbu : b.used = false)
    (hx : b.addr ≤ x) (hx' : x < b.fin) : Vacant lo bs hi x := by
  have hbound := h.mem_bounds hb
  refine ⟨Nat.le_trans hbound.1 hx, Nat.lt_of_lt_of_le hx' hbound.2.2, fun c hc hcu ↦ ?_⟩
  rcases h.eq_or_disjoint hb hc with rfl | hd | hd
  · rw [hbu] at hcu
    cases hcu
  · exact .inl (Nat.lt_of_lt_of_le hx' hd)
  · exact .inr (Nat.le_trans hd hx)

/-- Vacant addresses in a row lie inside one free block of a coalesced tiling. -/
theorem exists_free_of_vacant (h : Tiles lo bs hi) (hco : Coalesced bs) (hn : 0 < n)
    (hrange : ∀ i < n, Vacant lo bs hi (x + i)) :
    ∃ b ∈ bs, b.used = false ∧ b.addr ≤ x ∧ x + n ≤ b.fin := by
  have hfirst := hrange 0 hn
  have hlast := hrange (n - 1) (by omega)
  refine h.exists_free_of_range hco hn hfirst.1 (by have := hlast.2.1; omega) fun c hc hcu ↦ ?_
  -- a used block that begins inside the range would contain one of its addresses
  by_contra hmeet
  obtain ⟨hx, hc'⟩ := not_or.mp hmeet
  have hpos := (h.mem_bounds hc).2.1
  rcases Nat.lt_or_ge x c.addr with hlt | hge
  · rcases (hrange (c.addr - x) (by omega)).2.2 c hc hcu with h' | h' <;> omega
  · rcases hfirst.2.2 c hc hcu with h' | h' <;> omega

/-- **The maximal vacant ranges** of a coalesced tiling are its free blocks. -/
theorem maximalVacant_iff (h : Tiles lo bs hi) (hco : Coalesced bs) :
    MaximalVacant lo bs hi x n ↔ ∃ b ∈ bs, b.used = false ∧ b.addr = x ∧ b.size = n := by
  constructor
  · intro hm
    obtain ⟨b, hb, hbu, hbx, hxb⟩ := h.exists_free_of_vacant hco hm.pos hm.inside
    have haddr : b.addr = x := by
      by_contra hne
      exact hm.before (x - 1) (by omega) (h.vacant_of_free hb hbu (by omega) (by omega))
    have hfin : b.fin = x + n := by
      by_contra hne
      exact hm.after (h.vacant_of_free hb hbu (by omega) (by omega))
    exact ⟨b, hb, hbu, haddr, by unfold Block.fin at hfin; omega⟩
  · rintro ⟨b, hb, hbu, rfl, rfl⟩
    have hpos : 0 < b.size := Nat.pos_of_lt_add_right (h.mem_bounds hb).2.1
    -- one more address would lie in the same free block
    have hsame : ∀ {y k : Nat}, 0 < k → (∀ i < k, Vacant lo bs hi (y + i)) → y ≤ b.addr →
        b.addr < y + k → b.addr ≤ y ∧ y + k ≤ b.fin := by
      intro y k hk hrange hy hyk
      have hfin : b.addr < b.fin := Nat.lt_add_of_pos_right hpos
      obtain ⟨c, hc, _, hcy, hyc⟩ := h.exists_free_of_vacant hco hk hrange
      have hcb := h.eq_of_mem_of_mem hc hb (x := b.addr) (by omega) (by omega)
      exact ⟨hcb ▸ hcy, hcb ▸ hyc⟩
    have hinside : ∀ i < b.size, Vacant lo bs hi (b.addr + i) := fun i hi ↦
      h.vacant_of_free hb hbu (Nat.le_add_right _ _) (by unfold Block.fin; omega)
    refine ⟨hpos, hinside, fun y hy hv ↦ ?_, fun hv ↦ ?_⟩
    · have := hsame (y := y) (k := 1 + b.size) (by omega) (fun i hi ↦ ?_) (by omega) (by omega)
      · omega
      · cases i with
        | zero => exact hv
        | succ i =>
            rw [show y + (i + 1) = b.addr + i by omega]
            exact hinside i (by omega)
    · have := hsame (y := b.addr) (k := b.size + 1) (by omega) (fun i hi ↦ ?_) (by omega) (by omega)
      · unfold Block.fin at this
        omega
      · rcases Nat.lt_succ_iff_lt_or_eq.mp hi with hlt | rfl
        · exact hinside i hlt
        · exact hv

end Tiles

end KontolOS.Lib
