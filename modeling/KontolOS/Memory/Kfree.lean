import KontolOS.Memory.Layout

/-!
# `kfree` releases a block

`kfree` merges the freed block with at most one neighbour on each side.  On a coalesced
list that is a complete coalescing: the result is coalesced again and has the used
blocks of `release`, and a coalesced tiling is determined by its used blocks.

The two merges are followed one at a time, `Linked` being kept in between; the list is
not coalesced while they are under way.
-/

namespace KontolOS.Memory

open KontolOS.Lib

variable {m : Mem} {pre post bs : List Block} {b q : Block}

/-! ## Finding the block in front -/

/-- A walk over blocks none of which is followed by the block at `a` runs off the end. -/
theorem prevWalk_miss {a : Nat} (ha : a ≠ null) :
    ∀ {suf pre : List Block} {fuel : Nat}, Linked m (pre ++ suf) →
      (∀ c ∈ suf.tail, c.addr ≠ a) → suf.length < fuel →
      prevWalk m a fuel (headAddr suf) = some null := by
  intro suf
  induction suf with
  | nil =>
      intro pre fuel _ _ hfuel
      cases fuel with
      | zero => omega
      | succ fuel => rfl
  | cons c suf ih =>
      intro pre fuel hl hne hfuel
      cases fuel with
      | zero => omega
      | succ fuel =>
          have hnext : headAddr suf ≠ a := by
            cases suf with
            | nil => exact ha.symm
            | cons d suf => exact hne d (by simp)
          have hc : (headAddr (c :: suf)) ≠ null := hl.addr_ne_null (by simp)
          have hl' : Linked m ((pre ++ [c]) ++ suf) := by simpa using hl
          rw [prevWalk, if_pos ⟨hc, by rw [headAddr, hl.next_eq]; exact hnext⟩, headAddr,
            hl.next_eq]
          exact ih hl' (fun d hd ↦ hne d (List.mem_of_mem_tail hd)) (by simpa using hfuel)

/-- A walk that comes to the block in front of `b` stops there. -/
theorem prevWalk_hit {b q : Block} {post : List Block} :
    ∀ {cs pre : List Block} {fuel : Nat}, Linked m (pre ++ (cs ++ q :: b :: post)) →
      cs.length < fuel →
        prevWalk m b.addr fuel (headAddr (cs ++ q :: b :: post)) = some q.addr := by
  intro cs
  induction cs with
  | nil =>
      intro pre fuel hl hfuel
      cases fuel with
      | zero => omega
      | succ fuel =>
          have hl' : Linked m (pre ++ q :: b :: post) := hl
          have hnext := hl'.next_eq
          rw [List.nil_append, headAddr, prevWalk, if_neg fun h ↦ h.2 hnext]
  | cons c cs ih =>
      intro pre fuel hl hfuel
      cases fuel with
      | zero => omega
      | succ fuel =>
          have hl₁ : Linked m (pre ++ c :: (cs ++ q :: b :: post)) := hl
          have hl₂ : Linked m ((pre ++ [c]) ++ (cs ++ q :: b :: post)) := by simpa using hl
          have hne : headAddr (cs ++ q :: b :: post) ≠ b.addr := by
            obtain ⟨_, _, hsuf⟩ := Tiles.append_iff.mp hl₂.tiles
            obtain ⟨mid, hfront, hqb⟩ := Tiles.append_iff.mp hsuf
            have hbaddr : b.addr = q.fin := hqb.2.2.1
            have hqpos := hqb.mem_bounds (List.mem_cons_self)
            cases cs with
            | nil =>
                change q.addr ≠ b.addr
                omega
            | cons d cs =>
                have := hfront.mem_bounds (List.mem_cons_self)
                change d.addr ≠ b.addr
                omega
          have hc : headAddr (c :: cs ++ q :: b :: post) ≠ null := hl₁.addr_ne_null (by simp)
          rw [prevWalk, if_pos ⟨hc, by
            rw [List.cons_append, headAddr, hl₁.next_eq]; exact hne⟩, List.cons_append, headAddr,
            hl₁.next_eq]
          exact ih hl₂ (by simpa using hfuel)

/-- The first block has none in front of it. -/
theorem prevWalk_first (hl : Linked m (b :: post)) :
    prevWalk m b.addr walkFuel heapStart = some null := by
  have hl₀ : Linked m ([] ++ b :: post) := hl
  rw [← hl.headAddr_eq]
  refine prevWalk_miss (hl.addr_ne_null List.mem_cons_self) hl₀ ?_ hl.length_lt
  intro c hc
  have := (hl.tiles.2.2.mem_bounds hc).1
  have := hl.tiles.mem_bounds List.mem_cons_self
  omega

/-- Any other block is found behind the one in front of it. -/
theorem prevWalk_behind (hl : Linked m (pre ++ q :: b :: post)) :
    prevWalk m b.addr walkFuel heapStart = some q.addr := by
  have hl₀ : Linked m ([] ++ (pre ++ q :: b :: post)) := hl
  have hlen := hl.length_lt
  rw [List.length_append] at hlen
  rw [← hl.headAddr_eq]
  exact prevWalk_hit hl₀ (by omega)

/-! ## The two merges -/

/-- After the forward merge the freed block is followed by a used block or by nothing. -/
theorem linked_coalesceNext (hl : Linked m (pre ++ b :: post)) (hbu : b.used = false)
    (hco : Coalesced post) :
    ∃ b' post', Linked (coalesceNext m b.addr) (pre ++ b' :: post') ∧ b'.addr = b.addr ∧
      b'.used = false ∧ Coalesced (b' :: post') ∧
      (∀ d, d.used = true → (d ∈ post' ↔ d ∈ post)) ∧
      ∀ x, OffLinks b.addr x → coalesceNext m b.addr x = m x := by
  have hnext := hl.next_eq
  cases post with
  | nil =>
      have hm : coalesceNext m b.addr = m := if_neg fun h ↦ h.1 hnext
      rw [hm]
      exact ⟨b, [], hl, rfl, hbu, List.isChain_singleton _, fun _ _ ↦ Iff.rfl, fun _ _ ↦ rfl⟩
  | cons c post =>
      have hl' : Linked m ((pre ++ [b]) ++ c :: post) := by simpa using hl
      have hc := hl.headers c (by simp)
      have hcnull : c.addr ≠ null := hl.addr_ne_null (by simp)
      have hnext : blockNext m b.addr = c.addr := hnext
      cases hcu : c.used with
      | true =>
          have hm : coalesceNext m b.addr = m := by
            refine if_neg fun h ↦ ?_
            rw [hnext, hc.used, hcu] at h
            exact Bool.noConfusion h.2
          rw [hm]
          refine ⟨b, c :: post, hl, rfl, hbu, ?_, fun _ _ ↦ Iff.rfl, fun _ _ ↦ rfl⟩
          exact List.isChain_cons_cons.mpr ⟨.inr hcu, hco⟩
      | false =>
          have hm : coalesceNext m b.addr = absorb m b.addr c.addr := by
            unfold coalesceNext
            rw [hnext, if_pos ⟨hcnull, by rw [hc.used, hcu]⟩]
          rw [hm]
          have hmerged : Coalesced ([] ++ { b with size := b.size + c.size } :: post) :=
            Coalesced.merge (List.isChain_singleton b) hco hcu
          refine ⟨{ b with size := b.size + c.size }, post, hl.absorb, rfl, hbu, hmerged, ?_,
            fun x hx ↦ absorb_off hx⟩
          intro d hd
          have hdc : d ≠ c := fun h ↦ by rw [h, hcu] at hd; cases hd
          simp [hdc]

/-- After the backward merge the list is coalesced again. -/
theorem linked_coalescePrev (hl : Linked m (pre ++ b :: post)) (hbu : b.used = false)
    (hpre : Coalesced pre) (hco : Coalesced (b :: post)) :
    ∃ prev, prevWalk m b.addr walkFuel heapStart = some prev ∧
      ∃ bs, Linked (coalescePrev m b.addr prev) bs ∧ Coalesced bs ∧
        (∀ d, d.used = true → (d ∈ bs ↔ d ∈ pre ∨ d ∈ post)) ∧
        ∀ x, (∀ q ∈ pre, q.used = false → OffLinks q.addr x) →
          coalescePrev m b.addr prev x = m x := by
  have hbd : ∀ d : Block, d.used = true → d ≠ b := fun d hd h ↦ by rw [h, hbu] at hd; cases hd
  rcases List.eq_nil_or_concat pre with rfl | ⟨pre', q, rfl⟩
  · have hm : coalescePrev m b.addr null = m := if_neg fun h ↦ h.1 rfl
    refine ⟨null, prevWalk_first hl, b :: post, by rw [hm]; exact hl, hco, ?_, fun x _ ↦ by rw [hm]⟩
    intro d hd
    simp [hbd d hd]
  · rw [List.concat_eq_append] at hl hpre ⊢
    have hlq : Linked m (pre' ++ q :: b :: post) := by simpa using hl
    have hq := hlq.headers q (by simp)
    have hqnull : q.addr ≠ null := hlq.addr_ne_null (by simp)
    refine ⟨q.addr, prevWalk_behind hlq, ?_⟩
    cases hqu : q.used with
    | true =>
        have hm : coalescePrev m b.addr q.addr = m := by
          refine if_neg fun h ↦ ?_
          rw [hq.used, hqu] at h
          exact Bool.noConfusion h.2
        refine ⟨pre' ++ [q] ++ b :: post, by rw [hm]; exact hl, ?_, ?_, fun x _ ↦ by rw [hm]⟩
        · refine List.isChain_append.mpr ⟨hpre, hco, ?_⟩
          intro x hx y _
          rw [List.getLast?_concat] at hx
          cases hx
          exact .inl hqu
        · intro d hd
          simp [hbd d hd, or_assoc]
    | false =>
        have hm : coalescePrev m b.addr q.addr = absorb m q.addr b.addr := by
          exact if_pos ⟨hqnull, by rw [hq.used, hqu]⟩
        refine ⟨_, by rw [hm]; exact hlq.absorb, Coalesced.merge hpre hco hbu, ?_, ?_⟩
        · intro d hd
          have hdq : ∀ n, d ≠ { q with size := n } := fun n h ↦ by
            rw [h] at hd
            simp [hqu] at hd
          have hdq' : d ≠ q := fun h ↦ by rw [h, hqu] at hd; cases hd
          simp [hdq', hdq]
        · intro x hx
          rw [hm]
          exact absorb_off (hx q (by simp) hqu)

/-! ## The specification of `kfree` -/

/-- `kfree` of a used block releases it.  It clears the flag of the block, and otherwise writes
only `size` and `next` fields, of the block and of free blocks. -/
theorem kfree_used {h : Heap} (hr : Rep h bs) (hb : b ∈ bs) (hbu : b.used = true) :
    ∃ h', kfree h (b.addr + sizeofBlock) = some h' ∧ Rep h' (release b.addr bs) ∧
      ∀ x, OffLinks b.addr x → (∀ q ∈ bs, q.used = false → OffLinks q.addr x) →
        h'.mem x = setUsed h.mem b.addr false x := by
  have hl := hr.linked
  have hbound := hl.bounds hb
  have hhead := hl.headers b hb
  obtain ⟨pre, post, rfl⟩ := List.mem_iff_append.mp hb
  have hco := hr.coalesced
  obtain ⟨hpre, hbpost, _⟩ := List.isChain_append.mp hco
  obtain ⟨b', post', hl₂, hb'addr, hb'used, hco₂, hused₂, hoff₂⟩ :=
    linked_coalesceNext (hl.setUsed false) rfl (List.IsChain.tail hbpost)
  obtain ⟨prev, hwalk, bs', hl₃, hco₃, hused₃, hoff₃⟩ :=
    linked_coalescePrev hl₂ hb'used hpre hco₂
  have hb'addr : b'.addr = b.addr := hb'addr
  rw [hb'addr] at hwalk hl₃ hoff₃
  have hsub := hl.sub_header hb
  -- the list that results is the released one: same tiling, same used blocks
  have hsame : bs' = release b.addr (pre ++ b :: post) := by
    refine Tiles.ext_of_coalesced hl₃.tiles hl.tiles.release hco₃ coalesced_release ?_
    intro d hd
    rw [hused₃ d hd, hused₂ d hd, mem_release_iff hd]
    have hne : d ∈ pre ∨ d ∈ post → d.addr ≠ b.addr := by
      obtain ⟨_, h₁, rfl, hpos, h₂⟩ := Tiles.append_iff.mp hl.tiles
      rintro (h | h)
      · have := h₁.mem_bounds h
        omega
      · have := (h₂.mem_bounds h).1
        unfold Block.fin at this
        omega
    constructor
    · exact fun h ↦ ⟨by simpa using h.imp id .inr, hne h⟩
    · rintro ⟨hmem, hda⟩
      have hdb : d ≠ b := fun h ↦ hda (congrArg Block.addr h)
      simpa [hdb] using hmem
  have hext := extent_release hl.tiles hb hbu
  have hfree : kfree h (b.addr + sizeofBlock) = some
      { h with
        mem := coalescePrev (coalesceNext (setUsed h.mem b.addr false) b.addr) b.addr prev
        usedMemory := sub32 h.usedMemory (blockSize (setUsed h.mem b.addr false) b.addr) } := by
    have hptr : b.addr + sizeofBlock ≠ null := by unfold sizeofBlock null; omega
    simp only [kfree, if_neg hptr, hsub, hhead.used, hbu, Bool.not_true, Bool.false_eq_true,
      ↓reduceIte, hr.head]
    rw [show prevWalk (coalesceNext (setUsed h.mem b.addr false) b.addr) b.addr walkFuel heapStart
      = some prev from hwalk]
    rfl
  refine ⟨_, hfree, ⟨?_, hsame ▸ hco₃, hr.head, hr.total, ?_⟩, ?_⟩
  · rw [← hsame]
    exact hl₃
  · have hsum := hl.tiles.extent_add
    unfold heapEnd heapStart heapSize at hsum
    change sub32 h.usedMemory (blockSize (setUsed h.mem b.addr false) b.addr) = _
    rw [blockSize_setUsed, hhead.size, hr.used, sub32_of_le (by omega) (by omega)]
    omega
  · intro x hxb hxq
    change coalescePrev (coalesceNext (setUsed h.mem b.addr false) b.addr) b.addr prev x = _
    rw [hoff₃ x fun q hq ↦ hxq q (by simp [hq]), hoff₂ x hxb]

end KontolOS.Memory
