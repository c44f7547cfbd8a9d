import KontolOS.Memory.Invariants
import KontolOS.Memory.Realloc

/-!
# Freeing twice

`kfree` recognises a pointer that was freed before by the flag in its header.  By then the
header need not be on the block list any more: its block may have become the inside of a larger
free block, and the flag a byte that nothing accounts for.

`StaleAt m bs a` says what remains true of such a header at `a`: its flag is clear, it lies in
a free block, and if it is not the header of that block it does not overlap it either.  Neither
a write into a used block nor a further merge changes that.  The next allocation may, so none
is made here (`Freeing`).
-/

namespace KontolOS.Memory

open KontolOS.Lib Function

/-! ## Freeing, and writing meanwhile -/

/-- What is done to the heap of `w₀`: a pointer that was live in `w₀` is freed, for the first
time or again, or a client writes inside an allocation that is still live. -/
def Freeing (w₀ w : Clients) : Call → Prop
  | .kfree ptr => (w₀.live ptr).isSome
  | .write ptr off data => ∃ n, Holds w.heap ptr n ∧ off + data.length ≤ n
  | _ => False

/-! ## Stale headers -/

/-- There is, or was, a header of a free block at `a`. -/
structure StaleAt (m : Mem) (bs : List Block) (a : Nat) : Prop where
  /-- its flag is clear -/
  flag : m (a + 4) = 0
  /-- it lies in a free block, and is the header of that block or behind it -/
  inside : ∃ f ∈ bs, f.used = false ∧ a + sizeofBlock ≤ f.fin ∧
    (a = f.addr ∨ f.addr + sizeofBlock ≤ a)

section Stale

variable {h h' : Heap} {m m' : Mem} {bs : List Block} {b : Block} {a : Nat}

/-- `kfree` sees that such a block is free. -/
theorem StaleAt.kfree_eq (hs : StaleAt h.mem bs a)
    (hsub : sub32 (a + sizeofBlock) sizeofBlock = a) :
    kfree h (a + sizeofBlock) = some h := by
  have hptr : a + sizeofBlock ≠ null := Nat.ne_of_gt (Nat.succ_pos _)
  have hused : blockUsed h.mem a = false := by
    rw [blockUsed, hs.flag]
    rfl
  simp [kfree, hptr, hsub, hused]

/-- A stale header is where no used block is. -/
theorem StaleAt.off_used (hs : StaleAt m bs a) (hl : Linked m' bs) (hb : b ∈ bs)
    (hbu : b.used = true) : a + sizeofBlock ≤ b.addr ∨ b.fin ≤ a := by
  obtain ⟨f, hf, hfu, haf, hfa⟩ := hs.inside
  have hle : f.addr ≤ a := by omega
  rcases hl.tiles.eq_or_disjoint hf hb with rfl | hd | hd
  · rw [hfu] at hbu
    cases hbu
  · exact .inl (Nat.le_trans haf hd)
  · exact .inr (Nat.le_trans hd hle)

/-- A write into a used block does not reach it. -/
theorem StaleAt.write (hs : StaleAt m bs a) (hl : Linked m' bs) (hb : b ∈ bs)
    (hbu : b.used = true) {x : Nat} {data : List UInt8} (hlo : b.addr ≤ x)
    (hhi : x + data.length ≤ b.fin) : StaleAt (m.write x data) bs a where
  flag := by
    refine (Mem.write_off ?_).trans hs.flag
    have hoff := hs.off_used hl hb hbu
    unfold sizeofBlock at hoff
    omega
  inside := hs.inside

/-- **A further merge does not change it**: where the flag of a stale header is, `kfree` writes
nothing, and the free block around the header can only grow. -/
theorem StaleAt.kfree (hs : StaleAt h.mem bs a) (hr : Rep h bs) (hb : b ∈ bs)
    (hbu : b.used = true) (hk : Memory.kfree h (b.addr + sizeofBlock) = some h') :
    StaleAt h'.mem (release b.addr bs) a := by
  have hl := hr.linked
  obtain ⟨h₁, hk₁, _, hoff⟩ := kfree_used hr hb hbu
  obtain rfl : h₁ = h' := Option.some.inj (hk₁.symm.trans hk)
  have hused := hs.off_used hl hb hbu
  have hbfin := (hl.bounds hb).2.1
  obtain ⟨f, hf, hfu, haf, hfa⟩ := hs.inside
  refine ⟨?_, ?_⟩
  · have hout : a + 4 < b.addr ∨ b.addr + sizeofBlock ≤ a + 4 := by
      unfold sizeofBlock at *
      omega
    rw [hoff _ (.of_off hout) fun q hq _ ↦ ?_, setUsed_off hout, hs.flag]
    -- of the headers of the free blocks, only that of `f` can be at `a`
    unfold OffLinks
    rcases hl.tiles.eq_or_disjoint hq hf with rfl | hd | hd
    · unfold sizeofBlock at *
      omega
    · have := (hl.bounds hq).2.1
      unfold sizeofBlock at *
      omega
    · unfold sizeofBlock at *
      omega
  · obtain ⟨g, hg, hgu, hfg, hgf⟩ :=
      exists_release_of_free (a := b.addr) hl.tiles hl.sized hf (.inl hfu)
    exact ⟨g, hg, hgu, Nat.le_trans haf hfg, by omega⟩

/-- A block that is freed leaves a stale header. -/
theorem staleAt_of_kfree (hr : Rep h bs) (hb : b ∈ bs) (hbu : b.used = true)
    (hk : Memory.kfree h (b.addr + sizeofBlock) = some h') :
    StaleAt h'.mem (release b.addr bs) b.addr := by
  have hl := hr.linked
  obtain ⟨h₁, hk₁, _, hoff⟩ := kfree_used hr hb hbu
  obtain rfl : h₁ = h' := Option.some.inj (hk₁.symm.trans hk)
  have hbfin := (hl.bounds hb).2.1
  refine ⟨?_, ?_⟩
  · rw [hoff _ ?_ fun q hq hqu ↦ ?_]
    · exact Mem.store8_same _ _ _
    · unfold OffLinks
      omega
    · rcases hl.tiles.eq_or_disjoint hq hb with rfl | hd | hd
      · rw [hqu] at hbu
        cases hbu
      · have := (hl.bounds hq).2.1
        exact .of_off (.inr (by omega))
      · unfold sizeofBlock at hbfin
        exact .of_off (.inl (by omega))
  · obtain ⟨g, hg, hgu, hbg, hgb⟩ := exists_release_of_free hl.tiles hl.sized hb (.inr rfl)
    exact ⟨g, hg, hgu, Nat.le_trans hbfin hbg, hgb⟩

end Stale

/-! ## Runs -/

/-- What holds after `calls`, `bs₀` having been the blocks before them. -/
structure FreedSo (bs₀ : List Block) (calls : List Call) (w : Clients) (bs : List Block) :
    Prop where
  /-- the client invariant -/
  owned : Owned w.heap w.live bs
  /-- the used blocks are those whose pointers were not freed -/
  used_iff : ∀ d, d.used = true →
    (d ∈ bs ↔ d ∈ bs₀ ∧ Call.kfree (d.addr + sizeofBlock) ∉ calls)
  /-- the other ones have left stale headers -/
  stale : ∀ b ∈ bs₀, Call.kfree (b.addr + sizeofBlock) ∈ calls → StaleAt w.heap.mem bs b.addr

section Runs

variable {w₀ w w' : Clients} {bs₀ bs : List Block} {calls : List Call} {ptr off : Nat}
variable {data : List UInt8}

theorem FreedSo.nil (hw : Owned w.heap w.live bs) : FreedSo bs [] w bs :=
  ⟨hw, fun d _ ↦ by simp, fun _ _ hmem ↦ nomatch hmem⟩

/-- A pointer that was freed before is freed again: nothing happens. -/
theorem FreedSo.again (hf : FreedSo bs₀ calls w bs) (hw₀ : Owned w₀.heap w₀.live bs₀)
    (hlegal : (w₀.live ptr).isSome) (hmem : Call.kfree ptr ∈ calls) :
    Memory.kfree w.heap ptr = some w.heap ∧ w.live ptr = none := by
  obtain ⟨b, hb, _, rfl⟩ := (hw₀.live_iff ptr).mp hlegal
  refine ⟨(hf.stale b hb hmem).kfree_eq (hw₀.rep.linked.sub_header hb), ?_⟩
  rw [← Option.not_isSome_iff_eq_none, hf.owned.live_iff]
  rintro ⟨d, hd, hdu, heq⟩
  rw [← heq] at hmem
  exact ((hf.used_iff d hdu).mp hd).2 hmem

/-- A pointer that was not freed before is still live. -/
theorem FreedSo.block (hf : FreedSo bs₀ calls w bs) (hw₀ : Owned w₀.heap w₀.live bs₀)
    (hlegal : (w₀.live ptr).isSome) (hmem : Call.kfree ptr ∉ calls) :
    ∃ b ∈ bs, b.used = true ∧ b.addr + sizeofBlock = ptr := by
  obtain ⟨b, hb, hbu, rfl⟩ := (hw₀.live_iff ptr).mp hlegal
  exact ⟨b, (hf.used_iff b hbu).mpr ⟨hb, hmem⟩, hbu, rfl⟩

theorem FreedSo.kfree (hf : FreedSo bs₀ calls w bs) (hw₀ : Owned w₀.heap w₀.live bs₀)
    (hlegal : (w₀.live ptr).isSome) :
    ∃ h', Memory.kfree w.heap ptr = some h' ∧
      ∃ bs', FreedSo bs₀ (calls ++ [.kfree ptr]) ⟨h', update w.live ptr none⟩ bs' := by
  by_cases hmem : Call.kfree ptr ∈ calls
  · obtain ⟨hk, hlive⟩ := hf.again hw₀ hlegal hmem
    have hsame : ∀ q, Call.kfree q ∈ calls ++ [.kfree ptr] ↔ Call.kfree q ∈ calls := by
      intro q
      rw [List.mem_append, List.mem_singleton]
      exact ⟨fun h ↦ h.elim id fun heq ↦ heq ▸ hmem, .inl⟩
    rw [← hlive, update_eq_self]
    exact ⟨w.heap, hk, bs, hf.owned, fun d hd ↦ by rw [hsame]; exact hf.used_iff d hd,
      fun b hb h ↦ hf.stale b hb ((hsame _).mp h)⟩
  · obtain ⟨b, hb, hbu, rfl⟩ := hf.block hw₀ hlegal hmem
    obtain ⟨o, ho⟩ := Option.isSome_iff_exists.mp ((hf.owned.live_iff _).mpr ⟨b, hb, hbu, rfl⟩)
    obtain ⟨c, _, hcb, h', hk, hw'⟩ := hf.owned.kfree ho
    rw [Nat.add_right_cancel hcb] at hw'
    have hr := hf.owned.rep
    refine ⟨h', hk, release b.addr bs, hw', fun d hd ↦ ?_, fun d hd hmem' ↦ ?_⟩
    · have hne :
          d.addr ≠ b.addr ↔ Call.kfree (d.addr + sizeofBlock) ≠ .kfree (b.addr + sizeofBlock) :=
        not_congr ⟨fun h ↦ by rw [h], fun h ↦ Nat.add_right_cancel (Call.kfree.inj h)⟩
      rw [mem_release_iff hd, hf.used_iff d hd, and_assoc, List.mem_append, not_or,
        List.mem_singleton, hne]
    · rcases List.mem_append.mp hmem' with hmem' | hmem'
      · exact (hf.stale d hd hmem').kfree hr hb hbu hk
      · have heq : d.addr + sizeofBlock = b.addr + sizeofBlock :=
          Call.kfree.inj (List.mem_singleton.mp hmem')
        rw [Nat.add_right_cancel heq]
        exact staleAt_of_kfree hr hb hbu hk

theorem FreedSo.write (hf : FreedSo bs₀ calls w bs) {n : Nat} (hp : Holds w.heap ptr n)
    (hin : off + data.length ≤ n) :
    ∃ r, exec w (.write ptr off data) = some r ∧
      FreedSo bs₀ (calls ++ [.write ptr off data]) r.2 bs := by
  obtain ⟨b, hb, hbu, rfl, hsize⟩ := hf.owned.holds_iff.mp hp
  obtain ⟨o, ho⟩ := Option.isSome_iff_exists.mp ((hf.owned.live_iff _).mpr ⟨b, hb, hbu, rfl⟩)
  have hl := hf.owned.rep.linked
  have hsame : ∀ q, Call.kfree q ∈ calls ++ [.write (b.addr + sizeofBlock) off data] ↔
      Call.kfree q ∈ calls := by
    intro q
    simp
  have hfin : b.addr + sizeofBlock + off + data.length ≤ b.fin := by
    unfold Block.fin
    omega
  have hw' := hf.owned.replace (o.write off data)
    (w.heap.mem.write (b.addr + sizeofBlock + off) data) ho
    (fun c hc hcb ↦ hf.owned.room c hc o (hcb ▸ ho)) ?_ ?_
  · refine ⟨_, rfl, ?_, fun d hd ↦ by rw [hsame]; exact hf.used_iff d hd, fun d hd hmem ↦ ?_⟩
    · rw [ho]
      exact hw'
    · exact (hf.stale d hd ((hsame _).mp hmem)).write hl hb hbu (by omega) hfin
  · intro c hc hcb x hx
    obtain rfl := hl.tiles.eq_of_addr_eq hc hb (Nat.add_right_cancel hcb)
    exact Mem.write_off (by omega)
  · intro i hi v hv
    simp only [Obj.write] at hv hi
    split at hv
    · rw [show b.addr + sizeofBlock + i = b.addr + sizeofBlock + off + (i - off) by omega]
      exact Mem.write_at hv
    · rw [Mem.write_off (by omega)]
      exact hf.owned.kept _ o ho i hi v hv

/-- **The step lemma**: what is done while pointers are freed returns, and keeps the account of
them. -/
theorem FreedSo.step (hf : FreedSo bs₀ calls w bs) (hw₀ : Owned w₀.heap w₀.live bs₀) {c : Call}
    (hc : Freeing w₀ w c) :
    ∃ r, exec w c = some r ∧ ∃ bs', FreedSo bs₀ (calls ++ [c]) r.2 bs' := by
  cases c with
  | kfree ptr =>
      obtain ⟨h', hk, hf'⟩ := hf.kfree hw₀ hc
      exact ⟨(null, ⟨h', update w.live ptr none⟩), by simp only [exec, hk]; rfl, hf'⟩
  | write ptr off data =>
      obtain ⟨n, hp, hin⟩ := hc
      obtain ⟨r, hexec, hf'⟩ := hf.write hp hin
      exact ⟨r, hexec, bs, hf'⟩
  | kmalloc => cases hc
  | kcalloc => cases hc
  | krealloc => cases hc

/-- **The run lemma.** -/
theorem FreedSo.run (hw₀ : Owned w₀.heap w₀.live bs₀)
    (hrun : Run (ClientStep (Freeing w₀)) w₀ calls w) : ∃ bs, FreedSo bs₀ calls w bs := by
  refine hrun.trace_invariant (I := fun calls w ↦ ∃ bs, FreedSo bs₀ calls w bs) ?_
    ⟨bs₀, .nil hw₀⟩
  rintro calls w c w' ⟨bs, hf⟩ ⟨hc, ptr, hexec⟩
  obtain ⟨r, hr, hf'⟩ := hf.step hw₀ hc
  rw [hexec] at hr
  cases hr
  exact hf'

end Runs

/-- **Freeing twice is harmless** until the next allocation.  From any reachable state, however
the pointers live there are freed and freed again, with writes to what is still live in between:
every call returns; to free a pointer that was freed before leaves the whole heap as it is; and
the block list that results depends on the set of the pointers freed alone. -/
theorem reachable_double_free {w₀ : Clients} (hr : Reachable (Legal heapSize) w₀) :
    (∀ calls w, Run (ClientStep (Freeing w₀)) w₀ calls w →
      (∀ c, Freeing w₀ w c → ∃ r, exec w c = some r) ∧
      (∀ ptr, Call.kfree ptr ∈ calls → kfree w.heap ptr = some w.heap) ∧
      ∃ bs, BlockList w.heap.mem w.heap.heapStart bs) ∧
    ∀ calls calls' w w' bs bs', Run (ClientStep (Freeing w₀)) w₀ calls w →
      Run (ClientStep (Freeing w₀)) w₀ calls' w' →
      (∀ ptr, Call.kfree ptr ∈ calls ↔ Call.kfree ptr ∈ calls') →
      BlockList w.heap.mem w.heap.heapStart bs → BlockList w'.heap.mem w'.heap.heapStart bs' →
        bs = bs' ∧ w.heap.usedMemory = w'.heap.usedMemory := by
  obtain ⟨bs₀, hw₀⟩ := (hr.mono fun _ _ ↦ Legal.careful (by decide)).owned
  refine ⟨fun calls w hrun ↦ ?_, ?_⟩
  · obtain ⟨bs, hf⟩ := FreedSo.run hw₀ hrun
    refine ⟨fun c hc ↦ ?_, fun ptr hmem ↦ ?_, bs, BlockList.of_rep hf.owned.rep⟩
    · obtain ⟨r, hexec, _⟩ := hf.step hw₀ hc
      exact ⟨r, hexec⟩
    · have hlegal : Freeing w₀ w (.kfree ptr) :=
        hrun.forall_mem (P := fun c ↦ ∀ ptr, c = .kfree ptr → (w₀.live ptr).isSome)
          (by rintro s _ s' ⟨hc, _⟩ ptr rfl; exact hc) _ hmem ptr rfl
      exact (hf.again hw₀ hlegal hmem).1
  · intro calls calls' w w' bs bs' hrun hrun' hsame hbs hbs'
    obtain ⟨cs, hf⟩ := FreedSo.run hw₀ hrun
    obtain ⟨cs', hf'⟩ := FreedSo.run hw₀ hrun'
    obtain rfl := BlockList.eq_of_rep hf.owned.rep hbs
    obtain rfl := BlockList.eq_of_rep hf'.owned.rep hbs'
    refine hf.owned.rep.eq_of_used hf'.owned.rep fun d hd ↦ ?_
    rw [hf.used_iff d hd, hf'.used_iff d hd, hsame]

/-- The one allocation of a heap is freed, and may be freed again. -/
theorem reachable_double_free_once : ∃ w₀ w : Clients,
    Run (ClientStep (Freeing w₀)) w₀ [.kfree (heapStart + sizeofBlock)] w ∧
      kfree w.heap (heapStart + sizeofBlock) = some w.heap := by
  have ha : alloc (totalSize 16) splitSlack
      [{ addr := heapStart, size := heapSize, used := false }] =
      some ({ addr := heapStart, size := 28, used := true },
        [{ addr := heapStart, size := 28, used := true },
          { addr := heapStart + 28, size := 4194276, used := false }]) := by decide
  have hw₀ : Owned (Clients.init fun _ ↦ 0).heap (Clients.init fun _ ↦ 0).live _ := Owned.init _
  obtain ⟨w₀, hexec, hlive, _⟩ := hw₀.exec_kmalloc (by decide : 0 < 16) (by decide) ha
  have hr : Reachable (Legal heapSize) w₀ :=
    ⟨_, [.kmalloc 16], .single ⟨show 16 ≤ heapSize by decide, _, hexec⟩⟩
  have hlegal : Freeing w₀ w₀ (.kfree (heapStart + sizeofBlock)) := by
    simp [Freeing, hlive]
  have hfree := reachable_double_free hr
  obtain ⟨r, hkfree⟩ := (hfree.1 [] _ (.nil _)).1 _ hlegal
  have hrun := Run.single (show ClientStep (Freeing _) _ _ _ from ⟨hlegal, _, hkfree⟩)
  exact ⟨_, r.2, hrun, (hfree.1 _ _ hrun).2.1 _ List.mem_cons_self⟩

end KontolOS.Memory
