import KontolOS.Memory.Clients

/-!
# Every legal call keeps the client invariant

`kcalloc` and `krealloc` are put together from `kmalloc`, `kfree` and the byte loops,
and their effect on the clients' record follows from that of the parts.  The step lemma
`Owned.step` says that a careful call on a heap that satisfies the invariant returns, and
that the invariant holds again.  From it the invariant holds in every reachable state.
-/

namespace KontolOS.Memory

open KontolOS.Lib Function

/-! ## The byte loops -/

/-- `memset` writes `n` copies of its byte. -/
theorem memset_eq_write (m : Mem) (s : Nat) (c : UInt8) (n : Nat) :
    memset m s c n = m.write s (List.replicate n c) := by
  induction n generalizing m s with
  | zero => simp [memset]
  | succ n ih => rw [memset, ih, List.replicate_succ, Mem.write_cons]

/-- `memcpy` copies the source if it does not overwrite what it has not read yet. -/
theorem memcpy_eq_write_of_le {m : Mem} {dest src n : Nat} (h : dest ≤ src ∨ src + n ≤ dest) :
    memcpy m dest src n = m.write dest (m.bytes src n) := by
  induction n generalizing m dest src with
  | zero => simp [memcpy, Mem.bytes]
  | succ n ih =>
      have hrest : (m.store8 dest (m src)).bytes (src + 1) n = m.bytes (src + 1) n :=
        Mem.bytes_congr fun i hi ↦ Mem.store8_of_ne (by omega)
      rw [memcpy, ih (by omega), Mem.bytes_succ, Mem.write_cons, hrest]

/-- Between disjoint ranges `memcpy` copies the source. -/
theorem memcpy_eq_write {m : Mem} {dest src n : Nat} (h : dest + n ≤ src ∨ src + n ≤ dest) :
    memcpy m dest src n = m.write dest (m.bytes src n) :=
  memcpy_eq_write_of_le (h.imp_left (Nat.le_trans (Nat.le_add_right dest n)))

namespace Owned

variable {h : Heap} {live : Live} {bs : List Block} {p size num : Nat} {o : Obj}

/-! ## The composite calls -/

/-- **`kcalloc`**: `NULL`, or a fresh allocation full of zeros. -/
theorem kcalloc (hw : Owned h live bs) (hs : Harmless h (mul32 num size)) :
    kcalloc h num size = some (null, h) ∨
    ∃ ptr h' bs', kcalloc h num size = some (ptr, h') ∧ ptr ≠ null ∧ live ptr = none ∧
      Owned h' (update live ptr (some ⟨mul32 num size, fun _ ↦ some 0⟩)) bs' := by
  unfold Memory.kcalloc
  rcases hw.kmalloc hs with hk | ⟨b, bs', h', ha, hk, hfresh, hw'⟩
  · exact .inl (by simp [hk])
  · have hptr : b.addr + sizeofBlock ≠ null := by unfold sizeofBlock null; omega
    have hzero := hw'.overwrite ⟨mul32 num size, fun _ ↦ some 0⟩
      (m := memset h'.mem (b.addr + sizeofBlock) 0 (mul32 num size)) (update_self _ _ _)
      (Nat.le_refl _) ?_ ?_
    · rw [update_idem] at hzero
      exact .inr ⟨b.addr + sizeofBlock, _, bs', by simp [hk, hptr], hptr, hfresh, hzero⟩
    · intro x hx
      rw [memset_eq_write]
      exact Mem.write_off (by rw [List.length_replicate]; exact hx)
    · intro i hi v hv
      cases hv
      rw [memset_eq_write]
      exact Mem.write_at (by rw [List.getElem?_replicate]; exact if_pos hi)

/-- `krealloc` in place: the block has room for what is requested. -/
theorem resize (hw : Owned h live bs) {b : Block} (hb : b ∈ bs)
    (hp : live (b.addr + sizeofBlock) = some o) (hfit : size ≤ b.size - sizeofBlock) :
    Owned h (update live (b.addr + sizeofBlock) (some (o.resize size))) bs := by
  have hl := hw.rep.linked
  have hsized := (hl.sized b hb).1
  refine replace _ h.mem hw hp (fun c hc hcp ↦ ?_) (fun _ _ _ _ _ ↦ rfl) fun i _ v hv ↦ ?_
  · have hsame := hl.tiles.eq_of_addr_eq hc hb (by omega)
    rw [hsame]
    change size + sizeofBlock ≤ b.size
    omega
  · simp only [Obj.resize] at hv
    split at hv
    · exact hw.kept _ o hp i ‹_› v hv
    · cases hv

/-- `krealloc` into a new block: the bytes of the old block are copied, which is then freed. -/
theorem move (hw : Owned h live bs) {b c : Block} (hb : b ∈ bs) (hc : c ∈ bs)
    (hne : c.addr + sizeofBlock ≠ b.addr + sizeofBlock)
    (hpb : live (b.addr + sizeofBlock) = some o)
    (hpc : live (c.addr + sizeofBlock) = some (.fresh size))
    (hgrow : b.size - sizeofBlock ≤ size) :
    ∃ h', Memory.kfree
        { h with
          mem := memcpy h.mem (c.addr + sizeofBlock) (b.addr + sizeofBlock)
            (b.size - sizeofBlock) } (b.addr + sizeofBlock) = some h' ∧
      Owned h' (update (update live (c.addr + sizeofBlock) (some (o.resize size)))
        (b.addr + sizeofBlock) none) (release b.addr bs) := by
  have hl := hw.rep.linked
  have hreq := hw.room b hb o hpb
  have hroom : size + sizeofBlock ≤ c.size := hw.room c hc (.fresh size) hpc
  have hdisj : c.addr + sizeofBlock + (b.size - sizeofBlock) ≤ b.addr + sizeofBlock ∨
      b.addr + sizeofBlock + (b.size - sizeofBlock) ≤ c.addr + sizeofBlock := by
    rcases hl.tiles.eq_or_disjoint hc hb with heq | hd | hd
    · exact absurd (congrArg (fun d ↦ d.addr + sizeofBlock) heq) hne
    · unfold Block.fin at hd
      omega
    · unfold Block.fin at hd
      omega
  have hcopied := hw.overwrite (o.resize size)
    (m := memcpy h.mem (c.addr + sizeofBlock) (b.addr + sizeofBlock) (b.size - sizeofBlock))
    hpc (Nat.le_refl _) ?_ ?_
  · obtain ⟨d, _, hd, h', hfree, hw'⟩ := hcopied.kfree (p := b.addr + sizeofBlock) (o := o)
      (by rw [update_of_ne hne.symm, hpb])
    rw [Nat.add_right_cancel hd] at hw'
    exact ⟨h', hfree, hw'⟩
  · intro x hx
    change x < _ ∨ _ + size ≤ x at hx
    rw [memcpy_eq_write hdisj]
    refine Mem.write_off ?_
    rw [Mem.length_bytes]
    omega
  · intro i hi v hv
    simp only [Obj.resize] at hv
    split at hv
    · rename_i hio
      rw [memcpy_eq_write hdisj, Mem.write_at (Mem.getElem?_bytes (by omega))]
      exact hw.kept _ o hpb i hio v hv
    · cases hv

/-- `krealloc` to more than the block has room for, when `kmalloc` grants the block `c`. -/
theorem krealloc_moves (hw : Owned h live bs) {b c : Block} {bs' : List Block} {h₁ : Heap}
    (hb : b ∈ bs) (hp : live (b.addr + sizeofBlock) = some o) (hpos : 0 < size)
    (hgrow : ¬ size ≤ b.size - sizeofBlock)
    (ha : alloc (totalSize size) splitSlack bs = some (c, bs'))
    (hk : Memory.kmalloc h size = some (c.addr + sizeofBlock, h₁))
    (hfresh : live (c.addr + sizeofBlock) = none)
    (hw₁ : Owned h₁ (update live (c.addr + sizeofBlock) (some (.fresh size))) bs') :
    ∃ h', Memory.krealloc h (b.addr + sizeofBlock) size = some (c.addr + sizeofBlock, h') ∧
      Owned h' (update (update live (b.addr + sizeofBlock) none) (c.addr + sizeofBlock)
        (some (o.resize size))) (release b.addr bs') := by
  have hl := hw.rep.linked
  have hbu : b.used = true := by
    obtain ⟨d, hd, hdu, hdb, _⟩ := hw.block_of_live hp
    rwa [← hl.tiles.eq_of_addr_eq hd hb (Nat.add_right_cancel hdb)]
  have hptr : b.addr + sizeofBlock ≠ null := by unfold sizeofBlock null; omega
  have hnew : c.addr + sizeofBlock ≠ null := by unfold sizeofBlock null; omega
  have hne : c.addr + sizeofBlock ≠ b.addr + sizeofBlock := fun heq ↦ by
    rw [heq, hp] at hfresh
    cases hfresh
  obtain ⟨h₃, hfree, hw₃⟩ := hw₁.move ((mem_alloc_iff ha hbu).mpr (.inl hb)) (alloc_mem ha) hne
    (by rw [update_of_ne hne.symm, hp]) (update_self _ _ _) (Nat.le_of_not_le hgrow)
  rw [update_idem, update_comm hne] at hw₃
  refine ⟨h₃, ?_, hw₃⟩
  unfold Memory.krealloc
  simp [hl.sub_header hb, hl.sub_size hb, hptr, Nat.ne_of_gt hpos, hgrow, hk, hnew, hfree]

/-- **`krealloc`** of a live pointer to a positive size: `NULL` with nothing changed, or a
pointer, old or new, to an allocation with the old bytes carried over.  The other used blocks
stay as they are. -/
theorem krealloc (hw : Owned h live bs) (hp : live p = some o) (hpos : 0 < size)
    (hs : Harmless h size) :
    krealloc h p size = some (null, h) ∨
    ∃ ptr h' bs', krealloc h p size = some (ptr, h') ∧ ptr ≠ null ∧
      (ptr = p ∨ live ptr = none) ∧
      Owned h' (update (update live p none) ptr (some (o.resize size))) bs' ∧
      ∀ d, d.used = true → d.addr + sizeofBlock ≠ p → d.addr + sizeofBlock ≠ ptr →
        (d ∈ bs' ↔ d ∈ bs) := by
  obtain ⟨b, hb, hbu, rfl, _⟩ := hw.block_of_live hp
  have hl := hw.rep.linked
  have hptr : b.addr + sizeofBlock ≠ null := by unfold sizeofBlock null; omega
  by_cases hfit : size ≤ b.size - sizeofBlock
  · refine .inr ⟨b.addr + sizeofBlock, h, bs, ?_, hptr, .inl rfl, ?_, fun _ _ _ _ ↦ Iff.rfl⟩
    · unfold Memory.krealloc
      simp [hl.sub_header hb, hl.sub_size hb, hptr, Nat.ne_of_gt hpos, hfit]
    · rw [update_idem]
      exact hw.resize hb hp hfit
  · rcases hw.kmalloc hs with hk | ⟨c, bs', h₁, ha, hk, hfresh, hw₁⟩
    · left
      unfold Memory.krealloc
      simp [hl.sub_header hb, hl.sub_size hb, hptr, Nat.ne_of_gt hpos, hfit, hk]
    · have hnew : c.addr + sizeofBlock ≠ null := by unfold sizeofBlock null; omega
      obtain ⟨h', hre, hw'⟩ := hw.krealloc_moves hb hp hpos hfit ha hk hfresh hw₁
      refine .inr ⟨c.addr + sizeofBlock, h', release b.addr bs', hre, hnew, .inr hfresh, hw',
        fun d hd hdp hdc ↦ ?_⟩
      have hdb : d.addr ≠ b.addr := fun heq ↦ hdp (by rw [heq])
      have hdc' : d ≠ c := fun heq ↦ hdc (by rw [heq])
      rw [mem_release_iff hd, mem_alloc_iff ha hd, and_iff_left hdb, or_iff_left hdc']

/-! ## The step lemma -/

/-- `kmalloc` by one group of clients: the others keep what they hold. -/
theorem kmalloc_join {rest : Live} (hw : Owned h (live.join rest) bs) (hrest : live.Apart rest)
    (hs : Harmless h size) :
    ∃ ptr h', Memory.kmalloc h size = some (ptr, h') ∧
      (live.grant ptr (.fresh size)).Apart rest ∧
      ∃ bs', Owned h' ((live.grant ptr (.fresh size)).join rest) bs' := by
  rcases hw.kmalloc hs with hk | ⟨b, bs', h', _, hk, hnone, hw'⟩
  · refine ⟨null, h, hk, ?_⟩
    rw [Live.grant_null]
    exact ⟨hrest, bs, hw⟩
  · have hptr : b.addr + sizeofBlock ≠ null := Nat.ne_of_gt (Nat.succ_pos _)
    have hfresh : rest (b.addr + sizeofBlock) = none := (Option.or_eq_none_iff.mp hnone).2
    refine ⟨b.addr + sizeofBlock, h', hk, ?_⟩
    rw [Live.grant_of_ne hptr, join_update hfresh]
    exact ⟨hrest.update hfresh _, bs', hw'⟩

/-- `kfree` by one group of clients. -/
theorem kfree_join {rest : Live} (hw : Owned h (live.join rest) bs) (hrest : live.Apart rest)
    (hp : live p = some o) :
    ∃ h', Memory.kfree h p = some h' ∧ Live.Apart (update live p none) rest ∧
      ∃ bs', Owned h' (Live.join (update live p none) rest) bs' := by
  obtain ⟨b, _, _, h', hfree, hw'⟩ := hw.kfree (join_of_some hp)
  have hr : rest p = none := hrest p (by rw [hp]; rfl)
  refine ⟨h', hfree, hrest.update hr _, release b.addr bs, ?_⟩
  rw [join_update hr]
  exact hw'

/-- `krealloc` by one group of clients, to a positive size. -/
theorem krealloc_join {rest : Live} (hw : Owned h (live.join rest) bs) (hrest : live.Apart rest)
    (hp : live p = some o) (hpos : 0 < size) (hs : Harmless h size) :
    Memory.krealloc h p size = some (null, h) ∨
    ∃ ptr h', Memory.krealloc h p size = some (ptr, h') ∧ ptr ≠ null ∧
      (Live.grant (update live p none) ptr (o.resize size)).Apart rest ∧
      ∃ bs', Owned h' ((Live.grant (update live p none) ptr (o.resize size)).join rest) bs' := by
  have hr : rest p = none := hrest p (by rw [hp]; rfl)
  rcases hw.krealloc (join_of_some hp) hpos hs with
    hk | ⟨ptr, h', bs', hk, hptr, hfrom, hw', _⟩
  · exact .inl hk
  · -- the new block is the old one, or nobody's
    have hr' : rest ptr = none := hfrom.elim (fun heq ↦ heq ▸ hr) fun hnone ↦
      (Option.or_eq_none_iff.mp hnone).2
    refine .inr ⟨ptr, h', hk, hptr, ?_⟩
    rw [Live.grant_of_ne hptr, join_update hr', join_update hr]
    exact ⟨(hrest.update hr _).update hr' _, bs', hw'⟩

/-- **The step lemma**: a careful call returns, and keeps the client invariant.  It leaves
alone what others hold, who may use the heap at the same time. -/
theorem step {w : Clients} {rest : Live} {c : Call} (hw : Owned w.heap (w.live.join rest) bs)
    (hrest : w.live.Apart rest) (hc : Careful w c) :
    ∃ r, exec w c = some r ∧ r.2.live.Apart rest ∧
      ∃ bs', Owned r.2.heap (r.2.live.join rest) bs' := by
  have hfresh : ∀ {ptr : Nat}, w.live.join rest ptr = none → rest ptr = none :=
    fun h ↦ (Option.or_eq_none_iff.mp h).2
  have hnull : w.live null = none := (Option.or_eq_none_iff.mp hw.live_null).1
  cases c with
  | kmalloc size =>
      obtain ⟨ptr, h', hk, hw'⟩ := hw.kmalloc_join hrest hc.2
      exact ⟨_, by simp only [exec, hk]; rfl, hw'⟩
  | kcalloc num size =>
      rcases hw.kcalloc hc with hk | ⟨ptr, h', bs', hk, hne, hnone, hw'⟩
      · refine ⟨(null, ⟨w.heap, w.live⟩), ?_, hrest, bs, hw⟩
        simp [exec, hk, Live.grant_null]
      · refine ⟨(ptr, ⟨h', update w.live ptr (some ⟨mul32 num size, fun _ ↦ some 0⟩)⟩), ?_,
          hrest.update (hfresh hnone) _, bs', ?_⟩
        · simp [exec, hk, Live.grant_of_ne hne]
        · rw [← join_update (hfresh hnone)] at hw'
          exact hw'
  | krealloc ptr size =>
      obtain ⟨hptr, _, hsize⟩ := hc
      cases hp : w.live ptr with
      | none =>
          obtain rfl : ptr = null := by simpa [hp] using hptr
          -- `krealloc` of `NULL` is `kmalloc`
          obtain ⟨newPtr, h', hk, hw'⟩ := hw.kmalloc_join hrest hsize
          have hre : Memory.krealloc w.heap null size = some (newPtr, h') := hk
          exact ⟨_, by simp only [exec, hre, hp]; rfl, hw'⟩
      | some o =>
          have hne : ptr ≠ null := fun h ↦ by rw [h, hnull] at hp; cases hp
          rcases Nat.eq_zero_or_pos size with rfl | hpos
          · -- `krealloc` to nothing is `kfree`
            obtain ⟨h', hk, hw'⟩ := hw.kfree_join hrest hp
            have hre : Memory.krealloc w.heap ptr 0 = some (null, h') := by
              simp [Memory.krealloc, hne, hk]
            exact ⟨_, by simp only [exec, hre, hp]; rfl, hw'⟩
          · rcases hw.krealloc_join hrest hp hpos hsize with
              hre | ⟨newPtr, h', hre, hnew, hw'⟩
            · refine ⟨(null, ⟨w.heap, w.live⟩), ?_, hrest, bs, hw⟩
              simp [exec, hre, hp, Nat.ne_of_gt hpos]
            · exact ⟨_, by simp [exec, hre, hp, Nat.ne_of_gt hpos, hnew]; rfl, hw'⟩
  | kfree ptr =>
      cases hp : w.live ptr with
      | none =>
          obtain rfl : ptr = null := by simpa [Careful, hp] using hc
          refine ⟨(null, ⟨w.heap, update w.live null none⟩), rfl, ?_⟩
          change Live.Apart (update w.live null none) rest ∧
            ∃ bs', Owned w.heap (Live.join (update w.live null none) rest) bs'
          rw [← hp, update_eq_self]
          exact ⟨hrest, bs, hw⟩
      | some o =>
          obtain ⟨h', hk, hw'⟩ := hw.kfree_join hrest hp
          exact ⟨_, by simp only [exec, hk]; rfl, hw'⟩
  | write ptr off data =>
      obtain ⟨o, hp, hin⟩ := hc
      have hr : rest ptr = none := hrest ptr (by rw [hp]; rfl)
      refine ⟨_, rfl, ?_⟩
      change Live.Apart ((w.live ptr).elim w.live _) rest ∧
        ∃ bs', Owned _ (Live.join ((w.live ptr).elim w.live _) rest) bs'
      rw [hp]
      refine ⟨hrest.update hr _, bs, ?_⟩
      change Owned _ (Live.join (update w.live ptr _) rest) bs
      rw [join_update hr]
      exact hw.write (join_of_some hp) hin

/-- `memory_init` establishes the client invariant. -/
theorem init (m : Mem) :
    Owned (memoryInit m) (fun _ ↦ none)
      [{ addr := heapStart, size := heapSize, used := false }] := by
  refine ⟨⟨⟨⟨rfl, by decide, rfl⟩, ?_, ?_⟩, List.isChain_singleton _, rfl, rfl, rfl⟩, ?_, ?_, ?_⟩
  · intro b hb
    rw [List.mem_singleton] at hb
    subst hb
    decide
  · intro b hb
    rw [List.mem_singleton] at hb
    subst hb
    refine ⟨?_, ?_, ?_⟩ <;> simp only [memoryInit, blockSize_setNext, blockSize_setUsed,
      blockSize_setSize, blockUsed_setNext, blockUsed_setUsed, blockNext_setNext] <;> rfl
  · simp
  · intro _ _ _ ho
    cases ho
  · intro _ _ ho
    cases ho

end Owned

/-- **The invariant over runs**: in every reachable state some block list is in memory and
ties the bytes of the heap to the live allocations. -/
theorem Reachable.owned {w : Clients} (hr : Reachable Careful w) :
    ∃ bs, Owned w.heap w.live bs := by
  obtain ⟨m, calls, hrun⟩ := hr
  refine hrun.invariant (I := fun w ↦ ∃ bs, Owned w.heap w.live bs) ?_ ⟨_, Owned.init m⟩
  rintro w c w' ⟨bs, hw⟩ ⟨hc, ptr, hexec⟩
  rw [← join_nobody w.live] at hw
  obtain ⟨r, hr, _, hw'⟩ := hw.step (fun _ _ ↦ rfl) hc
  rw [hexec] at hr
  cases hr
  rw [join_nobody] at hw'
  exact hw'

/-! ## Calls on a known block list -/

section Known

variable {w : Clients} {bs bs' : List Block} {b c : Block} {a p size : Nat} {o : Obj}

/-- `kmalloc`, when first fit takes the block `b`. -/
theorem Owned.exec_kmalloc (hw : Owned w.heap w.live bs) (hpos : 0 < size)
    (hmax : size ≤ maxRequest) (ha : alloc (totalSize size) splitSlack bs = some (b, bs')) :
    ∃ w', exec w (.kmalloc size) = some (b.addr + sizeofBlock, w') ∧
      w'.live = update w.live (b.addr + sizeofBlock) (some (.fresh size)) ∧
      Owned w'.heap w'.live bs' := by
  obtain ⟨h', hk, _, hw'⟩ := hw.kmalloc_some hpos hmax ha
  have hptr : b.addr + sizeofBlock ≠ null := Nat.ne_of_gt (Nat.succ_pos _)
  refine ⟨⟨h', update w.live (b.addr + sizeofBlock) (some (.fresh size))⟩, ?_, rfl, hw'⟩
  simp [exec, hk, Live.grant_of_ne hptr]

/-- `kfree` of a live pointer. -/
theorem Owned.exec_kfree (hw : Owned w.heap w.live bs) (hp : w.live (a + sizeofBlock) = some o) :
    ∃ w', exec w (.kfree (a + sizeofBlock)) = some (null, w') ∧
      w'.live = update w.live (a + sizeofBlock) none ∧ Owned w'.heap w'.live (release a bs) := by
  obtain ⟨b, _, hb, h', hk, hw'⟩ := hw.kfree hp
  rw [Nat.add_right_cancel hb] at hw'
  refine ⟨⟨h', update w.live (a + sizeofBlock) none⟩, ?_, rfl, hw'⟩
  simp [exec, hk]

/-- `krealloc` that takes the new block `c`. -/
theorem Owned.exec_krealloc (hw : Owned w.heap w.live bs) (hb : b ∈ bs)
    (hp : w.live (b.addr + sizeofBlock) = some o) (hgrow : ¬ size ≤ b.size - sizeofBlock)
    (hmax : size ≤ maxRequest) (ha : alloc (totalSize size) splitSlack bs = some (c, bs')) :
    ∃ w', exec w (.krealloc (b.addr + sizeofBlock) size) = some (c.addr + sizeofBlock, w') ∧
      w'.live = update (update w.live (b.addr + sizeofBlock) none) (c.addr + sizeofBlock)
        (some (o.resize size)) ∧
      Owned w'.heap w'.live (release b.addr bs') := by
  have hpos : 0 < size := by omega
  obtain ⟨h₁, hk, hfresh, hw₁⟩ := hw.kmalloc_some hpos hmax ha
  obtain ⟨h', hre, hw'⟩ := hw.krealloc_moves hb hp hpos hgrow ha hk hfresh hw₁
  have hptr : c.addr + sizeofBlock ≠ null := Nat.ne_of_gt (Nat.succ_pos _)
  refine ⟨⟨h', update (update w.live (b.addr + sizeofBlock) none) (c.addr + sizeofBlock)
    (some (o.resize size))⟩, ?_, rfl, hw'⟩
  simp only [exec, hre, hp, Nat.ne_of_gt hpos, hptr, Live.grant_of_ne hptr, ↓reduceIte,
    Option.bind_eq_bind, Option.bind_some, Option.pure_def]

/-- A write of a client. -/
theorem Owned.exec_write (hw : Owned w.heap w.live bs) (hp : w.live p = some o) {off : Nat}
    {data : List UInt8} (hin : off + data.length ≤ o.req) :
    ∃ w', exec w (.write p off data) = some (null, w') ∧
      w'.live = update w.live p (some (o.write off data)) ∧ Owned w'.heap w'.live bs := by
  refine ⟨⟨_, update w.live p (some (o.write off data))⟩, ?_, rfl, hw.write hp hin⟩
  simp [exec, hp]

end Known

/-! ## A fragmented heap -/

/-- Two clients allocate and write.  The first one needs more, and its block is moved; a small
allocation takes a part of the hole, and the second client frees its block. -/
def fragmenting : List Call :=
  [.kmalloc 100, .kmalloc 200, .write (heapStart + sizeofBlock) 0 [1, 2, 3],
    .write (heapStart + 116 + sizeofBlock) 5 [4, 5], .krealloc (heapStart + sizeofBlock) 300,
    .kmalloc 50, .write (heapStart + sizeofBlock) 10 [6], .kfree (heapStart + 116 + sizeofBlock)]

/-- What `fragmenting` leaves: the small block, a hole, the block that was moved, and the rest. -/
def fragments : List Block :=
  [⟨heapStart, 68, true⟩, ⟨heapStart + 68, 260, false⟩, ⟨heapStart + 328, 316, true⟩,
    ⟨heapStart + 644, heapSize - 644, false⟩]

/-- **A use of the heap in which each call but `kcalloc` has its part.** -/
theorem fragmented (m : Mem) :
    ∃ w, Run (ClientStep (Legal heapSize)) (Clients.init m) fragmenting w ∧
      Owned w.heap w.live fragments ∧
      w.live (heapStart + sizeofBlock) = some ((Obj.fresh 50).write 10 [6]) ∧
      w.live (heapStart + 328 + sizeofBlock) =
        some (((Obj.fresh 100).write 0 [1, 2, 3]).resize 300) := by
  have hw₀ : Owned (Clients.init m).heap (Clients.init m).live _ := Owned.init m
  obtain ⟨w₁, h₁, l₁, hw₁⟩ := hw₀.exec_kmalloc (by decide : 0 < 100) (by decide)
    (show _ = some (⟨heapStart, 116, true⟩,
      [⟨heapStart, 116, true⟩, ⟨heapStart + 116, heapSize - 116, false⟩]) by decide)
  obtain ⟨w₂, h₂, l₂, hw₂⟩ := hw₁.exec_kmalloc (by decide : 0 < 200) (by decide)
    (show _ = some (⟨heapStart + 116, 212, true⟩, [⟨heapStart, 116, true⟩,
      ⟨heapStart + 116, 212, true⟩, ⟨heapStart + 328, heapSize - 328, false⟩]) by decide)
  have hp₂ : w₂.live (heapStart + sizeofBlock) = some (.fresh 100) := by simp [l₂, l₁]
  obtain ⟨w₃, h₃, l₃, hw₃⟩ := hw₂.exec_write hp₂
    (by decide : 0 + ([1, 2, 3] : List UInt8).length ≤ 100)
  have hq₃ : w₃.live (heapStart + 116 + sizeofBlock) = some (.fresh 200) := by simp [l₃, l₂]
  obtain ⟨w₄, h₄, l₄, hw₄⟩ := hw₃.exec_write hq₃
    (by decide : 5 + ([4, 5] : List UInt8).length ≤ 200)
  have hp₄ : w₄.live (heapStart + sizeofBlock) = some ((Obj.fresh 100).write 0 [1, 2, 3]) := by
    simp [l₄, l₃]
  obtain ⟨w₅, h₅, l₅, hw₅⟩ := hw₄.exec_krealloc (b := ⟨heapStart, 116, true⟩) List.mem_cons_self
    hp₄ (by decide : ¬ 300 ≤ 116 - sizeofBlock) (by decide)
    (show _ = some (⟨heapStart + 328, 316, true⟩, [⟨heapStart, 116, true⟩,
      ⟨heapStart + 116, 212, true⟩, ⟨heapStart + 328, 316, true⟩,
      ⟨heapStart + 644, heapSize - 644, false⟩]) by decide)
  obtain ⟨w₆, h₆, l₆, hw₆⟩ := hw₅.exec_kmalloc (by decide : 0 < 50) (by decide)
    (show _ = some (⟨heapStart, 68, true⟩, [⟨heapStart, 68, true⟩, ⟨heapStart + 68, 48, false⟩,
      ⟨heapStart + 116, 212, true⟩, ⟨heapStart + 328, 316, true⟩,
      ⟨heapStart + 644, heapSize - 644, false⟩]) by decide)
  have hr₆ : w₆.live (heapStart + sizeofBlock) = some (.fresh 50) := by simp [l₆]
  obtain ⟨w₇, h₇, l₇, hw₇⟩ := hw₆.exec_write hr₆ (by decide : 10 + ([6] : List UInt8).length ≤ 50)
  have hq₇ : w₇.live (heapStart + 116 + sizeofBlock) = some ((Obj.fresh 200).write 5 [4, 5]) := by
    simp [l₇, l₆, l₅, l₄]
  obtain ⟨w₈, h₈, l₈, hw₈⟩ := hw₇.exec_kfree hq₇
  refine ⟨w₈, ?_, hw₈, ?_, ?_⟩
  · exact .cons ⟨(by decide : 100 ≤ heapSize), _, h₁⟩ <|
      .cons ⟨(by decide : 200 ≤ heapSize), _, h₂⟩ <|
      .cons ⟨⟨_, hp₂, by decide⟩, _, h₃⟩ <| .cons ⟨⟨_, hq₃, by decide⟩, _, h₄⟩ <|
      .cons ⟨⟨.inr (by simp [hp₄]), by decide⟩, _, h₅⟩ <|
      .cons ⟨(by decide : 50 ≤ heapSize), _, h₆⟩ <| .cons ⟨⟨_, hr₆, by decide⟩, _, h₇⟩ <|
      .single ⟨.inr (by simp [hq₇]), _, h₈⟩
  · simp [l₈, l₇]
  · simp [l₈, l₇, l₆, l₅]

end KontolOS.Memory
