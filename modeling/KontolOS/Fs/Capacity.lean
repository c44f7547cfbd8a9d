import Mathlib.Data.List.FinRange
import KontolOS.Fs.Spare
import KontolOS.Memory.Crowd

/-!
# Whether memory suffices

The table has 64 entries, and each of them owns at most one block.  If no block is larger than `m`,
and the rest of the program owns few blocks only, then first fit cannot fail, in whatever
order the blocks were allocated and freed: with 64 and `k` blocks that are used there are at most
one more gaps, and one of them is large enough if `(2 * (64 + k) + 1) * m` bytes are in the heap
(`Modest.room`).  `Modest` says so of a state, and the calls of the filesystem and of the
memory manager keep it.
-/

namespace KontolOS.Fs

open KontolOS.Lib KontolOS.Memory KontolOS.Strings Function

/-- The heap is large enough for another block of `m` bytes beside the data of the files and `k`
other blocks of at most this size. -/
def Affords (m k : Nat) : Prop := (2 * (fsMaxFiles + k) + 1) * m ≤ heapSize

instance (m k : Nat) : Decidable (Affords m k) := inferInstanceAs (Decidable (_ ≤ _))

theorem Affords.mono {m k k' : Nat} (h : Affords m k) (hle : k' ≤ k) : Affords m k' := by
  have hcount : 2 * (fsMaxFiles + k') + 1 ≤ 2 * (fsMaxFiles + k) + 1 := by omega
  exact Nat.le_trans (Nat.mul_le_mul_right m hcount) h

/-- No block is larger than `m`, and the others own those at `ptrs`. -/
structure Modest (m : Nat) (ptrs : List Nat) (s : Sys) (others : Live) : Prop where
  /-- the filesystem and the heap are in order, without leaks -/
  inv : Inv True s others
  /-- no used block is larger than `m` -/
  small : Small s.heap m
  /-- the allocations of the others are those at `ptrs` -/
  held : ∀ p, (others p).isSome ↔ p ∈ ptrs
  /-- which are different -/
  nodup : ptrs.Nodup

variable {m k p size : Nat} {ptrs ptrs' : List Nat} {s s' : Sys} {others : Live} {i : Slot}
  {n buf src : List UInt8} {heap : Heap}

/-- Room that does not need the block of `p` is there when this block is freed. -/
theorem room_of_null {h : Heap} (hroom : Room h null k) : Room h p k := by
  obtain ⟨x, hlo, hhi, havoid⟩ := hroom
  refine ⟨x, hlo, hhi, fun bs hbs b hb hu _ ↦ havoid bs hbs b hb hu ?_⟩
  exact Nat.ne_of_gt (Nat.lt_of_lt_of_le (by decide) (Nat.le_add_left sizeofBlock b.addr))

/-- One of the others has another block. -/
theorem held_cons (h : ∀ p, (others p).isSome ↔ p ∈ ptrs) (ptr : Nat) (o : Obj) (p : Nat) :
    (update others ptr (some o) p).isSome ↔ p ∈ ptr :: ptrs := by
  by_cases hp : p = ptr
  · rw [hp, update_self]
    exact ⟨fun _ ↦ List.mem_cons_self, fun _ ↦ rfl⟩
  · rw [update_of_ne hp, h p, List.mem_cons, or_iff_right hp]

namespace Modest

theorem perm (h : Modest m ptrs s others) (hperm : ptrs.Perm ptrs') : Modest m ptrs' s others :=
  ⟨h.inv, h.small, fun p ↦ (h.held p).trans hperm.mem_iff, hperm.nodup_iff.mp h.nodup⟩

/-- The invariant that does not say that nothing is leaked. -/
theorem loose (h : Modest m ptrs s others) : Inv False s others := by
  obtain ⟨live, bs, hs, _⟩ := h.inv.heap
  exact ⟨h.inv.table, live, bs, hs, False.elim⟩

/-- A state whose heap is the same. -/
theorem of_heap (h : Modest m ptrs s others) (hI : Inv True s' others) (hheap : s'.heap = s.heap) :
    Modest m ptrs s' others :=
  ⟨hI, by rw [hheap]; exact h.small, h.held, h.nodup⟩

/-- **There is room** for a block of limited size. -/
theorem room (h : Modest m ptrs s others) (hfit : Affords m ptrs.length) (hpos : 0 < size)
    (hle : size + overhead ≤ m) : Room s.heap null (totalSize size) := by
  obtain ⟨live, bs, hs, hno⟩ := h.inv.heap
  have hptrs : ∀ p, (live p).isSome →
      p ∈ ptrs ++ (List.finRange fsMaxFiles).map fun i ↦ (s.fileTable i).data := by
    intro p hp
    rcases hno trivial p hp with hother | ⟨i, rfl⟩
    · exact List.mem_append_left _ ((h.held p).mp hother)
    · exact List.mem_append_right _ (List.mem_map_of_mem (List.mem_finRange i))
  have hlen : (ptrs ++ (List.finRange fsMaxFiles).map fun i ↦ (s.fileTable i).data).length ≤
      fsMaxFiles + ptrs.length := by
    rw [List.length_append, List.length_map, List.length_finRange, Nat.add_comm]
  have hmul : (fsMaxFiles + ptrs.length) * m + (fsMaxFiles + ptrs.length + 1) * (size + overhead) ≤
      heapSize := by
    calc (fsMaxFiles + ptrs.length) * m + (fsMaxFiles + ptrs.length + 1) * (size + overhead)
        ≤ (fsMaxFiles + ptrs.length) * m + (fsMaxFiles + ptrs.length + 1) * m :=
          Nat.add_le_add_left (Nat.mul_le_mul_left _ hle) _
      _ = (2 * (fsMaxFiles + ptrs.length) + 1) * m := by ring
      _ ≤ heapSize := hfit
  have hmax : size ≤ maxRequest := by
    have hone : size + overhead ≤ (fsMaxFiles + ptrs.length + 1) * (size + overhead) :=
      Nat.le_mul_of_pos_left _ (Nat.succ_pos _)
    exact Inv.size_le (k := overhead) (by omega)
  exact hs.owned.room_of_few h.small hptrs hlen hpos hmax hmul

/-- What may be requested is not too much. -/
theorem le_maxRequest (hfit : Affords m k) (hle : size + overhead ≤ m) : size ≤ maxRequest := by
  have hone : m ≤ (2 * (fsMaxFiles + k) + 1) * m := Nat.le_mul_of_pos_left _ (Nat.succ_pos _)
  have hheap : size + overhead ≤ heapSize := Nat.le_trans hle (Nat.le_trans hone hfit)
  exact Inv.size_le hheap

/-! ## The memory manager -/

/-- **`kmalloc`** does not fail. -/
theorem kmalloc (h : Modest m ptrs s others) (hfit : Affords m ptrs.length) (hpos : 0 < size)
    (hle : size + overhead ≤ m) :
    ∃ ptr heap, Memory.kmalloc s.heap size = some (ptr, heap) ∧ ptr ≠ null ∧
      Modest m (ptr :: ptrs) { s with heap := heap } (update others ptr (some (.fresh size))) ∧
      ∀ i, Sys.contents { s with heap := heap } i = s.contents i := by
  have hmax : size ≤ maxRequest := le_maxRequest hfit hle
  have hroom := h.room hfit hpos hle
  obtain ⟨live, bs, hs, _⟩ := h.inv.heap
  obtain ⟨ptr, heap, hk, hI, hcontents, hnew⟩ := h.inv.kmalloc hmax
  have hne : ptr ≠ null := hs.owned.kmalloc_ne_null hpos hmax hroom hk
  rw [Live.grant_of_ne hne] at hI
  have hfresh : ptr ∉ ptrs := fun hmem ↦ by
    have hlive := (h.held ptr).mpr hmem
    rw [hnew hne] at hlive
    cases hlive
  exact ⟨ptr, heap, hk, hne, ⟨hI, hs.owned.small_kmalloc hmax hle h.small hk,
    held_cons h.held ptr _, List.nodup_cons.mpr ⟨hfresh, h.nodup⟩⟩, hcontents⟩

/-- **`kfree`** of a block of the others. -/
theorem kfree (h : Modest m (p :: ptrs) s others) :
    ∃ heap, Memory.kfree s.heap p = some heap ∧
      Modest m ptrs { s with heap := heap } (update others p none) ∧
      ∀ i, Sys.contents { s with heap := heap } i = s.contents i := by
  have hp : (others p).isSome := (h.held p).mpr List.mem_cons_self
  obtain ⟨hnot, hnodup⟩ := List.nodup_cons.mp h.nodup
  obtain ⟨live, bs, hs, _⟩ := h.inv.heap
  obtain ⟨heap, hk, hI, hcontents⟩ := h.inv.kfree hp
  obtain ⟨o, ho⟩ := Option.isSome_iff_exists.mp hp
  refine ⟨heap, hk, ⟨hI, hs.owned.small_kfree (hs.others_le p o ho) hk h.small, fun q ↦ ?_, hnodup⟩,
    hcontents⟩
  by_cases hqp : q = p
  · subst hqp
    rw [update_self]
    exact ⟨fun hnone ↦ (nomatch hnone), fun hq ↦ absurd hq hnot⟩
  · rw [update_of_ne hqp, h.held q, List.mem_cons, or_iff_right hqp]

/-- The data of a file is given up. -/
theorem small_freeData (h : Modest m ptrs s others)
    (hcall : freeData s.heap (s.fileTable i).data = some heap) : Small heap m := by
  obtain ⟨live, bs, hs, _⟩ := h.inv.heap
  by_cases hd : (s.fileTable i).data = null
  · rw [freeData, if_pos hd] at hcall
    cases hcall
    exact h.small
  · rw [freeData, if_neg hd] at hcall
    obtain ⟨o, ho⟩ := Option.isSome_iff_exists.mp (hs.data_isSome hd)
    exact hs.owned.small_kfree ho hcall h.small

/-! ## The filesystem -/

/-- **`fs_write`** does not fail if there are not too many bytes. -/
theorem fsWrite (h : Modest m ptrs s others) (hfit : Affords m ptrs.length)
    (hu : (s.fileTable i).used = true) (hsrc : size ≤ src.length) (hle : size + overhead ≤ m)
    (hmax : size ≤ fsMaxFilesize) :
    ∃ s', Fs.fsWrite Memory.kmalloc s (some i) (some src) size = some ((size : Int), s') ∧
      Modest m ptrs s' others ∧ Stored s s' i (src.take size) := by
  rcases fsWrite_spec false h.inv hu hsrc with
    ⟨hbig, _⟩ | ⟨_, s', hI, ⟨_, hwrite, hstored⟩ | ⟨⟨hpos, hno⟩, _⟩⟩
  · exact absurd hmax (Nat.not_le.mpr hbig)
  · refine ⟨s', hwrite, ⟨hI, ?_, h.held, h.nodup⟩, hstored⟩
    obtain ⟨live, bs, hs, _⟩ := h.inv.heap
    obtain ⟨heap₁, bs₁, hfree, hw₁, _⟩ := freeData_spec hs.owned fun hd ↦ hs.data_isSome (i := i) hd
    have hsmall₁ := h.small_freeData hfree
    change Fs.fsWrite Memory.kmalloc s (some i) (some src) size = _ at hwrite
    have hnot : ¬ fsMaxFilesize < size := Nat.not_lt.mpr hmax
    simp only [Fs.fsWrite, hnot, hfree, if_false, Option.bind_eq_bind, Option.bind_some] at hwrite
    by_cases hzero : size = 0
    · rw [if_pos hzero] at hwrite
      obtain rfl := congrArg Prod.snd (Option.some.inj hwrite)
      exact hsmall₁
    · have hreq : size ≤ maxRequest := le_maxRequest hfit hle
      rw [if_neg hzero] at hwrite
      obtain ⟨⟨ptr, heap₂⟩, hk, hrest⟩ := Option.bind_eq_some_iff.mp hwrite
      have hsmall₂ := hw₁.small_kmalloc hreq hle hsmall₁ hk
      dsimp only at hrest
      split at hrest
      · obtain rfl := congrArg Prod.snd (Option.some.inj hrest)
        exact hsmall₂
      next hne =>
        rw [copyIn_eq hsrc] at hrest
        obtain rfl := congrArg Prod.snd (Option.some.inj hrest)
        rcases hw₁.kmalloc (.inl hreq) with hnull | ⟨b, bs₂, heap', _, hsome, _, hw₂⟩
        · cases hnull.symm.trans hk
          exact absurd rfl hne
        · cases hsome.symm.trans hk
          refine hw₂.small_congr (hw₂.overwrite_all (update_self _ _ _) fun x hx ↦ ?_) hsmall₂
          refine Mem.write_off ?_
          rw [List.length_take_of_le hsrc]
          exact hx
  · have hroom : Room s.heap (s.fileTable i).data (totalSize size) :=
      room_of_null (h.room hfit hpos hle)
    rcases hno with hno | hno
    · cases hno
    · exact absurd hroom hno

/-- **`fs_create` and `fs_mkdir`** -/
theorem fsNew {flags : UInt8} {code : Int} (h : Modest m ptrs s others) (hn : Holds buf n)
    (hflags : flags = fsFlagUsed ∨ flags = fsFlagUsed ||| fsFlagDirectory)
    (hcall : Fs.fsNew flags s (some buf) = some (code, s')) : Modest m ptrs s' others := by
  rcases fsNew_spec h.inv hn hflags with ⟨_, hnew⟩ | ⟨_, _, ⟨_, hnew⟩ | ⟨_, _, hnew⟩ |
    ⟨_, j, f, _, hnew, _, _, _, _, hI, _⟩⟩
  all_goals cases hnew.symm.trans hcall
  · exact h
  · exact h
  · exact h
  · exact h.of_heap hI rfl

/-- **`fs_delete`** -/
theorem fsDelete {code : Int} (h : Modest m ptrs s others) (hn : Holds buf n)
    (hcall : Fs.fsDelete s buf = some (code, s')) : Modest m ptrs s' others := by
  rcases fsDelete_spec h.inv hn with ⟨_, hdel⟩ | ⟨i, s₁, hslot, hdel, hI, _⟩
  · cases hdel.symm.trans hcall
    exact h
  · cases hdel.symm.trans hcall
    refine ⟨hI, ?_, h.held, h.nodup⟩
    have hfind : fsFind s buf = some (some i) := (h.inv.table.fsFind_eq hn).trans (by rw [hslot])
    rw [Fs.fsDelete, hfind, Option.bind_eq_bind, Option.bind_some] at hcall
    obtain ⟨heap, hfree, heq⟩ := Option.bind_eq_some_iff.mp hcall
    obtain rfl := congrArg Prod.snd (Option.some.inj heq)
    exact h.small_freeData hfree

end Modest

/-! ## A directory with data

When `fs_rmdir` removes a directory that has contents, their block stays allocated, and nobody
owns it any more.  It counts as one of the others from then on. -/

/-- The block is left to the others. -/
theorem Inv.abandon (hI : Inv True s others) (hd : (s.fileTable i).data ≠ null) :
    others (s.fileTable i).data = none ∧ ∃ o, Inv True (s.setFile i (s.fileTable i).clear)
      (update others (s.fileTable i).data (some o)) := by
  obtain ⟨live, bs, hs, hno⟩ := hI.heap
  obtain ⟨hnone, o, ho, _⟩ := hs.data i hd
  obtain ⟨hs', _⟩ := hs.replace (i := i) (f := (s.fileTable i).clear) hs.owned
    (fun _ _ h _ ↦ h) (fun h ↦ absurd rfl h) (fun h ↦ absurd rfl h)
  refine ⟨hnone, o, TableOk.clear hI.table, live, bs, ⟨hs'.owned, ?_, fun j hj ↦ ?_, hs'.apart⟩,
    fun _ q hq ↦ ?_⟩
  · intro p o' hp
    by_cases hpp : p = (s.fileTable i).data
    · rw [hpp, update_self] at hp
      rw [hpp, ← hp]
      exact ho
    · rw [update_of_ne hpp] at hp
      exact hs.others_le p o' hp
  · have hji : j ≠ i := by
      rintro rfl
      refine hj ?_
      rw [TableOk.setFile_same]
      rfl
    have hfile : (s.setFile i (s.fileTable i).clear).fileTable j = s.fileTable j :=
      TableOk.setFile_of_ne hji
    obtain ⟨hnone', hfilled⟩ := hs'.data j hj
    refine ⟨?_, hfilled⟩
    change ((s.setFile i (s.fileTable i).clear).fileTable j).data ≠ null at hj
    change others ((s.setFile i (s.fileTable i).clear).fileTable j).data = none at hnone'
    change update others _ _ ((s.setFile i (s.fileTable i).clear).fileTable j).data = none
    rw [hfile] at hj hnone' ⊢
    rw [update_of_ne fun heq ↦ hji (hs.apart j i hj heq)]
    exact hnone'
  · by_cases hqd : q = (s.fileTable i).data
    · left
      rw [hqd, update_self]
      rfl
    · rw [update_of_ne hqd]
      rcases hno trivial q hq with hother | ⟨j, hj⟩
      · exact .inl hother
      · refine .inr ⟨j, ?_⟩
        rw [TableOk.setFile_of_ne fun hji ↦ hqd (by rw [← hj, hji])]
        exact hj

/-- **`fs_rmdir`** leaves at most one block more to the others, and this only when the directory
has data. -/
theorem Modest.fsRmdir {code : Int} (h : Modest m ptrs s others) (hn : Holds buf n)
    (hcall : Fs.fsRmdir s buf = some (code, s')) :
    (¬ Leaks s (.rmdir buf) ∧ Modest m ptrs s' others) ∨
      Leaks s (.rmdir buf) ∧ ∃ p others', Modest m (p :: ptrs) s' others' := by
  have hcstr : cstr buf = n := hn.cstr_eq
  by_cases hleak : Leaks s (.rmdir buf)
  · refine .inr ⟨hleak, ?_⟩
    obtain ⟨i, hslot, hdir, hd⟩ := hleak
    rw [hcstr] at hslot
    have hfind : fsFind s buf = some (some i) := (h.inv.table.fsFind_eq hn).trans (by rw [hslot])
    have hrun : Fs.fsRmdir s buf = some (0, s.setFile i (s.fileTable i).clear) := by
      simp [Fs.fsRmdir, hfind, hdir]
    cases hrun.symm.trans hcall
    obtain ⟨hnone, o, hI⟩ := h.inv.abandon hd
    have hfresh : (s.fileTable i).data ∉ ptrs := fun hmem ↦ by
      have hlive := (h.held (s.fileTable i).data).mpr hmem
      rw [hnone] at hlive
      cases hlive
    exact ⟨(s.fileTable i).data, _, hI, h.small, held_cons h.held _ o,
      List.nodup_cons.mpr ⟨hfresh, h.nodup⟩⟩
  · refine .inl ⟨hleak, ?_⟩
    have hdata : True → ∀ i, slotOf s n = some i → (s.fileTable i).directory = true →
        (s.fileTable i).data = null := by
      intro _ i hslot hdir
      by_contra hd
      exact hleak ⟨i, hcstr ▸ hslot, hdir, hd⟩
    rcases fsRmdir_spec h.inv hn hdata with ⟨_, hrun⟩ | ⟨i, _, ⟨_, hrun⟩ |
      ⟨_, s₁, hrun, hI, _, _, hheap⟩⟩
    all_goals cases hrun.symm.trans hcall
    · exact h
    · exact h
    · exact h.of_heap hI hheap

/-- After `fs_init` there is nothing in the heap. -/
theorem Booted.modest {w : World} (hb : Booted w) (hnone : w.others = fun _ ↦ none)
    (m : Nat) : Modest m [] w.sys w.others := by
  have hI : Inv True w.sys w.others := hb.inv.1
  refine ⟨hI, ?_, fun p ↦ ?_, List.nodup_nil⟩
  · obtain ⟨live, bs, hs, hno⟩ := hI.heap
    refine hs.owned.small_iff.mpr fun b hb' hu ↦ ?_
    have hlive : (live (b.addr + sizeofBlock)).isSome := (hs.owned.live_iff _).mpr ⟨b, hb', hu, rfl⟩
    rcases hno trivial _ hlive with hother | ⟨i, hi⟩
    · rw [hnone] at hother
      cases hother
    · have hnull := ((hI.table.file i).free (hb.unused i)).1
      exact absurd (hnull.symm.trans hi) (Nat.ne_of_lt (Nat.succ_pos _))
  · rw [hnone]
    exact ⟨fun hlive ↦ (nomatch hlive), fun hmem ↦ (nomatch hmem)⟩

end KontolOS.Fs
