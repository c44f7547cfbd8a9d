import KontolOS.Fs.Table

/-!
# Who owns the data of a file

Every `data` pointer of the table leads to a live block of the heap, no two to the same
one, and none to a block that another client holds (`Held`).  All operations on contents
come down to one change: the block of one entry is given up, and another takes its place
(`Held.replace`).  That change keeps ownership, and the contents of every other entry.
-/

namespace KontolOS.Fs

open KontolOS.Lib KontolOS.Memory KontolOS.Strings Function

/-! ## Moving bytes -/

theorem copyIn_eq {m : Mem} {dest n : Nat} {src : List UInt8} (h : n ≤ src.length) :
    copyIn m dest src n = some (m.write dest (src.take n)) := by
  induction n generalizing m dest src with
  | zero => simp [copyIn]
  | succ n ih =>
      cases src with
      | nil => exact absurd h (Nat.not_succ_le_zero n)
      | cons b src =>
          rw [copyIn, ih (Nat.le_of_succ_le_succ h), List.take_succ_cons, Mem.write_cons]

theorem copyOut_eq {m : Mem} {src n : Nat} {dest : List UInt8} (h : n ≤ dest.length) :
    copyOut m src dest n = some (m.bytes src n ++ dest.drop n) := by
  induction n generalizing src dest with
  | zero => simp [copyOut, Mem.bytes]
  | succ n ih =>
      cases dest with
      | nil => exact absurd h (Nat.not_succ_le_zero n)
      | cons b dest =>
          rw [copyOut, ih (Nat.le_of_succ_le_succ h), Mem.bytes_succ]
          rfl

/-! ## Contents -/

/-- The contents of an entry, if they are there to be read. -/
def FsFile.contents (m : Mem) (f : FsFile) : Option (List UInt8) :=
  if f.size = 0 then some []
  else if f.data = null then none
  else some (m.bytes f.data f.size)

/-- The contents of slot `i`. -/
def Sys.contents (s : Sys) (i : Slot) : Option (List UInt8) :=
  (s.fileTable i).contents s.heap.mem

/-- An entry is unreadable if it has a size, and no data. -/
theorem contents_eq_none_iff {s : Sys} {i : Slot} :
    s.contents i = none ↔ (s.fileTable i).size ≠ 0 ∧ (s.fileTable i).data = null := by
  rw [Sys.contents, FsFile.contents]
  split
  · simp [*]
  · split <;> simp [*]

theorem contents_isSome_iff {s : Sys} {i : Slot} :
    (s.contents i).isSome ↔ ((s.fileTable i).data = null → (s.fileTable i).size = 0) := by
  rw [← Option.ne_none_iff_isSome, ne_eq, contents_eq_none_iff]
  constructor
  · intro h hd
    by_contra hsize
    exact h ⟨hsize, hd⟩
  · rintro h ⟨hsize, hd⟩
    exact hsize (h hd)

/-- Contents are nothing, or the bytes of a block. -/
theorem contents_eq_some {s : Sys} {i : Slot} {c : List UInt8} (h : s.contents i = some c) :
    (s.fileTable i).size = 0 ∧ c = [] ∨
    (s.fileTable i).size ≠ 0 ∧ (s.fileTable i).data ≠ null ∧
      c = s.heap.mem.bytes (s.fileTable i).data (s.fileTable i).size := by
  rw [Sys.contents, FsFile.contents] at h
  by_cases hsize : (s.fileTable i).size = 0
  · rw [if_pos hsize] at h
    cases h
    exact .inl ⟨hsize, rfl⟩
  · rw [if_neg hsize] at h
    by_cases hd : (s.fileTable i).data = null
    · rw [if_pos hd] at h
      cases h
    · rw [if_neg hd] at h
      cases h
      exact .inr ⟨hsize, hd, rfl⟩

theorem length_of_contents {s : Sys} {i : Slot} {c : List UInt8} (h : s.contents i = some c) :
    c.length = (s.fileTable i).size := by
  rcases contents_eq_some h with ⟨hsize, rfl⟩ | ⟨_, _, rfl⟩
  · exact hsize.symm
  · exact Mem.length_bytes _ _ _

/-- Nothing but the entry `i` and its contents differs between `s` and `s'`. -/
structure Frame (s s' : Sys) (i : Slot) : Prop where
  /-- the other entries -/
  file : ∀ j, j ≠ i → s'.fileTable j = s.fileTable j
  /-- the contents of the other entries -/
  contents : ∀ j, j ≠ i → s'.contents j = s.contents j
  /-- the current directory -/
  cwd : s'.currentDir = s.currentDir

theorem Frame.trans {s s' s'' : Sys} {i : Slot} (h : Frame s s' i) (h' : Frame s' s'' i) :
    Frame s s'' i :=
  ⟨fun j hj ↦ (h'.file j hj).trans (h.file j hj),
    fun j hj ↦ (h'.contents j hj).trans (h.contents j hj), h'.cwd.trans h.cwd⟩

/-! ## Ownership -/

/-- Behind `p` there is a live block of `size` bytes, every one of them written. -/
def Filled (live : Live) (p size : Nat) : Prop :=
  ∃ o, live p = some o ∧ o.req = size ∧ ∀ k < size, (o.bytes k).isSome

/-- The table and the other clients own their blocks. -/
structure Held (s : Sys) (others live : Live) (bs : List Block) : Prop where
  /-- the heap is in order, and `live` are its live allocations -/
  owned : Owned s.heap live bs
  /-- among these are the allocations of the others -/
  others_le : ∀ p o, others p = some o → live p = some o
  /-- and the data of the files, which the others do not hold -/
  data : ∀ i, (s.fileTable i).data ≠ null → others (s.fileTable i).data = none ∧
    Filled live (s.fileTable i).data (s.fileTable i).size
  /-- no two files share a block -/
  apart : ∀ i j, (s.fileTable i).data ≠ null → (s.fileTable i).data = (s.fileTable j).data →
    i = j

/-- Every live block belongs to a file or to one of the others. -/
def NoLeak (s : Sys) (others live : Live) : Prop :=
  ∀ p, (live p).isSome → (others p).isSome ∨ ∃ i, (s.fileTable i).data = p

/-- Bytes that are on record in two states are the same in both. -/
theorem bytes_eq_of_filled {h h' : Heap} {live live' : Live} {bs bs' : List Block} {p size : Nat}
    (hw : Owned h live bs) (hw' : Owned h' live' bs') (hf : Filled live p size)
    (hkeep : ∀ o, live p = some o → live' p = some o) :
    h'.mem.bytes p size = h.mem.bytes p size := by
  obtain ⟨o, ho, rfl, hrec⟩ := hf
  refine Mem.bytes_congr fun k hk ↦ ?_
  obtain ⟨v, hv⟩ := Option.isSome_iff_exists.mp (hrec k hk)
  exact (hw'.kept p o (hkeep o ho) k hk v hv).trans (hw.kept p o ho k hk v hv).symm

namespace Held

variable {s : Sys} {others live live' : Live} {bs bs' : List Block} {i : Slot} {f : FsFile}
  {h' : Heap}

/-- The data of a file is live. -/
theorem data_isSome (hs : Held s others live bs) (hd : (s.fileTable i).data ≠ null) :
    (live (s.fileTable i).data).isSome := by
  obtain ⟨_, o, ho, _⟩ := hs.data i hd
  rw [ho]
  rfl

/-- What a change that gives up the block of entry `i` leaves alone. -/
theorem keeps_of_ne (hs : Held s others live bs) {j : Slot} (hj : j ≠ i)
    (hd : (s.fileTable j).data ≠ null)
    (hkeep : ∀ q o, live q = some o → q ≠ (s.fileTable i).data → live' q = some o) :
    ∀ o, live (s.fileTable j).data = some o → live' (s.fileTable j).data = some o :=
  fun o ho ↦ hkeep _ o ho fun heq ↦ hj (hs.apart j i hd heq)

/-- **Replacing the block of one entry.**  Entry `i` gives up its block for the block
`f.data`, which was not live otherwise; all that was live besides stays. -/
theorem replace (hs : Held s others live bs) (hw' : Owned h' live' bs')
    (hkeep : ∀ q o, live q = some o → q ≠ (s.fileTable i).data → live' q = some o)
    (hfresh : f.data ≠ null → live f.data = none ∨ f.data = (s.fileTable i).data)
    (hfilled : f.data ≠ null → Filled live' f.data f.size) :
    Held ({ s with heap := h' }.setFile i f) others live' bs' ∧
      Frame s ({ s with heap := h' }.setFile i f) i := by
  have hsame : ({ s with heap := h' }.setFile i f).fileTable i = f := TableOk.setFile_same
  have hne : ∀ {j : Slot}, j ≠ i →
      ({ s with heap := h' }.setFile i f).fileTable j = s.fileTable j := TableOk.setFile_of_ne
  have hothers : ∀ q o, others q = some o → q ≠ null ∧ q ≠ (s.fileTable i).data := by
    intro q o hq
    have hnull : q ≠ null := by
      rintro rfl
      have := hs.others_le null o hq
      rw [hs.owned.live_null] at this
      cases this
    refine ⟨hnull, ?_⟩
    rintro rfl
    rw [(hs.data i hnull).1] at hq
    cases hq
  -- the new block belongs to nobody else
  have hnew : f.data ≠ null → ∀ j, j ≠ i → f.data ≠ (s.fileTable j).data := by
    intro hd j hj heq
    rcases hfresh hd with hnone | hold
    · have := hs.data_isSome (heq ▸ hd)
      rw [← heq, hnone] at this
      cases this
    · exact hj (hs.apart j i (heq ▸ hd) (heq.symm.trans hold))
  refine ⟨⟨hw', fun q o hq ↦ ?_, fun j hd ↦ ?_, fun j k hd heq ↦ ?_⟩, ⟨fun j ↦ hne, ?_, rfl⟩⟩
  · exact hkeep q o (hs.others_le q o hq) (hothers q o hq).2
  · by_cases hj : j = i
    · subst hj
      rw [hsame] at hd ⊢
      refine ⟨?_, hfilled hd⟩
      cases ho : others f.data with
      | none => rfl
      | some o =>
          rcases hfresh hd with hnone | hold
          · rw [hs.others_le _ o ho] at hnone
            cases hnone
          · exact absurd hold (hothers _ o ho).2
    · rw [hne hj] at hd ⊢
      obtain ⟨hnone, o, ho, hrest⟩ := hs.data j hd
      exact ⟨hnone, o, hs.keeps_of_ne hj hd hkeep o ho, hrest⟩
  · by_cases hj : j = i <;> by_cases hk : k = i
    · rw [hj, hk]
    · subst hj
      rw [hsame] at hd heq
      rw [hne hk] at heq
      exact absurd heq (hnew hd k hk)
    · subst hk
      rw [hne hj] at hd heq
      rw [hsame] at heq
      exact absurd heq.symm (hnew (heq ▸ hd) j hj)
    · rw [hne hj] at hd heq
      rw [hne hk] at heq
      exact hs.apart j k hd heq
  · intro j hj
    have hfile : ({ s with heap := h' }.setFile i f).contents j
        = (s.fileTable j).contents h'.mem := by
      rw [Sys.contents, hne hj]
      rfl
    rw [hfile, Sys.contents, FsFile.contents, FsFile.contents]
    by_cases hd : (s.fileTable j).data = null
    · rw [if_pos hd, if_pos hd]
    · rw [bytes_eq_of_filled hs.owned hw' (hs.data j hd).2 (hs.keeps_of_ne hj hd hkeep)]

/-- If the old block is not live any more, the change leaks nothing. -/
theorem noLeak_replace (hno : NoLeak s others live)
    (hlive : ∀ q, (live' q).isSome → q = f.data ∨ q ≠ (s.fileTable i).data ∧ (live q).isSome) :
    NoLeak ({ s with heap := h' }.setFile i f) others live' := by
  intro q hq
  rcases hlive q hq with rfl | ⟨hne, hq⟩
  · exact .inr ⟨i, by rw [TableOk.setFile_same]⟩
  · rcases hno q hq with ho | ⟨j, hj⟩
    · exact .inl ho
    · have hji : j ≠ i := fun h ↦ hne (by rw [← hj, h])
      exact .inr ⟨j, by rw [TableOk.setFile_of_ne hji]; exact hj⟩

end Held

/-! ## The two allocator calls of an operation -/

section Allocator

variable {h h' : Heap} {live : Live} {bs : List Block} {p size : Nat}

/-- `if (data != NULL) kfree(data)` returns, and makes the room the block took. -/
theorem freeData_spec (hw : Owned h live bs) (hp : p ≠ null → (live p).isSome) :
    ∃ h' bs', freeData h p = some h' ∧ Owned h' (update live p none) bs' ∧
      ∀ n, Room h' null n ↔ Room h p n := by
  unfold freeData
  by_cases hnull : p = null
  · subst hnull
    refine ⟨h, bs, if_pos rfl, ?_, fun n ↦ Iff.rfl⟩
    rw [← hw.live_null, update_eq_self]
    exact hw
  · obtain ⟨o, ho⟩ := Option.isSome_iff_exists.mp (hp hnull)
    obtain ⟨b, _, _, h', hk, hw'⟩ := hw.kfree ho
    exact ⟨h', _, by rw [if_neg hnull, hk], hw', fun n ↦ hw.room_kfree ho hk⟩

/-- An allocation fails, if it is made to or there is no room, and changes nothing; or it
returns a fresh block. -/
theorem allocator_spec (fails : Bool) (hw : Owned h live bs) (hpos : 0 < size)
    (hmax : size ≤ maxRequest) :
    (allocator fails h size = some (null, h) ∧
      (fails = true ∨ ¬ Room h null (totalSize size))) ∨
    (fails = false ∧ Room h null (totalSize size) ∧ ∃ ptr h' bs',
      allocator fails h size = some (ptr, h') ∧ ptr ≠ null ∧ live ptr = none ∧
        Owned h' (update live ptr (some (.fresh size))) bs') := by
  cases fails with
  | true => exact .inl ⟨rfl, .inl rfl⟩
  | false =>
      have hiff := hw.kmalloc_eq_null_iff hpos hmax
      rcases hw.kmalloc (.inl hmax) with hk | ⟨b, bs', h', _, hk, hnone, hw'⟩
      · exact .inl ⟨hk, .inr (hiff.mp hk)⟩
      · have hne : b.addr + sizeofBlock ≠ null := Nat.ne_of_gt (Nat.succ_pos _)
        refine .inr ⟨rfl, ?_, _, h', bs', hk, hne, hnone, hw'⟩
        by_contra hroom
        rw [hiff.mpr hroom] at hk
        exact hne (congrArg Prod.fst (Option.some.inj hk)).symm

end Allocator

end KontolOS.Fs
