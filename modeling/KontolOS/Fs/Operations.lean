import KontolOS.Fs.Ownership

/-!
# What the operations of the filesystem do

`Inv tight s others` is the invariant of the filesystem; with `tight` it also says that
nothing leaked.  Each operation has one lemma, which says what it returns, in which cases,
and that the state afterwards satisfies the invariant and differs in one entry only.
-/

namespace KontolOS.Fs

open KontolOS.Lib KontolOS.Memory KontolOS.Strings Function

/-! ## The invariant -/

/-- **The invariant of the filesystem** next to clients that hold `others`. -/
structure Inv (tight : Prop) (s : Sys) (others : Live) : Prop where
  /-- the table is in order -/
  table : TableOk s
  /-- and owns its data, without leaks if it is `tight` -/
  heap : ∃ live bs, Held s others live bs ∧ (tight → NoLeak s others live)

/-- Entry `i` now has the contents `c`, and nothing else changed. -/
structure Stored (s s' : Sys) (i : Slot) (c : List UInt8) : Prop where
  /-- the other entries are as before -/
  frame : Frame s s' i
  /-- the entry itself has a new size, and keeps its name and kind -/
  file : ∃ data, s'.fileTable i = { s.fileTable i with data := data, size := c.length }
  /-- its contents -/
  contents : s'.contents i = some c

variable {tight : Prop} {s : Sys} {others : Live} {i : Slot} {buf n : List UInt8}

/-- `NULL` is not live. -/
theorem Held.owned_ne_null {live : Live} {bs : List Block} {q : Nat}
    (hs : Held s others live bs) (hq : (live q).isSome) : q ≠ null := by
  rintro rfl
  rw [hs.owned.live_null] at hq
  cases hq

/-- An entry without data may be changed into another one without data. -/
theorem Inv.setFile_null (hI : Inv tight s others) {f : FsFile}
    (htable : TableOk (s.setFile i f)) (hd : (s.fileTable i).data = null) (hf : f.data = null) :
    Inv tight (s.setFile i f) others ∧ Frame s (s.setFile i f) i := by
  obtain ⟨live, bs, hs, hno⟩ := hI.heap
  obtain ⟨hs', hframe⟩ := hs.replace (i := i) (f := f) hs.owned (fun _ _ h _ ↦ h)
    (fun h ↦ absurd hf h) (fun h ↦ absurd hf h)
  refine ⟨⟨htable, live, bs, hs', fun ht ↦ ?_⟩, hframe⟩
  have hkeep : NoLeak ({ s with heap := s.heap }.setFile i f) others live := by
    refine Held.noLeak_replace (hno ht) fun q hq ↦ .inr ⟨?_, hq⟩
    rw [hd]
    exact hs.owned_ne_null hq
  exact hkeep

/-! ## Creating and removing entries -/

/-- **`fs_create` and `fs_mkdir`** on a name. -/
theorem fsNew_spec {flags : UInt8} (hI : Inv tight s others) (hn : Holds buf n)
    (hflags : flags = fsFlagUsed ∨ flags = fsFlagUsed ||| fsFlagDirectory) :
    ((n = [] ∨ fsMaxFilename ≤ n.length) ∧ fsNew flags s (some buf) = some (-1, s)) ∨
    (n ≠ [] ∧ n.length < fsMaxFilename ∧
      ((slotOf s n).isSome ∧ fsNew flags s (some buf) = some (-2, s) ∨
        slotOf s n = none ∧ (∀ i, (s.fileTable i).used = true) ∧
          fsNew flags s (some buf) = some (-3, s) ∨
        slotOf s n = none ∧ ∃ i f, (s.fileTable i).used = false ∧
          fsNew flags s (some buf) = some (0, s.setFile i f) ∧
          cstr f.name = n ∧ f.data = null ∧ f.size = 0 ∧ f.flags = flags ∧
          Inv tight (s.setFile i f) others ∧ Frame s (s.setFile i f) i)) := by
  have hfind := hI.table.fsFind_eq hn
  by_cases hbad : n = [] ∨ fsMaxFilename ≤ n.length
  · refine .inl ⟨hbad, ?_⟩
    simp [fsNew, hn.strlen_eq, hbad]
  obtain ⟨hne, hlen⟩ := not_or.mp hbad
  refine .inr ⟨hne, Nat.not_le.mp hlen, ?_⟩
  cases hslot : slotOf s n with
  | some j =>
      refine .inl ⟨rfl, ?_⟩
      simp [fsNew, hn.strlen_eq, hne, hlen, hfind, hslot]
  | none =>
      refine .inr ?_
      cases hfree : fsFindFree s with
      | none =>
          refine .inl ⟨rfl, TableOk.fsFindFree_none.mp hfree, ?_⟩
          simp [fsNew, hn.strlen_eq, hne, hlen, hfind, hslot, hfree]
      | some i =>
          have hfu := TableOk.fsFindFree_some hfree
          obtain ⟨name, hcopy, hname, hnlen⟩ :=
            strncpy_name hn (Nat.not_le.mp hlen) (hI.table.file i).length
          have htable : TableOk (s.setFile i ⟨name.set (fsMaxFilename - 1) 0, null, 0, flags⟩) := by
            refine TableOk.setFile hI.table ⟨?_, .inr hflags, fun _ ↦ ?_, fun hu ↦ ?_,
              Nat.zero_le _, fun h ↦ absurd rfl h⟩ fun _ j _ hju heq ↦ ?_
            · rw [List.length_set, hnlen]
            · change Holds _ (cstr (name.set _ 0)) ∧ cstr (name.set _ 0) ≠ []
              rw [hname.cstr_eq]
              exact ⟨hname, hne⟩
            · change (flags &&& fsFlagUsed != 0) = false at hu
              rcases hflags with rfl | rfl <;> exact absurd hu (by decide)
            · exact TableOk.slotOf_eq_none_iff.mp hslot j hju (heq.trans hname.cstr_eq)
          refine .inr ⟨rfl, i, _, hfu, ?_, hname.cstr_eq, rfl, rfl, rfl,
            hI.setFile_null htable ((hI.table.file i).free hfu).1 rfl⟩
          simp [fsNew, hn.strlen_eq, hne, hlen, hfind, hslot, hfree, hcopy]

/-- Giving up the block of an entry. -/
theorem Inv.giveUp (hI : Inv tight s others) {f : FsFile}
    (htable : ∀ heap, TableOk ({ s with heap := heap }.setFile i f)) (hf : f.data = null) :
    ∃ heap, freeData s.heap (s.fileTable i).data = some heap ∧
      Inv tight ({ s with heap := heap }.setFile i f) others ∧
      Frame s ({ s with heap := heap }.setFile i f) i := by
  obtain ⟨live, bs, hs, hno⟩ := hI.heap
  obtain ⟨h', bs', hfree, hw', _⟩ := freeData_spec hs.owned hs.data_isSome
  obtain ⟨hs', hframe⟩ := hs.replace (i := i) (f := f) hw'
    (fun q o hq hne ↦ by rw [update_of_ne hne]; exact hq)
    (fun h ↦ absurd hf h) (fun h ↦ absurd hf h)
  refine ⟨h', hfree, ⟨htable h', _, bs', hs', fun ht ↦ ?_⟩, hframe⟩
  refine Held.noLeak_replace (hno ht) fun q hq ↦ .inr ?_
  by_cases hqd : q = (s.fileTable i).data
  · rw [hqd, update_self] at hq
    cases hq
  · rw [update_of_ne hqd] at hq
    exact ⟨hqd, hq⟩

/-- **`fs_delete`** -/
theorem fsDelete_spec (hI : Inv tight s others) (hn : Holds buf n) :
    (slotOf s n = none ∧ fsDelete s buf = some (-1, s)) ∨
    ∃ i s', slotOf s n = some i ∧ fsDelete s buf = some (0, s') ∧ Inv tight s' others ∧
      Frame s s' i ∧ s'.fileTable i = (s.fileTable i).clear := by
  have hfind := hI.table.fsFind_eq hn
  cases hslot : slotOf s n with
  | none => exact .inl ⟨rfl, by simp [fsDelete, hfind, hslot]⟩
  | some i =>
      obtain ⟨heap, hfree, hI', hframe⟩ :=
        hI.giveUp (i := i) (f := (s.fileTable i).clear) (fun _ ↦ hI.table.clear) rfl
      refine .inr ⟨i, _, rfl, ?_, hI', hframe, TableOk.setFile_same⟩
      simp [fsDelete, hfind, hslot, hfree]

/-- **`fs_rmdir`** is as tidy as `fs_delete` only if the directory holds no data. -/
theorem fsRmdir_spec (hI : Inv tight s others) (hn : Holds buf n)
    (hdata : tight → ∀ i, slotOf s n = some i → (s.fileTable i).directory = true →
      (s.fileTable i).data = null) :
    (slotOf s n = none ∧ fsRmdir s buf = some (-1, s)) ∨
    ∃ i, slotOf s n = some i ∧
      ((s.fileTable i).directory = false ∧ fsRmdir s buf = some (-2, s) ∨
        (s.fileTable i).directory = true ∧ ∃ s', fsRmdir s buf = some (0, s') ∧
          Inv tight s' others ∧ Frame s s' i ∧ s'.fileTable i = (s.fileTable i).clear ∧
          s'.heap = s.heap) := by
  have hfind := hI.table.fsFind_eq hn
  cases hslot : slotOf s n with
  | none => exact .inl ⟨rfl, by simp [fsRmdir, hfind, hslot]⟩
  | some i =>
      refine .inr ⟨i, rfl, ?_⟩
      cases hdir : (s.fileTable i).directory with
      | false => exact .inl ⟨rfl, by simp [fsRmdir, hfind, hslot, hdir]⟩
      | true =>
          obtain ⟨live, bs, hs, hno⟩ := hI.heap
          obtain ⟨hs', hframe⟩ := hs.replace (i := i) (f := (s.fileTable i).clear) hs.owned
            (fun _ _ h _ ↦ h) (fun h ↦ absurd rfl h) (fun h ↦ absurd rfl h)
          have htight : tight → NoLeak ({ s with heap := s.heap }.setFile i
              (s.fileTable i).clear) others live := by
            intro ht
            refine Held.noLeak_replace (hno ht) fun q hq ↦ .inr ⟨?_, hq⟩
            rw [hdata ht i hslot hdir]
            exact hs.owned_ne_null hq
          exact .inr ⟨rfl, _, by simp [fsRmdir, hfind, hslot, hdir],
            ⟨TableOk.clear hI.table, live, bs, hs', htight⟩, hframe, TableOk.setFile_same, rfl⟩

/-! ## Changing contents -/

/-- What an entry without contents holds. -/
theorem contents_setFile_nil {heap : Heap} {f : FsFile} (hf : f.size = 0) :
    ({ s with heap := heap }.setFile i f).contents i = some [] := by
  rw [Sys.contents, TableOk.setFile_same, FsFile.contents, if_pos hf]

/-- Emptying an entry. -/
theorem Inv.empty (hI : Inv tight s others) (hu : (s.fileTable i).used = true) :
    ∃ s', (∃ heap, freeData s.heap (s.fileTable i).data = some heap ∧
        s' = { s with heap := heap }.setFile i { s.fileTable i with data := null, size := 0 }) ∧
      Inv tight s' others ∧ Stored s s' i [] := by
  obtain ⟨heap, hfree, hI', hframe⟩ := hI.giveUp
    (i := i) (f := { s.fileTable i with data := null, size := 0 })
    (fun _ ↦ hI.table.setData hu (Nat.zero_le _) fun h ↦ absurd rfl h) rfl
  exact ⟨_, ⟨heap, hfree, rfl⟩, hI', hframe, ⟨null, TableOk.setFile_same⟩,
    contents_setFile_nil rfl⟩

/-- **`fs_truncate`** -/
theorem fsTruncate_spec (hI : Inv tight s others) (hu : (s.fileTable i).used = true) :
    ∃ s', fsTruncate s (some i) = some (0, s') ∧ Inv tight s' others ∧ Stored s s' i [] := by
  obtain ⟨s', ⟨heap, hfree, rfl⟩, hI', hstored⟩ := hI.empty hu
  exact ⟨_, by simp [fsTruncate, hfree], hI', hstored⟩

/-- **Putting a block of new contents in place of the old one.**  The old block is freed
before the new one is allocated, or afterwards; `live'` is what is live when both is done. -/
theorem Inv.putBlock (hI : Inv tight s others) {live live' : Live} {bs bs' : List Block}
    {h' : Heap} {ptr : Nat} {c : List UInt8} (hs : Held s others live bs)
    (hno : tight → NoLeak s others live) (hw' : Owned h' live' bs')
    (hu : (s.fileTable i).used = true) (hptr : ptr ≠ null) (hlen : c.length ≤ fsMaxFilesize)
    (hpos : 0 < c.length)
    (hlive : ∀ q, q ≠ ptr → live' q = update live (s.fileTable i).data none q)
    (hfresh : live ptr = none ∨ ptr = (s.fileTable i).data)
    (hfilled : Filled live' ptr c.length) (hbytes : h'.mem.bytes ptr c.length = c) :
    Inv tight ({ s with heap := h' }.setFile i
        { s.fileTable i with data := ptr, size := c.length }) others ∧
      Stored s ({ s with heap := h' }.setFile i
        { s.fileTable i with data := ptr, size := c.length }) i c := by
  have hkeep : ∀ q o, live q = some o → q ≠ (s.fileTable i).data → live' q = some o := by
    intro q o hq hne
    have hqp : q ≠ ptr := by
      rintro rfl
      rcases hfresh with hnone | hold
      · rw [hnone] at hq
        cases hq
      · exact hne hold
    rw [hlive q hqp, update_of_ne hne]
    exact hq
  obtain ⟨hs', hframe⟩ := hs.replace (i := i)
    (f := { s.fileTable i with data := ptr, size := c.length }) hw' hkeep (fun _ ↦ hfresh)
    (fun _ ↦ hfilled)
  refine ⟨⟨hI.table.setData hu hlen fun _ ↦ hpos, live', bs', hs', fun ht ↦ ?_⟩, hframe,
    ⟨ptr, TableOk.setFile_same⟩, ?_⟩
  · refine Held.noLeak_replace (hno ht) fun q hq ↦ ?_
    by_cases hqp : q = ptr
    · exact .inl hqp
    · rw [hlive q hqp] at hq
      by_cases hqd : q = (s.fileTable i).data
      · rw [hqd, update_self] at hq
        cases hq
      · rw [update_of_ne hqd] at hq
        exact .inr ⟨hqd, hq⟩
  · rw [Sys.contents, TableOk.setFile_same, FsFile.contents, if_neg (Nat.ne_of_gt hpos),
      if_neg hptr]
    exact congrArg some hbytes

end KontolOS.Fs
