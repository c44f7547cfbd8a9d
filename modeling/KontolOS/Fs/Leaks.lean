import KontolOS.Fs.Spare

/-!
# The heap blocks of the filesystem

On a heap that nothing else uses, the used blocks are the data of the entries, as long as no
`fs_rmdir` removes a directory that holds data (`run_ownsHeap`).  A directory can hold data:
`fs_open` returns directories too, and `fs_write` and `fs_append` accept them.
-/

namespace KontolOS.Fs

open KontolOS.Lib KontolOS.Memory KontolOS.Strings

/-- The used blocks of the heap are the data blocks of the used entries. -/
structure OwnsHeap (s : Sys) : Prop where
  /-- every used block is the data of an entry, and the other way round -/
  blocks : ∃ bs, BlockList s.heap.mem s.heap.heapStart bs ∧
    ∀ p, (∃ b ∈ bs, b.used = true ∧ b.addr + sizeofBlock = p) ↔
      p ≠ null ∧ ∃ i, (s.fileTable i).used = true ∧ (s.fileTable i).data = p
  /-- of one entry only -/
  apart : ∀ i j, (s.fileTable i).data ≠ null → (s.fileTable i).data = (s.fileTable j).data →
    i = j
  /-- without entries nothing is used -/
  empty : (∀ i, (s.fileTable i).used = false) → memoryGetUsed s.heap = 0

theorem Inv.ownsHeap {s : Sys} (hI : Inv True s fun _ ↦ none) : OwnsHeap s := by
  obtain ⟨live, bs, hs, hno⟩ := hI.heap
  have hused : ∀ {i}, (s.fileTable i).data ≠ null → (s.fileTable i).used = true := by
    intro i hd
    cases hu : (s.fileTable i).used with
    | true => rfl
    | false => exact absurd ((hI.table.file i).free hu).1 hd
  have hblocks : ∀ p, (∃ b ∈ bs, b.used = true ∧ b.addr + sizeofBlock = p) ↔
      p ≠ null ∧ ∃ i, (s.fileTable i).used = true ∧ (s.fileTable i).data = p := by
    intro p
    rw [← hs.owned.live_iff]
    constructor
    · intro hp
      have hne := hs.owned_ne_null hp
      rcases hno trivial p hp with h | ⟨i, rfl⟩
      · cases h
      · exact ⟨hne, i, hused hne, rfl⟩
    · rintro ⟨hne, i, _, rfl⟩
      exact hs.data_isSome hne
  refine ⟨⟨bs, BlockList.of_rep hs.owned.rep, hblocks⟩, hs.apart, fun hnone ↦ ?_⟩
  refine hs.owned.rep.used.trans (extent_eq_zero fun b hb hbu ↦ ?_)
  obtain ⟨_, i, hu, _⟩ := (hblocks _).mp ⟨b, hb, hbu, rfl⟩
  rw [hnone i] at hu
  cases hu

/-- **The filesystem owns the heap it uses** in every state of every run from `fs_init` on a
heap of its own in which no `fs_rmdir` removes a directory that holds data. -/
theorem run_ownsHeap {w₀ w : World} {acts : List (Act (Option Slot))} (hb : Booted w₀)
    (halone : w₀.others = fun _ ↦ none)
    (hr : Run (fun w a w' ↦ (∃ fails c o, a = .fs fails c o) ∧ WorldStep w a w' ∧ ¬ ActLeaks w a)
      w₀ acts w) : OwnsHeap w.sys := by
  have hinv : Inv True w.sys w.others ∧ w.others = fun _ ↦ none := by
    refine hr.invariant (I := fun w ↦ Inv True w.sys w.others ∧ w.others = fun _ ↦ none) ?_
      ⟨hb.inv.1, halone⟩
    rintro w a w' ⟨hI, hothers⟩ ⟨⟨fails, c, o, rfl⟩, hstep, htidy⟩
    exact ⟨(hI.worldStep hstep fun _ ↦ htidy).1, hstep.2.2.1.trans hothers⟩
  obtain ⟨hI, hothers⟩ := hinv
  rw [hothers] at hI
  exact hI.ownsHeap

/-- Of two files with data, one has been deleted; a directory has come and gone. -/
theorem run_ownsHeap_two_files : ∃ w i j,
    Run (fun w a w' ↦ (∃ fails c o, a = .fs fails c o) ∧ WorldStep w a w' ∧ ¬ ActLeaks w a)
      (bootWorld (Clients.init fun _ ↦ 0))
      [.fs false (.create (some [0x61, 0])) (.ofCode 0),
        .fs false (.write (some i) (some [1, 2, 3]) 3) (.ofCode 3),
        .fs false (.create (some [0x62, 0])) (.ofCode 0),
        .fs false (.write (some j) (some [4]) 1) (.ofCode 1),
        .fs false (.append (some i) (some [5, 6]) 2) (.ofCode 2),
        .fs false (.delete [0x62, 0]) (.ofCode 0),
        .fs false (.mkdir (some [0x64, 0])) (.ofCode 0),
        .fs false (.rmdir [0x64, 0]) (.ofCode 0)] w ∧
    EntryAt w.sys i [0x61] [1, 2, 3, 5, 6] ∧ (w.sys.fileTable i).data ≠ null ∧
    (∀ k, k ≠ i → (w.sys.fileTable k).used = false) ∧ OwnsHeap w.sys := by
  have hb := booted_bootWorld (w := Clients.init fun _ ↦ 0) ⟨_, [], .nil _⟩
  have hm : Holds [0x62, 0] [0x62] := ⟨by decide, [], rfl⟩
  have hd : Holds [0x64, 0] [0x64] := ⟨by decide, [], rfl⟩
  obtain ⟨w, i, j, hij, hrun, _, hI, hi, hj, honly⟩ := exists_two_files
  obtain ⟨s₁, hdelete, hI₁, hframe₁, hclear₁⟩ := hI.delete_step hm (hj.slotOf_eq hI)
  have hi₁ := hi.frame hframe₁ hij
  have hunused₁ : ∀ k, k ≠ i → (s₁.fileTable k).used = false := by
    intro k hk
    by_cases hkj : k = j
    · rw [hkj, hclear₁, clear_used]
    · rw [hframe₁.file k hkj]
      by_contra hu
      exact (honly k (Bool.eq_true_of_not_eq_false hu)).elim hk hkj
  have hslot₁ : slotOf s₁ [0x64] = none := by
    refine TableOk.slotOf_eq_none_iff.mpr fun k hk ↦ ?_
    have hki : k = i := by
      by_contra hne
      cases (hunused₁ k hne).symm.trans hk
    rw [hki, hi₁.name]
    decide
  obtain ⟨d, s₂, s₃, hmkdir, hrmdir, htidy, hunused, hgone, hframe⟩ :=
    Inv.mkdir_rmdir_steps (w := ⟨s₁, w.others⟩) hI₁ hd (by decide) (by decide) hslot₁
      ⟨j, hunused₁ j hij.symm⟩
  have hid : i ≠ d := by
    rintro rfl
    cases hunused.symm.trans hi₁.used
  have hi₃ := hi₁.frame hframe hid
  have hsafe : Run (fun w a w' ↦ (∃ fails c o, a = .fs fails c o) ∧ WorldStep w a w' ∧
      ¬ ActLeaks w a) _ _ w := hrun.mono fun h ↦ ⟨h.1, h.2.1, h.2.2.2⟩
  have hrun' := ((hsafe.snoc ⟨⟨_, _, _, rfl⟩, hdelete, id⟩).snoc
    ⟨⟨_, _, _, rfl⟩, hmkdir, id⟩).snoc ⟨⟨_, _, _, rfl⟩, hrmdir, htidy⟩
  refine ⟨⟨s₃, w.others⟩, i, j, hrun', hi₃, fun hnull ↦ ?_, fun k hk ↦ ?_,
    run_ownsHeap hb rfl hrun'⟩
  · have hsome : (Sys.contents s₃ i).isSome := by rw [hi₃.contents]; rfl
    cases hi₃.size.symm.trans (contents_isSome_iff.mp hsome hnull)
  · by_cases hkd : k = d
    · rw [hkd, hgone]
    · rw [hframe.file k hkd]
      exact hunused₁ k hk

/-- A directory is made, written one byte, and removed: no entry is left, but a block of the
heap is still used. -/
theorem rmdir_leaks : ∃ w₀ i w, Booted w₀ ∧ (w₀.others = fun _ ↦ none) ∧
    Run WorldStep w₀ [.fs false (.mkdir (some [0x64, 0])) (.ofCode 0),
      .fs false (.write (some i) (some [0x78]) 1) (.ofCode 1),
      .fs false (.rmdir [0x64, 0]) (.ofCode 0)] w ∧
    (∀ j, (w.sys.fileTable j).used = false) ∧ memoryGetUsed w.sys.heap ≠ 0 ∧
    ¬ OwnsHeap w.sys := by
  have hb := booted_bootWorld (w := Clients.init fun _ ↦ 0) ⟨_, [], .nil _⟩
  have hn : Holds [0x64, 0] [0x64] := ⟨by decide, [], rfl⟩
  have hroom : Room (memoryInit fun _ ↦ 0) null (totalSize 1) := by
    refine (Owned.init fun _ ↦ 0).room_iff.mpr ⟨heapStart, by decide, by decide, ?_⟩
    intro b hb hbu
    rw [List.mem_singleton] at hb
    rw [hb] at hbu
    cases hbu
  obtain ⟨i, w, hrun, hothers, hI, _, hflags, hd, _, hslot, hunused⟩ :=
    hb.store (c := .mkdir (some [0x64, 0])) hroom 0x78 hn (by decide) (by decide)
      (.inr ⟨rfl, rfl⟩)
  have hdir : (w.sys.fileTable i).directory = true := by
    rw [FsFile.directory, hflags]
    decide
  obtain ⟨live, bs, hs, _⟩ := hI.heap
  obtain ⟨s', hstep, hframe, hclear, hheap⟩ := hI.rmdir_step hn hslot hdir
  have hnone : ∀ k, (s'.fileTable k).used = false := by
    intro k
    by_cases hk : k = i
    · rw [hk, hclear, clear_used]
    · rw [hframe.file k hk]
      exact hunused k hk
  have hpos : memoryGetUsed s'.heap ≠ 0 := by
    obtain ⟨o, ho⟩ := Option.isSome_iff_exists.mp (hs.data_isSome hd)
    obtain ⟨b, hbm, hbu, _, hreq⟩ := hs.owned.block_of_live ho
    have hle := le_extent hbm hbu
    rw [← hs.owned.rep.used] at hle
    rw [memoryGetUsed, hheap]
    unfold sizeofBlock at hreq
    omega
  exact ⟨_, i, ⟨s', w.others⟩, hb, rfl, hrun.snoc hstep, hnone, hpos, fun h ↦ hpos (h.empty hnone)⟩

end KontolOS.Fs
