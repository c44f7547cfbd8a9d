import KontolOS.Fs.Atomicity
import KontolOS.Fs.Spare

/-!
# Size and data of an entry

As long as no `fs_write` loses data, an entry is either empty, or its `data` points to a
live block with room for its `size`.  Then a read that returns a count has copied that many
bytes of the file, and an append publishes the old contents and the new bytes and nothing
else (`run_consistent`).
-/

namespace KontolOS.Fs

open KontolOS.Lib KontolOS.Memory KontolOS.Strings

/-- Size and data of the entries of `s` agree, and readers and writers may rely on it. -/
structure Consistent (s : Sys) : Prop where
  /-- an entry is empty, or points to a live block that is large enough -/
  entries : ∀ i, (s.fileTable i).used = true →
    ((s.fileTable i).size = 0 ∧ (s.fileTable i).data = null) ∨
    (1 ≤ (s.fileTable i).size ∧ (s.fileTable i).size ≤ fsMaxFilesize ∧
      ∃ bs, BlockList s.heap.mem s.heap.heapStart bs ∧ ∃ b ∈ bs, b.used = true ∧
        b.addr + sizeofBlock = (s.fileTable i).data ∧
        (s.fileTable i).size + sizeofBlock ≤ b.size)
  /-- a positive count returned by `fs_read` is the number of bytes of the file it copied -/
  read : ∀ i dest size offset n dest', (s.fileTable i).used = true → size ≤ dest.length →
    fsRead s (some i) (some dest) size offset = some (n, some dest') → 0 < n →
      ∃ c, s.contents i = some c ∧ n = (min size (c.length - offset) : Nat) ∧
        dest' = (c.drop offset).take size ++ dest.drop n.toNat
  /-- `fs_append` publishes the old contents followed by the bytes passed -/
  append : ∀ fails i src size n s', (s.fileTable i).used = true → size ≤ src.length →
    (s.fileTable i).size + size < 2 ^ 32 →
    fsAppend (allocator fails) s (some i) (some src) size = some (n, s') → 0 ≤ n →
      ∃ c, s.contents i = some c ∧ s'.contents i = some (c ++ src.take size)

theorem Inv.consistent {tight : Prop} {s : Sys} {others : Live} (hI : Inv tight s others)
    (hr : Readable s) : Consistent s := by
  obtain ⟨live, bs, hs, _⟩ := hI.heap
  refine ⟨fun i hu ↦ ?_, ?_, ?_⟩
  · by_cases hd : (s.fileTable i).data = null
    · exact .inl ⟨contents_isSome_iff.mp (hr i) hd, hd⟩
    · obtain ⟨_, o, ho, hreq, _⟩ := hs.data i hd
      obtain ⟨b, hb, hbu, hbd, hroom⟩ := hs.owned.block_of_live ho
      rw [hreq] at hroom
      exact .inr ⟨(hI.table.file i).size_pos hd, (hI.table.file i).size_le, bs,
        BlockList.of_rep hs.owned.rep, b, hb, hbu, hbd, hroom⟩
  · intro i dest size offset n dest' hu hdest hread hpos
    obtain ⟨c, hc⟩ := Option.isSome_iff_exists.mp (hr i)
    rw [fsRead_spec hI hc hdest] at hread
    cases hread
    exact ⟨c, hc, rfl, rfl⟩
  · intro fails i src size n s' hu hsrc hsum happend hpos
    obtain ⟨c, hc⟩ := Option.isSome_iff_exists.mp (hr i)
    rcases fsAppend_spec fails hI hu hsrc hsum with
      ⟨_, h⟩ | ⟨_, _, h⟩ | ⟨_, _, ⟨_, h⟩ | ⟨s₁, c₁, h, _, hstored, _, hc₁⟩⟩
    · cases h.symm.trans happend
      exact absurd hpos (by decide)
    · cases h.symm.trans happend
      exact absurd hpos (by decide)
    · cases h.symm.trans happend
      exact absurd hpos (by decide)
    · cases h.symm.trans happend
      exact ⟨c, hc, by rw [hstored.contents, hc₁ c hc]⟩

/-- **Size and data agree** in every state of every run from `fs_init` in which no `fs_write`
fails for want of memory on an entry that holds data.  Other allocations may fail. -/
theorem run_consistent {w₀ w : World} {acts : List (Act (Option Slot))} (hb : Booted w₀)
    (hr : Run (fun w a w' ↦ WorldStep w a w' ∧ ¬ ActLoses w a) w₀ acts w) :
    Consistent w.sys := by
  have hinv : Inv False w.sys w.others ∧ Readable w.sys := by
    refine hr.invariant (I := fun w ↦ Inv False w.sys w.others ∧ Readable w.sys) ?_ hb.inv
    rintro w a w' ⟨hI, hread⟩ ⟨hstep, hsafe⟩
    obtain ⟨hI', hread'⟩ := hI.worldStep hstep False.elim
    exact ⟨hI', hread' hsafe hread⟩
  exact hinv.1.consistent hinv.2

/-- Of two files that have been written, one has been appended to, and to append once more has
failed; the other has been emptied. -/
theorem run_consistent_two_files : ∃ w i j,
    Run (fun w a w' ↦ WorldStep w a w' ∧ ¬ ActLoses w a) (bootWorld (Clients.init fun _ ↦ 0))
      [.fs false (.create (some [0x61, 0])) (.ofCode 0),
        .fs false (.write (some i) (some [1, 2, 3]) 3) (.ofCode 3),
        .fs false (.create (some [0x62, 0])) (.ofCode 0),
        .fs false (.write (some j) (some [4]) 1) (.ofCode 1),
        .fs false (.append (some i) (some [5, 6]) 2) (.ofCode 2),
        .fs true (.append (some i) (some [7]) 1) (.ofCode (-3)),
        .fs false (.truncate (some j)) (.ofCode 0)] w ∧
    EntryAt w.sys i [0x61] [1, 2, 3, 5, 6] ∧ EntryAt w.sys j [0x62] [] ∧ Consistent w.sys := by
  have hb := booted_bootWorld (w := Clients.init fun _ ↦ 0) ⟨_, [], .nil _⟩
  obtain ⟨w, i, j, hij, hrun, _, hI, hi, hj, _⟩ := exists_two_files
  have hfails : WorldStep w (.fs true (.append (some i) (some [7]) 1) (.ofCode (-3))) w := by
    have hlegal : (FsCall.append (some i) (some [7]) 1).Legal (ValidHandle w.sys) :=
      (legal_whole hi.used (by decide)).2
    refine ⟨hlegal, hI.not_overruns (by decide), rfl, ?_⟩
    have hsum : add32 (w.sys.fileTable i).size 1 ≤ fsMaxFilesize := by rw [hi.size]; decide
    have hk : outOfMemory w.sys.heap (add32 (w.sys.fileTable i).size 1) =
        some (null, w.sys.heap) := rfl
    have hrefused := fsAppend_outOfMemory [7] Nat.one_pos hsum hk
    exact congrArg (Option.map (Prod.map Outcome.ofCode id)) hrefused
  obtain ⟨s', htruncate, _, hstored⟩ := hI.truncate_step hj.used
  have hsafe : Run (fun w a w' ↦ WorldStep w a w' ∧ ¬ ActLoses w a) _ _ w :=
    hrun.mono fun h ↦ ⟨h.2.1, h.2.2.1⟩
  have hrun' := (hsafe.snoc ⟨hfails, id⟩).snoc ⟨htruncate, id⟩
  exact ⟨⟨s', w.others⟩, i, j, hrun', hi.frame hstored.frame hij, hj.stored hstored,
    run_consistent hb hrun'⟩

/-- After a write that loses data, a file has one byte and no data, and `fs_read` returns 1
without touching the buffer. -/
theorem lost_data_inconsistent : ∃ w₀ acts w i, Booted w₀ ∧ Run WorldStep w₀ acts w ∧
    (w.sys.fileTable i).used = true ∧ (w.sys.fileTable i).size = 1 ∧
    (w.sys.fileTable i).data = null ∧
    fsRead w.sys (some i) (some [0]) 1 0 = some (1, some [0]) ∧ ¬ Consistent w.sys := by
  obtain ⟨w₀, w, i, s', hb, hrun, hstep, hu, hd, hsize, hf, _⟩ := overwrite_nearly_full
  have hu' : (s'.fileTable i).used = true := by rw [hf]; exact hu
  have hsize' : (s'.fileTable i).size = 1 := by rw [hf]; exact hsize
  have hd' : (s'.fileTable i).data = null := by rw [hf]
  refine ⟨w₀, _, ⟨s', w.others⟩, i, hb, hrun.snoc hstep, hu', hsize', hd', ?_, fun hc ↦ ?_⟩
  · have hone : toInt (if 1 < sub32 1 0 then 1 else sub32 1 0) = 1 := by decide
    simp only [fsRead, hsize', hd', ↓reduceIte, hone]
    rfl
  · rcases hc.entries i hu' with ⟨h, _⟩ | ⟨_, _, bs, _, b, _, _, hbd, _⟩
    · rw [hsize'] at h
      cases h
    · rw [hd'] at hbd
      exact absurd hbd (Nat.ne_of_gt (Nat.succ_pos _))

end KontolOS.Fs
