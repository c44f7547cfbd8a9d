import KontolOS.Fs.Spare
import KontolOS.Memory.Realloc

/-!
# Appending, and the sum of the sizes

`fs_append` compares a 32-bit sum with `FS_MAX_FILESIZE`, allocates that sum, and copies the two
lengths that were added.  As long as the sum of the integers is below `2 ^ 32` the three agree.
If it is not, the sum that is compared is smaller than the file is already: the check passes, and
what is copied is more than what was allocated.
-/

namespace KontolOS.Fs

open KontolOS.Lib KontolOS.Memory KontolOS.Strings

/-- What `fs_append(file, data, size)` owes its caller, `src` being the bytes behind `data`. -/
structure Appends (s : Sys) (i : Slot) (src : List UInt8) (size : Nat) : Prop where
  /-- what would be too large is refused, and nothing changes -/
  refused : fsMaxFilesize < (s.fileTable i).size + size →
    fsAppend kmalloc s (some i) (some src) size = some (-2, s)
  /-- anything else is put behind the old contents, if there is memory for it -/
  appended : (s.fileTable i).size + size ≤ fsMaxFilesize → size ≤ src.length →
    Succeeds s.heap ((s.fileTable i).size + size) →
      ∃ s' c, fsAppend kmalloc s (some i) (some src) size = some ((size : Int), s') ∧
        Stored s s' i c ∧ ∀ old, s.contents i = some old → c = old ++ src.take size
  /-- what is copied fits into the block that is allocated -/
  fits : add32 (s.fileTable i).size size ≤ fsMaxFilesize →
    ∀ ptr h', kmalloc s.heap (add32 (s.fileTable i).size size) = some (ptr, h') → ptr ≠ null →
      ∃ n, (s.fileTable i).size + size ≤ n ∧ Memory.Holds h' ptr n

section

variable {tight : Prop} {s : Sys} {others : Live} {i : Slot} {src : List UInt8} {size : Nat}

/-- What `kmalloc` returns holds what was requested. -/
theorem holds_of_kmalloc {h h' : Heap} {live : Live} {bs : List Block} {ptr : Nat}
    (hw : Owned h live bs) (hmax : size ≤ maxRequest) (hk : kmalloc h size = some (ptr, h'))
    (hptr : ptr ≠ null) : ∃ n, size ≤ n ∧ Memory.Holds h' ptr n := by
  rcases hw.kmalloc (.inl hmax) with hnull | ⟨b, bs', h₁, _, hsome, _, hw'⟩
  · cases hnull.symm.trans hk
    exact absurd rfl hptr
  · cases hsome.symm.trans hk
    obtain ⟨c, hc, hcu, hcp, hreq⟩ := hw'.block_of_live (Function.update_self _ _ _)
    have hreq : size + sizeofBlock ≤ c.size := hreq
    exact ⟨c.size - sizeofBlock, by omega, hw'.holds_iff.mpr ⟨c, hc, hcu, hcp, by omega⟩⟩

/-- **A sum that does not wrap.** -/
theorem Inv.appends (hI : Inv tight s others) (hu : (s.fileTable i).used = true) (hpos : 0 < size)
    (hsum : (s.fileTable i).size + size < 2 ^ 32) : Appends s i src size := by
  have hadd : add32 (s.fileTable i).size size = (s.fileTable i).size + size := add32_of_lt hsum
  have hne : size ≠ 0 := Nat.ne_of_gt hpos
  obtain ⟨live, bs, hs, _⟩ := hI.heap
  refine ⟨fun hbig ↦ by simp [fsAppend, hne, hadd, hbig], fun hle hsrc hroom ↦ ?_,
    fun hle ptr h' hk hptr ↦ ?_⟩
  · have hmax := Nat.le_trans hle (by decide : fsMaxFilesize ≤ maxRequest)
    rcases fsAppend_spec false hI hu hsrc hsum with
      ⟨hzero, _⟩ | ⟨_, hbig, _⟩ | ⟨_, _, ⟨hwhy, _⟩ | ⟨s', c, happ, _, hstored, _, hc⟩⟩
    · exact absurd hzero hne
    · exact absurd hle (Nat.not_le.mpr hbig)
    · -- there is memory, and so `kmalloc` does not fail
      obtain ⟨ptr, h', hk, hptr⟩ := hroom
      have hno := hwhy.resolve_left (by decide)
      rw [← hs.owned.kmalloc_eq_null_iff (Nat.add_pos_right _ hpos) hmax] at hno
      cases hno.symm.trans hk
      exact absurd rfl hptr
    · exact ⟨s', c, happ, hstored, hc⟩
  · rw [hadd] at hk hle
    exact holds_of_kmalloc hs.owned (Nat.le_trans hle (by decide)) hk hptr

/-- **A sum that wraps** is smaller than the file is, and so not refused. -/
theorem Inv.not_appends (hI : Inv tight s others) (hs : size < 2 ^ 32)
    (hwrap : 2 ^ 32 ≤ (s.fileTable i).size + size) : ¬ Appends s i src size := by
  intro ha
  have hsize := (hI.table.file i).size_le
  have hne : size ≠ 0 := by
    unfold fsMaxFilesize at hsize
    omega
  have hadd : add32 (s.fileTable i).size size < (s.fileTable i).size := by
    unfold add32
    unfold fsMaxFilesize at hsize
    omega
  have hpass : ¬ fsMaxFilesize < add32 (s.fileTable i).size size :=
    Nat.not_lt.mpr (Nat.le_trans (Nat.le_of_lt hadd) hsize)
  have hrefused := ha.refused (Nat.lt_of_lt_of_le (by decide) hwrap)
  simp only [fsAppend, hne, hpass, if_false] at hrefused
  obtain ⟨⟨ptr, h'⟩, _, hrefused⟩ := Option.bind_eq_some_iff.mp hrefused
  by_cases hptr : ptr = null
  · rw [if_pos hptr] at hrefused
    cases hrefused
  · rw [if_neg hptr] at hrefused
    obtain ⟨mem, _, hrefused⟩ := Option.bind_eq_some_iff.mp hrefused
    obtain ⟨heap, _, hrefused⟩ := Option.bind_eq_some_iff.mp hrefused
    -- even if the value returned happens to be -2, the size has changed
    have hsame := congrArg (fun r ↦ (r.2.fileTable i).size) (Option.some.inj hrefused)
    simp only [TableOk.setFile_same] at hsame
    exact absurd hsame (Nat.ne_of_lt hadd)

end

/-- **`fs_append` does what it owes exactly if** the sum of the sizes is below `2 ^ 32`, on every
file of every state in reach. -/
theorem appends_iff {w₀ w : World} {acts : List (Act (Option Slot))} (hb : Booted w₀)
    (hr : Run WorldStep w₀ acts w) {i : Slot} (hu : (w.sys.fileTable i).used = true)
    (src : List UInt8) {size : Nat} (hpos : 0 < size) (hs : size < 2 ^ 32) :
    Appends w.sys i src size ↔ (w.sys.fileTable i).size + size < 2 ^ 32 := by
  have hI := hb.inv.1.run hr
  constructor
  · intro ha
    by_contra hwrap
    exact hI.not_appends hs (Nat.le_of_not_lt hwrap) ha
  · exact hI.appends hu hpos

/-- A file of two bytes. -/
theorem exists_file_two : ∃ w i, Run WorldStep (bootWorld (Clients.init fun _ ↦ 0))
    [.fs false (.create (some [0x61, 0])) (.ofCode 0),
      .fs false (.write (some i) (some [0x78, 0x79]) 2) (.ofCode 2)] w ∧
    (w.sys.fileTable i).used = true ∧ (w.sys.fileTable i).size = 2 ∧ Succeeds w.sys.heap 1 := by
  obtain ⟨w, i, hrun, hslot, hc, hspare⟩ := exists_file
    (by decide : ([0x78, 0x79] : List UInt8) ≠ []) (by decide)
  have hI : Inv False w.sys w.others :=
    (booted_bootWorld (w := Clients.init fun _ ↦ 0) ⟨_, [], .nil _⟩).inv.1.run hrun
  obtain ⟨live, bs, hs, _⟩ := hI.heap
  exact ⟨w, i, hrun, (hI.table.slotOf_eq_some_iff.mp hslot).1, (length_of_contents hc).symm,
    hs.owned.succeeds_of_spare (by decide) (by decide) (hspare.mono (by decide)) (by decide)⟩

theorem appends_iff_two : ∃ (w : World) (i : Slot), (w.sys.fileTable i).size = 2 ∧
    (Appends w.sys i [0x7A] 1 ↔ (w.sys.fileTable i).size + 1 < 2 ^ 32) := by
  obtain ⟨w, i, hrun, hu, hsize, _⟩ := exists_file_two
  exact ⟨w, i, hsize, appends_iff (booted_bootWorld ⟨_, [], .nil _⟩) hrun hu [0x7A] (by decide)
    (by decide)⟩

/-- To append `2 ^ 32 - 1` bytes to a file of two, a block for one byte is allocated, which is
to take `2 ^ 32 + 1`. -/
theorem append_wraps : ∃ w i, Run WorldStep (bootWorld (Clients.init fun _ ↦ 0))
    [.fs false (.create (some [0x61, 0])) (.ofCode 0),
      .fs false (.write (some i) (some [0x78, 0x79]) 2) (.ofCode 2)] w ∧
    (∀ src, ¬ Appends w.sys i src 0xFFFFFFFF) ∧
    ∃ ptr h', kmalloc w.sys.heap (add32 (w.sys.fileTable i).size 0xFFFFFFFF) = some (ptr, h') ∧
      ptr ≠ null := by
  obtain ⟨w, i, hrun, hu, hsize, ptr, h', hk, hptr⟩ := exists_file_two
  have hI : Inv False w.sys w.others :=
    (booted_bootWorld (w := Clients.init fun _ ↦ 0) ⟨_, [], .nil _⟩).inv.1.run hrun
  refine ⟨w, i, hrun, fun src ↦ hI.not_appends (by decide) (by rw [hsize]; decide), ptr, h', ?_,
    hptr⟩
  rw [hsize]
  exact hk

end KontolOS.Fs
