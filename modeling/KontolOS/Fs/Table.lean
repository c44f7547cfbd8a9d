import KontolOS.Fs.System
import KontolOS.Strings.Order

/-!
# The file table

`TableOk` is the invariant of the table by itself: used entries have valid names, no two
of them the same, and free entries are empty.  Under it a name leads to at most one slot,
and `fs_find` finds that slot (`TableOk.fsFind_eq`).
-/

namespace KontolOS.Fs

open KontolOS.Lib KontolOS.Memory KontolOS.Strings Function

/-! ## The invariant -/

/-- The flags of an entry: free, a file, or a directory. -/
def FlagsOk (flags : UInt8) : Prop :=
  flags = fsFlagFree ∨ flags = fsFlagUsed ∨ flags = fsFlagUsed ||| fsFlagDirectory

/-- What every entry of the table satisfies. -/
structure FileOk (f : FsFile) : Prop where
  /-- the name field has `FS_MAX_FILENAME` bytes -/
  length : f.name.length = fsMaxFilename
  /-- the flags are among those the filesystem sets -/
  flags : FlagsOk f.flags
  /-- a used entry has a name that is not empty -/
  named : f.used = true → Holds f.name (cstr f.name) ∧ cstr f.name ≠ []
  /-- an entry that is not used is empty -/
  free : f.used = false → f.data = null ∧ f.size = 0
  /-- no file is larger than `FS_MAX_FILESIZE` -/
  size_le : f.size ≤ fsMaxFilesize
  /-- data means contents -/
  size_pos : f.data ≠ null → 0 < f.size

/-- **The invariant of the file table.** -/
structure TableOk (s : Sys) : Prop where
  /-- each entry is in order -/
  file : ∀ i, FileOk (s.fileTable i)
  /-- no name is used twice -/
  names_inj : ∀ i j, (s.fileTable i).used = true → (s.fileTable j).used = true →
    cstr (s.fileTable i).name = cstr (s.fileTable j).name → i = j
  /-- the current directory is a C string -/
  cwd : s.currentDir.length = fsMaxFilename ∧ ∃ n, Holds s.currentDir n

/-! ## Entries -/

section Entries

variable {f : FsFile} {buf dest n : List UInt8}

@[simp] theorem clear_used (f : FsFile) : f.clear.used = false := by
  change (fsFlagFree &&& fsFlagUsed != 0) = false
  decide

@[simp] theorem clear_data (f : FsFile) : f.clear.data = null := rfl

@[simp] theorem clear_size (f : FsFile) : f.clear.size = 0 := rfl

theorem FileOk.clear (h : f.name.length = fsMaxFilename) : FileOk f.clear where
  length := by rw [FsFile.clear, List.length_set, h]
  flags := .inl rfl
  named hu := by
    rw [clear_used] at hu
    cases hu
  free _ := ⟨rfl, rfl⟩
  size_le := Nat.zero_le _
  size_pos h := absurd rfl h

/-- Changing the contents of a used entry. -/
theorem FileOk.setData (h : FileOk f) (hu : f.used = true) {data size : Nat}
    (hle : size ≤ fsMaxFilesize) (hpos : data ≠ null → 0 < size) :
    FileOk { f with data := data, size := size } where
  length := h.length
  flags := h.flags
  named := h.named
  free hf := by
    change f.used = false at hf
    rw [hu] at hf
    cases hf
  size_le := hle
  size_pos := hpos

/-- The name that `strncpy` and the assignment after it put into a field. -/
theorem strncpy_name (h : Holds buf n) (hn : n.length < fsMaxFilename)
    (hlen : dest.length = fsMaxFilename) :
    ∃ name, strncpy dest buf (fsMaxFilename - 1) = some name ∧
      Holds (name.set (fsMaxFilename - 1) 0) n ∧ name.length = fsMaxFilename := by
  unfold fsMaxFilename at *
  rcases Nat.lt_or_eq_of_le (Nat.le_of_lt_succ hn) with hlt | heq
  · refine ⟨_, h.strncpy_eq hlt (by omega), ⟨h.1, ?_⟩, ?_⟩
    · -- the byte set to zero at the end is among the zeros already there
      obtain ⟨k, hk⟩ : ∃ k, 31 - n.length = k + 1 := ⟨31 - n.length - 1, by omega⟩
      have hrep : 31 + 1 - n.length = (k + 1) + 1 := by omega
      have hdrop : dest.drop (31 + 1) = [] := List.drop_eq_nil_of_le (by omega)
      rw [hrep, hdrop, List.append_nil, List.replicate_succ,
        List.set_append_right _ _ (by omega), show 32 - 1 - n.length = k + 1 by omega,
        List.set_cons_succ]
      exact ⟨_, rfl⟩
    · simp only [List.length_append, List.length_replicate, List.length_drop]
      omega
  · refine ⟨_, h.strncpy_eq_take (Nat.le_of_eq heq.symm) (by omega), ⟨h.1, ?_⟩, ?_⟩
    · rw [show n.take (32 - 1) = n from List.take_of_length_le (by omega),
        List.set_append_right _ _ (by omega), show 32 - 1 - n.length = 0 by omega]
      cases hd : dest.drop (32 - 1) with
      | nil =>
          have := congrArg List.length hd
          simp only [List.length_drop, List.length_nil] at this
          omega
      | cons c rest => exact ⟨rest, rfl⟩
    · simp only [List.length_append, List.length_take, List.length_drop]
      omega

end Entries

/-! ## Looking up a name -/

/-- The slot of the used entry with the name `n`. -/
def slotOf (s : Sys) (n : List UInt8) : Option Slot :=
  (List.finRange fsMaxFiles).find? fun i ↦
    (s.fileTable i).used && decide (cstr (s.fileTable i).name = n)

namespace TableOk

variable {s : Sys} {buf n : List UInt8} {i j : Slot} {f : FsFile}

theorem slotOf_eq_some_iff (h : TableOk s) :
    slotOf s n = some i ↔ (s.fileTable i).used = true ∧ cstr (s.fileTable i).name = n := by
  unfold slotOf
  constructor
  · intro hfind
    simpa using List.find?_some hfind
  · rintro ⟨hu, hn⟩
    cases hfind : (List.finRange fsMaxFiles).find? _ with
    | none =>
        have := List.find?_eq_none.mp hfind i (List.mem_finRange i)
        simp [hu, hn] at this
    | some j =>
        have := List.find?_some hfind
        simp only [Bool.and_eq_true, decide_eq_true_eq] at this
        rw [h.names_inj j i this.1 hu (this.2.trans hn.symm)]

theorem slotOf_eq_none_iff :
    slotOf s n = none ↔ ∀ i, (s.fileTable i).used = true → cstr (s.fileTable i).name ≠ n := by
  simp [slotOf, List.find?_eq_none]

/-- **`fs_find` finds the slot of a name.** -/
theorem fsFind_eq (h : TableOk s) (hn : Holds buf n) : fsFind s buf = some (slotOf s n) := by
  have hloop : ∀ l : List Slot, fsFindIn s buf l = some (l.find? fun i ↦
      (s.fileTable i).used && decide (cstr (s.fileTable i).name = n)) := by
    intro l
    induction l with
    | nil => rfl
    | cons i l ih =>
        rw [fsFindIn, ih, List.find?_cons]
        cases hu : (s.fileTable i).used with
        | false => simp
        | true =>
            obtain ⟨r, hr, hiff⟩ := ((h.file i).named hu).1.strcmp_eq hn
            rw [if_pos rfl, hr]
            by_cases hr0 : r = 0
            · simp [hr0, hiff.mp hr0]
            · simp [hr0, mt hiff.mpr hr0]
  exact hloop _

/-- No file is larger than the limit. -/
theorem fsGetSize_le (h : TableOk s) (file : Option Slot) : fsGetSize s file ≤ fsMaxFilesize := by
  cases file with
  | none => exact Nat.zero_le _
  | some i => exact (h.file i).size_le

/-- `fs_find_free` finds a slot that is not used, if there is one. -/
theorem fsFindFree_some (h : fsFindFree s = some i) : (s.fileTable i).used = false := by
  simpa using List.find?_some h

theorem fsFindFree_none : fsFindFree s = none ↔ ∀ i, (s.fileTable i).used = true := by
  simp [fsFindFree, List.find?_eq_none]

/-! ## Changing an entry -/

@[simp] theorem setFile_same : (s.setFile i f).fileTable i = f := update_self _ _ _

theorem setFile_of_ne (hne : j ≠ i) : (s.setFile i f).fileTable j = s.fileTable j :=
  update_of_ne hne _ _

/-- A change of one entry keeps the invariant if the new entry is in order and its name is
not used elsewhere. -/
theorem setFile (h : TableOk s) {heap : Heap} (hf : FileOk f)
    (hname : f.used = true → ∀ j, j ≠ i → (s.fileTable j).used = true →
      cstr (s.fileTable j).name ≠ cstr f.name) :
    TableOk ({ s with heap := heap }.setFile i f) where
  file j := by
    by_cases hj : j = i
    · subst hj
      rw [setFile_same]
      exact hf
    · rw [setFile_of_ne hj]
      exact h.file j
  names_inj j k hj hk heq := by
    by_cases hji : j = i <;> by_cases hki : k = i
    · rw [hji, hki]
    · subst hji
      rw [setFile_same] at hj heq
      rw [setFile_of_ne hki] at hk heq
      exact absurd heq.symm (hname hj k hki hk)
    · subst hki
      rw [setFile_same] at hk heq
      rw [setFile_of_ne hji] at hj heq
      exact absurd heq (hname hk j hji hj)
    · rw [setFile_of_ne hji] at hj heq
      rw [setFile_of_ne hki] at hk heq
      exact h.names_inj j k hj hk heq
  cwd := h.cwd

/-- A change of the contents of an entry keeps the invariant. -/
theorem setData (h : TableOk s) {heap : Heap} {data size : Nat}
    (hu : (s.fileTable i).used = true) (hle : size ≤ fsMaxFilesize)
    (hpos : data ≠ null → 0 < size) :
    TableOk ({ s with heap := heap }.setFile i
      { s.fileTable i with data := data, size := size }) := by
  refine h.setFile ((h.file i).setData hu hle hpos) fun _ j hj hju heq ↦ hj ?_
  exact h.names_inj j i hju hu heq

/-- Clearing an entry keeps the invariant. -/
theorem clear (h : TableOk s) {heap : Heap} :
    TableOk ({ s with heap := heap }.setFile i (s.fileTable i).clear) :=
  h.setFile (.clear (h.file i).length) fun hu ↦ by
    rw [clear_used] at hu
    cases hu

/-- The empty table. -/
theorem init (h : ∀ i, (s.fileTable i).name.length = fsMaxFilename)
    (hcwd : s.currentDir = rootDir) : TableOk (fsInit s) where
  file i := .clear (h i)
  names_inj i _ hi := by
    have : (fsInit s).fileTable i = (s.fileTable i).clear := rfl
    rw [this, clear_used] at hi
    cases hi
  cwd := by
    change s.currentDir.length = _ ∧ ∃ n, Holds s.currentDir n
    rw [hcwd]
    exact ⟨rfl, [0x2F], by decide, List.replicate 30 0, rfl⟩

end TableOk

end KontolOS.Fs
