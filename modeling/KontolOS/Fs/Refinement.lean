import Mathlib.Data.Finset.Card
import KontolOS.Fs.Directory
import KontolOS.Fs.Spare

/-!
# The filesystem refines a directory

`Refines s m` relates the slots of the file table to the entries of a map.  Every call that
does not run out of memory is matched by the map, with the same code and the same buffer
(`Refines.step`), and so is every run (`run_refines`).
-/

namespace KontolOS.Fs

open KontolOS.Lib KontolOS.Memory KontolOS.Strings Function

/-- The file table `s` represents the directory `m`. -/
structure Refines (s : Sys) (m : Directory) : Prop where
  /-- an entry of the table is one of the map, of the same kind and contents -/
  found : ∀ n i, slotOf s n.chars = some i → ∃ e, m.entries.lookup n = some e ∧
    e.directory = (s.fileTable i).directory ∧ s.contents i = some e.data
  /-- what is not in the table is not in the map -/
  missing : ∀ n, slotOf s n.chars = none → m.entries.lookup n = none

/-- The call asks for memory and gets none. -/
def FsCall.KmallocFails (malloc : Allocator) (s : Sys) : FsCall (Option Slot) → Prop
  | .write (some i) (some _) size => 0 < size ∧ size ≤ fsMaxFilesize ∧ ∃ heap heap',
      freeData s.heap (s.fileTable i).data = some heap ∧ malloc heap size = some (null, heap')
  | .append (some i) (some _) size =>
      0 < size ∧ add32 (s.fileTable i).size size ≤ fsMaxFilesize ∧
        ∃ heap', malloc s.heap (add32 (s.fileTable i).size size) = some (null, heap')
  | _ => False

/-! ## Slots after a change -/

section Slots

variable {s s' : Sys} {i : Slot} {n k : List UInt8}

/-- A change of one entry, which is called `n` before and after if it is used, does not
affect other names. -/
theorem slotOf_frame (hT : TableOk s) (hT' : TableOk s') (hframe : Frame s s' i)
    (hn : (s.fileTable i).used = true → cstr (s.fileTable i).name = n)
    (hn' : (s'.fileTable i).used = true → cstr (s'.fileTable i).name = n) (hk : k ≠ n) :
    slotOf s' k = slotOf s k := by
  apply Option.ext
  intro j
  rw [hT.slotOf_eq_some_iff, hT'.slotOf_eq_some_iff]
  by_cases hj : j = i
  · subst hj
    constructor
    · rintro ⟨hu, hname⟩
      exact absurd (hname.symm.trans (hn' hu)) hk
    · rintro ⟨hu, hname⟩
      exact absurd (hname.symm.trans (hn hu)) hk
  · rw [hframe.file j hj]

/-- The name of a used entry. -/
def TableOk.nameAt (hT : TableOk s) (hu : (s.fileTable i).used = true) : Name where
  chars := cstr (s.fileTable i).name
  ne_nil := ((hT.file i).named hu).2
  short := by
    rw [← (hT.file i).length]
    exact ((hT.file i).named hu).1.length_lt
  noNul := ((hT.file i).named hu).1.1

end Slots

namespace Refines

variable {s s' : Sys} {m m' : Directory} {i : Slot} {n : Name} {str : List UInt8}
  {others : Live} {fails : Bool} {tight : Prop}

/-! ## Looking up -/

/-- A name in the table is found in the map. -/
theorem find_some (hR : Refines s m) (hT : TableOk s) (hslot : slotOf s str = some i) :
    ∃ n e, n.chars = str ∧ m.find str = some (n, e) ∧
      e.directory = (s.fileTable i).directory ∧ s.contents i = some e.data := by
  obtain ⟨hu, rfl⟩ := hT.slotOf_eq_some_iff.mp hslot
  obtain ⟨e, hlookup, hdir, hc⟩ := hR.found (hT.nameAt hu) i hslot
  have hfind := Directory.find_chars (m := m) (n := hT.nameAt hu)
  rw [hlookup] at hfind
  exact ⟨hT.nameAt hu, e, rfl, hfind, hdir, hc⟩

/-- A name that is not in the table is not found. -/
theorem find_none (hR : Refines s m) (hslot : slotOf s str = none) : m.find str = none := by
  cases hname : Name.ofString str with
  | none => rw [Directory.find, hname, Option.bind_none]
  | some n =>
      have hchars := Directory.ofString_eq_some_iff.mp hname
      rw [← hchars] at hslot ⊢
      rw [Directory.find_chars, hR.missing n hslot, Option.map_none]

/-- The map has as many entries as `fs_count` counts. -/
theorem card_eq (hR : Refines s m) (hT : TableOk s) : m.entries.keys.card = fsCount s := by
  have hslot : ∀ {i} (hu : (s.fileTable i).used = true),
      slotOf s (hT.nameAt hu).chars = some i := fun hu ↦ hT.slotOf_eq_some_iff.mpr ⟨hu, rfl⟩
  have hmem : ∀ {i}, i ∈ ((List.finRange fsMaxFiles).filter fun i ↦ (s.fileTable i).used).toFinset ↔
      (s.fileTable i).used = true := by
    intro i
    rw [List.mem_toFinset, List.mem_filter]
    exact and_iff_right (List.mem_finRange i)
  rw [fsCount, List.countP_eq_length_filter,
    ← List.toFinset_card_of_nodup ((List.nodup_finRange _).filter _)]
  symm
  refine Finset.card_bij (fun i hi ↦ hT.nameAt (hmem.mp hi)) ?_ ?_ ?_
  · intro i hi
    obtain ⟨e, he, _⟩ := hR.found _ i (hslot (hmem.mp hi))
    exact Finmap.mem_keys.mpr (Finmap.mem_of_lookup_eq_some he)
  · intro i hi j hj heq
    have hij := hslot (hmem.mp hi)
    rw [heq, hslot (hmem.mp hj)] at hij
    exact (Option.some.inj hij).symm
  · intro n hn
    obtain ⟨e, he⟩ := Finmap.mem_iff.mp (Finmap.mem_keys.mp hn)
    cases hfind : slotOf s n.chars with
    | none =>
        rw [hR.missing n hfind] at he
        cases he
    | some i =>
        obtain ⟨hu, hname⟩ := hT.slotOf_eq_some_iff.mp hfind
        exact ⟨i, hmem.mpr hu, Name.ext hname⟩

/-! ## Changing an entry -/

/-- What a change of the entry `n` leaves alone. -/
theorem unaffected (hR : Refines s m) (hT : TableOk s) (hT' : TableOk s') (hframe : Frame s s' i)
    (hn : (s.fileTable i).used = true → cstr (s.fileTable i).name = n.chars)
    (hn' : (s'.fileTable i).used = true → cstr (s'.fileTable i).name = n.chars)
    (hm : ∀ k, k ≠ n → m'.entries.lookup k = m.entries.lookup k) {k : Name} (hk : k ≠ n) :
    (∀ j, slotOf s' k.chars = some j → ∃ e, m'.entries.lookup k = some e ∧
      e.directory = (s'.fileTable j).directory ∧ s'.contents j = some e.data) ∧
    (slotOf s' k.chars = none → m'.entries.lookup k = none) := by
  have hchars : k.chars ≠ n.chars := fun h ↦ hk (Name.ext h)
  have hslot := slotOf_frame hT hT' hframe hn hn' hchars
  rw [hm k hk, hslot]
  refine ⟨fun j hj ↦ ?_, hR.missing k⟩
  obtain ⟨e, he, hdir, hc⟩ := hR.found k j hj
  have hji : j ≠ i := by
    rintro rfl
    obtain ⟨hu, hname⟩ := hT'.slotOf_eq_some_iff.mp (hslot.trans hj)
    exact hchars (hname.symm.trans (hn' hu))
  exact ⟨e, he, by rw [hframe.file j hji, hdir], by rw [hframe.contents j hji, hc]⟩

/-- The entry `n` is put into slot `i`. -/
theorem put (hR : Refines s m) (hT : TableOk s) (hT' : TableOk s') (hframe : Frame s s' i)
    (hn : (s.fileTable i).used = true → cstr (s.fileTable i).name = n.chars)
    (hu' : (s'.fileTable i).used = true) (hn' : cstr (s'.fileTable i).name = n.chars)
    (hroom : n ∈ m.entries ∨ m.entries.keys.card < fsMaxFiles) {e : Entry}
    (hdir : e.directory = (s'.fileTable i).directory) (hc : s'.contents i = some e.data) :
    Refines s' (m.put n e) := by
  have hothers {k : Name} (hk : k ≠ n) := hR.unaffected hT hT' hframe hn (fun _ ↦ hn')
    (fun k hk ↦ (Directory.lookup_put (e := e) hroom).trans (if_neg hk)) hk
  have hslot : slotOf s' n.chars = some i := hT'.slotOf_eq_some_iff.mpr ⟨hu', hn'⟩
  constructor
  · intro k j hj
    by_cases hk : k = n
    · subst hk
      obtain rfl : i = j := Option.some.inj (hslot.symm.trans hj)
      exact ⟨e, (Directory.lookup_put hroom).trans (if_pos rfl), hdir, hc⟩
    · exact (hothers hk).1 j hj
  · intro k hj
    by_cases hk : k = n
    · rw [hk, hslot] at hj
      cases hj
    · exact (hothers hk).2 hj

/-- The entry `n` in slot `i` gets new contents. -/
theorem stored (hR : Refines s m) (hT : TableOk s) (hT' : TableOk s')
    (hslot : slotOf s n.chars = some i) {e e' : Entry} (he : m.entries.lookup n = some e)
    (hdir : e'.directory = (s.fileTable i).directory) (hst : Stored s s' i e'.data) :
    Refines s' (m.put n e') := by
  obtain ⟨hu, hname⟩ := hT.slotOf_eq_some_iff.mp hslot
  obtain ⟨data, hfile⟩ := hst.file
  refine hR.put hT hT' hst.frame (fun _ ↦ hname) ?_ ?_ (.inl (Finmap.mem_of_lookup_eq_some he)) ?_
    hst.contents
  · rw [hfile]
    exact hu
  · rw [hfile]
    exact hname
  · rw [hfile]
    exact hdir

/-- The entry `n` in slot `i` is removed. -/
theorem removed (hR : Refines s m) (hT : TableOk s) (hT' : TableOk s') (hframe : Frame s s' i)
    (hslot : slotOf s n.chars = some i) (hclear : s'.fileTable i = (s.fileTable i).clear) :
    Refines s' (m.remove n) := by
  obtain ⟨hu, hname⟩ := hT.slotOf_eq_some_iff.mp hslot
  have hu' : (s'.fileTable i).used = false := by rw [hclear, clear_used]
  have hothers {k : Name} (hk : k ≠ n) := hR.unaffected hT hT' hframe (fun _ ↦ hname)
    (fun h ↦ by rw [hu'] at h; cases h)
    (fun k hk ↦ Directory.lookup_remove.trans (if_neg hk)) hk
  constructor
  · intro k j hj
    by_cases hk : k = n
    · -- no slot has the name any more
      obtain ⟨hju, hjn⟩ := hT'.slotOf_eq_some_iff.mp hj
      have hji : j ≠ i := by
        rintro rfl
        rw [hu'] at hju
        cases hju
      rw [hframe.file j hji] at hju hjn
      exact absurd (hT.names_inj j i hju hu (by rw [hjn, hname, hk])) hji
    · exact (hothers hk).1 j hj
  · intro k hj
    by_cases hk : k = n
    · exact Directory.lookup_remove.trans (if_pos hk)
    · exact (hothers hk).2 hj

/-! ## The calls, one by one -/

/-- `fs_create` and `fs_mkdir`. -/
theorem new (hR : Refines s m) (hI : Inv tight s others) {flags : UInt8} {directory : Bool}
    {name : Option (List UInt8)} {code : Int}
    (hflags : flags = fsFlagUsed ∧ directory = false ∨
      flags = fsFlagUsed ||| fsFlagDirectory ∧ directory = true)
    (hname : ∀ buf, name = some buf → ∃ n, Holds buf n) (h : fsNew flags s name = some (code, s')) :
    ∃ m', m.new directory name = (code, m') ∧ Refines s' m' := by
  cases name with
  | none =>
      cases h
      exact ⟨m, rfl, hR⟩
  | some buf =>
      obtain ⟨str, hstr⟩ := hname buf rfl
      rw [Directory.new, hstr.cstr_eq]
      rcases fsNew_spec hI hstr (hflags.imp And.left And.left) with
        ⟨hbad, hnew⟩ | ⟨hne, hlen, hgood⟩
      · cases hnew.symm.trans h
        rw [(Directory.ofString_eq_none_iff hstr.1).mpr hbad]
        exact ⟨m, rfl, hR⟩
      obtain ⟨n, rfl⟩ : ∃ n : Name, n.chars = str := ⟨⟨str, hne, hlen, hstr.1⟩, rfl⟩
      rw [Directory.ofString_eq_some_iff.mpr rfl]
      rcases hgood with ⟨hslot, hnew⟩ | ⟨hslot, hfull, hnew⟩ |
        ⟨hslot, i, f, hfree, hnew, hfn, hfd, hfs, hff, hI', hframe⟩
      · cases hnew.symm.trans h
        obtain ⟨i, hi⟩ := Option.isSome_iff_exists.mp hslot
        obtain ⟨e, he, _⟩ := hR.found n i hi
        exact ⟨m, if_pos (Finmap.mem_of_lookup_eq_some he), hR⟩
      · cases hnew.symm.trans h
        have hcard : ¬ m.entries.keys.card < fsMaxFiles := by
          rw [hR.card_eq hI.table, fsCount, List.countP_eq_length.mpr fun i _ ↦ hfull i,
            List.length_finRange]
          exact Nat.lt_irrefl _
        exact ⟨m, (if_neg (Finmap.lookup_eq_none.mp (hR.missing n hslot))).trans (if_neg hcard), hR⟩
      · cases hnew.symm.trans h
        have hroom : m.entries.keys.card < fsMaxFiles := by
          rw [hR.card_eq hI.table, fsCount]
          refine Nat.lt_of_le_of_ne (List.countP_le_length.trans_eq List.length_finRange)
            fun heq ↦ ?_
          have hall := List.countP_eq_length.mp (heq.trans (List.length_finRange).symm) i
            (List.mem_finRange i)
          rw [hfree] at hall
          cases hall
        have hfi : ((s.setFile i f).fileTable i) = f := TableOk.setFile_same
        have hdir : f.directory = directory := by
          rw [FsFile.directory, hff]
          rcases hflags with ⟨rfl, rfl⟩ | ⟨rfl, rfl⟩ <;> decide
        have hused : f.used = true := by
          rw [FsFile.used, hff]
          rcases hflags with ⟨rfl, rfl⟩ | ⟨rfl, rfl⟩ <;> decide
        refine ⟨m.put n (.empty directory), ?_, ?_⟩
        · exact (if_neg (Finmap.lookup_eq_none.mp (hR.missing n hslot))).trans (if_pos hroom)
        · refine hR.put hI.table hI'.table hframe (fun hu ↦ ?_) ?_ ?_ (.inr hroom) ?_ ?_
          · rw [hfree] at hu
            cases hu
          · rw [hfi, hused]
          · rw [hfi, hfn]
          · rw [hfi, hdir]
            rfl
          · exact contents_setFile_nil (s := s) hfs

/-- A write that returns `-3` has been refused memory. -/
theorem kmallocFails_of_write {malloc : Allocator} {src : List UInt8} {size : Nat}
    (hpos : 0 < size) (hle : size ≤ fsMaxFilesize)
    (h : fsWrite malloc s (some i) (some src) size = some (-3, s')) :
    FsCall.KmallocFails malloc s (.write (some i) (some src) size) := by
  have hint : toInt size ≠ -3 := by
    rw [toInt_of_lt (Nat.lt_of_le_of_lt hle (by decide))]
    omega
  have hne : size ≠ 0 := Nat.ne_of_gt hpos
  refine ⟨hpos, hle, ?_⟩
  simp only [fsWrite, if_neg (Nat.not_lt.mpr hle)] at h
  cases hfree : freeData s.heap (s.fileTable i).data with
  | none => simp [hfree] at h
  | some heap =>
      cases hk : malloc heap size with
      | none => simp [hfree, hne, hk] at h
      | some r =>
          obtain ⟨ptr, heap'⟩ := r
          by_cases hptr : ptr = null
          · exact ⟨heap, heap', rfl, by rw [hk, hptr]⟩
          · cases hcopy : copyIn heap'.mem ptr src size with
            | none => simp [hfree, hne, hk, hptr, hcopy] at h
            | some mem => simp [hfree, hne, hk, hptr, hcopy, hint] at h

/-- An append that returns `-3` has been refused memory. -/
theorem kmallocFails_of_append {malloc : Allocator} {src : List UInt8} {size : Nat}
    (hpos : 0 < size) (hlt : size < 2 ^ 31)
    (hle : add32 (s.fileTable i).size size ≤ fsMaxFilesize)
    (h : fsAppend malloc s (some i) (some src) size = some (-3, s')) :
    FsCall.KmallocFails malloc s (.append (some i) (some src) size) := by
  have hint : toInt size ≠ -3 := by
    rw [toInt_of_lt hlt]
    omega
  have hne : size ≠ 0 := Nat.ne_of_gt hpos
  refine ⟨hpos, hle, ?_⟩
  simp only [fsAppend, if_neg hne, if_neg (Nat.not_lt.mpr hle)] at h
  generalize toInt size = code at h hint
  cases hk : malloc s.heap (add32 (s.fileTable i).size size) with
  | none => simp [hk] at h
  | some r =>
      obtain ⟨ptr, heap⟩ := r
      by_cases hptr : ptr = null
      · exact ⟨heap, by rw [hptr]⟩
      · simp only [hk, Option.bind_eq_bind, Option.bind_some, if_neg hptr,
          Option.bind_eq_some_iff] at h
        obtain ⟨mem, _, heap', _, hret⟩ := h
        exact absurd (congrArg Prod.fst (Option.some.inj hret)) hint

/-- A call on an entry that is found, or not. -/
theorem find_cases (hR : Refines s m) (hI : Inv tight s others) {file : List UInt8}
    (hfile : ∃ str, Holds file str) :
    (fsFind s file = some none ∧ m.find (cstr file) = none) ∨
    ∃ i n e, fsFind s file = some (some i) ∧ m.find (cstr file) = some (n, e) ∧
      slotOf s n.chars = some i ∧ m.entries.lookup n = some e ∧
      e.directory = (s.fileTable i).directory ∧ s.contents i = some e.data := by
  obtain ⟨str, hstr⟩ := hfile
  rw [hI.table.fsFind_eq hstr, hstr.cstr_eq]
  cases hslot : slotOf s str with
  | none => exact .inl ⟨rfl, hR.find_none hslot⟩
  | some i =>
      obtain ⟨n, e, rfl, hfind, hdir, hc⟩ := hR.find_some hI.table hslot
      obtain ⟨e', he, _⟩ := hR.found n i hslot
      have := Directory.find_chars (m := m) (n := n)
      rw [he, hfind] at this
      cases this
      exact .inr ⟨i, n, e, rfl, hfind, hslot, he, hdir, hc⟩

/-- What it is opened to. -/
theorem open_cases (hR : Refines s m) (hI : Inv tight s others) {file : List UInt8}
    {f : Option Slot} (hfile : ∃ str, Holds file str) (hopen : fsOpen s file = some f) :
    (f = none ∧ m.find (cstr file) = none) ∨
    ∃ i n e, f = some i ∧ m.find (cstr file) = some (n, e) ∧
      slotOf s n.chars = some i ∧ m.entries.lookup n = some e ∧
      e.directory = (s.fileTable i).directory ∧ s.contents i = some e.data := by
  rcases hR.find_cases hI hfile with ⟨hfind, hmiss⟩ | ⟨i, n, e, hfind, hrest⟩
  · exact .inl ⟨Option.some.inj (hopen.symm.trans hfind), hmiss⟩
  · exact .inr ⟨i, n, e, Option.some.inj (hopen.symm.trans hfind), hrest⟩

/-- `fs_delete` -/
theorem delete (hR : Refines s m) (hI : Inv tight s others) {name : List UInt8} {code : Int}
    (hname : ∃ n, Holds name n) (h : fsDelete s name = some (code, s')) :
    ∃ m', m.exec (.delete name) = (.ofCode code, m') ∧ Refines s' m' := by
  rw [Directory.exec]
  obtain ⟨str, hstr⟩ := hname
  rw [hstr.cstr_eq]
  rcases fsDelete_spec hI hstr with ⟨hslot, hdel⟩ | ⟨i, t, hslot, hdel, hI', hframe, hclear⟩
  · cases hdel.symm.trans h
    rw [hR.find_none hslot]
    exact ⟨m, rfl, hR⟩
  · cases hdel.symm.trans h
    obtain ⟨n, e, rfl, hfind, _⟩ := hR.find_some hI.table hslot
    rw [hfind]
    exact ⟨m.remove n, rfl, hR.removed hI.table hI'.table hframe hslot hclear⟩

/-- `fs_rmdir` -/
theorem rmdir (hR : Refines s m) (hI : Inv False s others) {name : List UInt8} {code : Int}
    (hname : ∃ n, Holds name n) (h : fsRmdir s name = some (code, s')) :
    ∃ m', m.exec (.rmdir name) = (.ofCode code, m') ∧ Refines s' m' := by
  rw [Directory.exec]
  obtain ⟨str, hstr⟩ := hname
  rw [hstr.cstr_eq]
  rcases fsRmdir_spec hI hstr False.elim with ⟨hslot, hrm⟩ | ⟨i, hslot, hcases⟩
  · cases hrm.symm.trans h
    rw [hR.find_none hslot]
    exact ⟨m, rfl, hR⟩
  obtain ⟨n, e, rfl, hfind, hdir, _⟩ := hR.find_some hI.table hslot
  rw [hfind]
  rcases hcases with ⟨hfile, hrm⟩ | ⟨hisdir, t, hrm, hI', hframe, hclear, _⟩
  · cases hrm.symm.trans h
    exact ⟨m, if_neg (by rw [hdir, hfile]; decide), hR⟩
  · cases hrm.symm.trans h
    exact ⟨m.remove n, if_pos (hdir.trans hisdir),
      hR.removed hI.table hI'.table hframe hslot hclear⟩

/-- `fs_chdir` -/
theorem chdir (hR : Refines s m) (hI : Inv tight s others) {name : Option (List UInt8)}
    {code : Int} (hname : ∀ buf, name = some buf → ∃ n, Holds buf n)
    (h : fsChdir s name = some (code, s')) :
    ∃ m', m.exec (.chdir name) = (.ofCode code, m') ∧ Refines s' m' := by
  obtain ⟨code', t, hch, _, ⟨dir, rfl, _⟩, _, hcode⟩ := fsChdir_spec hI hname
  cases hch.symm.trans h
  refine ⟨m, ?_, ⟨hR.found, hR.missing⟩⟩
  rw [hcode]
  cases name with
  | none => rfl
  | some buf =>
      rw [Directory.exec, Option.elim_some, chdirCode]
      by_cases hroot : cstr buf = [0x2F] ∨ cstr buf = [0x2E, 0x2E]
      · rw [if_pos hroot, if_pos hroot]
      · rw [if_neg hroot, if_neg hroot]
        cases hslot : slotOf s (cstr buf) with
        | none => rw [hR.find_none hslot]
        | some i =>
            obtain ⟨n, e, _, hfind, hdir, _⟩ := hR.find_some hI.table hslot
            simp only [hfind, hdir]

section Files

variable {file : List UInt8} {f : Option Slot} {data : Option (List UInt8)} {size : Nat}
  {code : Int}

/-- `fs_write` -/
theorem write (hR : Refines s m) (hI : Inv tight s others) (hfile : ∃ n, Holds file n)
    (hdata : ∀ src, data = some src → size ≤ src.length)
    (hopen : fsOpen s file = some f)
    (hplenty : ¬ FsCall.KmallocFails (allocator fails) s (.write f data size))
    (h : fsWrite (allocator fails) s f data size = some (code, s')) :
    ∃ m', m.exec (.write file data size) = (.ofCode code, m') ∧ Refines s' m' := by
  rw [Directory.exec]
  rcases hR.open_cases hI hfile hopen with ⟨rfl, hmiss⟩ | ⟨i, n, e, rfl, hsome, hslot, he, hdir, hc⟩
  · cases h
    exact ⟨m, congrArg _ (Directory.modify_missing (.inl hmiss)), hR⟩
  cases data with
  | none =>
      cases h
      exact ⟨m, congrArg _ (Directory.modify_missing (.inr rfl)), hR⟩
  | some src =>
      have hsrc := hdata src rfl
      obtain ⟨hu, _⟩ := hI.table.slotOf_eq_some_iff.mp hslot
      rw [Directory.modify_some hsome]
      rcases fsWrite_spec fails hI hu hsrc with
        ⟨hbig, hw⟩ | ⟨hle, t, hI', ⟨_, hw, hst⟩ | ⟨⟨hpos, _⟩, hw, _⟩⟩
      · cases hw.symm.trans h
        rw [if_neg (Nat.not_le.mpr hbig)]
        exact ⟨m, rfl, hR⟩
      · cases hw.symm.trans h
        have hlen : (src.take size).length ≤ fsMaxFilesize :=
          Nat.le_trans (List.length_take_le _ _) hle
        rw [if_pos hle, Directory.store_of_le hlen]
        exact ⟨_, rfl, hR.stored hI.table hI'.table hslot he hdir hst⟩
      · exact absurd (kmallocFails_of_write hpos hle hw) hplenty

/-- `fs_append` -/
theorem append (hR : Refines s m) (hI : Inv tight s others) (hfile : ∃ n, Holds file n)
    (hlt : size < 2 ^ 32) (hdata : ∀ src, data = some src → size ≤ src.length)
    (hopen : fsOpen s file = some f) (hover : ¬ Overruns fails s (.append f data size))
    (hplenty : ¬ FsCall.KmallocFails (allocator fails) s (.append f data size))
    (h : fsAppend (allocator fails) s f data size = some (code, s')) :
    ∃ m', m.exec (.append file data size) = (.ofCode code, m') ∧ Refines s' m' := by
  rw [Directory.exec]
  rcases hR.open_cases hI hfile hopen with ⟨rfl, hmiss⟩ | ⟨i, n, e, rfl, hsome, hslot, he, hdir, hc⟩
  · cases h
    exact ⟨m, congrArg _ (Directory.modify_missing (.inl hmiss)), hR⟩
  cases data with
  | none =>
      cases h
      exact ⟨m, congrArg _ (Directory.modify_missing (.inr rfl)), hR⟩
  | some src =>
      have hsrc := hdata src rfl
      obtain ⟨hu, _⟩ := hI.table.slotOf_eq_some_iff.mp hslot
      rw [Directory.modify_some hsome]
      have hlen : (e.data ++ src.take size).length = (s.fileTable i).size + size := by
        rw [List.length_append, length_of_contents hc, List.length_take_of_le hsrc]
      -- where the sum wraps around there is no memory
      rcases Nat.lt_or_ge ((s.fileTable i).size + size) (2 ^ 32) with hsum | hwrap
      swap
      · obtain ⟨hpos, hle, hk⟩ := hI.refuses_wrapped hlt hwrap hover
        exact absurd ⟨hpos, hle, s.heap, hk⟩ hplenty
      rcases fsAppend_spec fails hI hu hsrc hsum with
        ⟨hzero, ha⟩ | ⟨hpos, hbig, ha⟩ | ⟨hpos, hle, ⟨_, ha⟩ | ⟨t, c, ha, hI', hst, _, hcat⟩⟩
      · cases ha.symm.trans h
        rw [if_pos hzero]
        exact ⟨m, rfl, hR⟩
      · cases ha.symm.trans h
        rw [if_neg (Nat.ne_of_gt hpos), Directory.store_of_lt (by rw [hlen]; exact hbig)]
        exact ⟨m, rfl, hR⟩
      · have hlt : size < 2 ^ 31 :=
          Nat.lt_of_le_of_lt (Nat.le_trans (Nat.le_add_left _ _) hle) (by decide)
        refine absurd (kmallocFails_of_append hpos hlt ?_ ha) hplenty
        rwa [add32_of_lt (Nat.lt_of_le_of_lt hle (by decide))]
      · cases ha.symm.trans h
        rw [if_neg (Nat.ne_of_gt hpos), Directory.store_of_le (by rw [hlen]; exact hle)]
        rw [hcat e.data hc] at hst
        exact ⟨_, rfl, hR.stored hI.table hI'.table hslot he hdir hst⟩

/-- `fs_truncate` -/
theorem truncate (hR : Refines s m) (hI : Inv tight s others) (hfile : ∃ n, Holds file n)
    (hopen : fsOpen s file = some f) (h : fsTruncate s f = some (code, s')) :
    ∃ m', m.exec (.truncate file) = (.ofCode code, m') ∧ Refines s' m' := by
  rw [Directory.exec]
  rcases hR.open_cases hI hfile hopen with ⟨rfl, hmiss⟩ | ⟨i, n, e, rfl, hsome, hslot, he, hdir, hc⟩
  · cases h
    exact ⟨m, congrArg _ (Directory.modify_missing (.inl hmiss)), hR⟩
  obtain ⟨hu, _⟩ := hI.table.slotOf_eq_some_iff.mp hslot
  obtain ⟨t, htr, hI', hst⟩ := fsTruncate_spec hI hu
  cases htr.symm.trans h
  rw [Directory.modify_some hsome, Directory.store_of_le (Nat.zero_le _)]
  exact ⟨_, rfl, hR.stored hI.table hI'.table hslot he hdir hst⟩

/-- `fs_read` -/
theorem read (hR : Refines s m) (hI : Inv tight s others) (hfile : ∃ n, Holds file n)
    {buffer : Option (List UInt8)} {offset : Nat} {r : Int × Option (List UInt8)}
    (hbuf : ∀ dest, buffer = some dest → size ≤ dest.length) (hopen : fsOpen s file = some f)
    (h : fsRead s f buffer size offset = some r) :
    m.exec (.read file buffer size offset) = (⟨r.1, r.2⟩, m) := by
  rcases hR.open_cases hI hfile hopen with ⟨rfl, hmiss⟩ | ⟨i, n, e, rfl, hsome, hslot, he, hdir, hc⟩
  · cases h
    simp only [Directory.exec, hmiss]
  cases buffer with
  | none =>
      cases h
      simp only [Directory.exec, hsome]
  | some dest =>
      cases (fsRead_spec hI hc (hbuf dest rfl)).symm.trans h
      have htake : (e.data.drop offset).take (min size (e.data.length - offset)) =
          (e.data.drop offset).take size := by
        rw [← List.length_drop, ← List.take_eq_take_min]
      simp only [Directory.exec, hsome, htake]

end Files

/-! ## Every call -/

/-- **The step lemma of the refinement**: a call on files that are opened by name does to the
map what `Directory.exec` says, and has the outcome that the map gives. -/
theorem exec {c : FsCall (List UInt8)} {c' : FsCall (Option Slot)} {o : Outcome}
    (hR : Refines s m) (hI : Inv False s others) (hc : c.Legal fun name ↦ ∃ n, Holds name n)
    (hopen : c.open s = some c') (hover : ¬ Overruns fails s c')
    (hplenty : ¬ c'.KmallocFails (allocator fails) s)
    (hexec : c'.exec (allocator fails) s = some (o, s')) :
    ∃ m', m.exec c = (o, m') ∧ Refines s' m' := by
  cases c with
  | create name =>
      cases hopen
      obtain ⟨⟨code, t⟩, hnew, ⟨⟩⟩ := Option.map_eq_some_iff.mp hexec
      obtain ⟨m', hm, hR'⟩ := hR.new hI (.inl ⟨rfl, rfl⟩) hc hnew
      exact ⟨m', congrArg (Prod.map Outcome.ofCode id) hm, hR'⟩
  | mkdir name =>
      cases hopen
      obtain ⟨⟨code, t⟩, hnew, ⟨⟩⟩ := Option.map_eq_some_iff.mp hexec
      obtain ⟨m', hm, hR'⟩ := hR.new hI (.inr ⟨rfl, rfl⟩) hc hnew
      exact ⟨m', congrArg (Prod.map Outcome.ofCode id) hm, hR'⟩
  | delete name =>
      cases hopen
      obtain ⟨⟨code, t⟩, hdel, ⟨⟩⟩ := Option.map_eq_some_iff.mp hexec
      exact hR.delete hI hc hdel
  | rmdir name =>
      cases hopen
      obtain ⟨⟨code, t⟩, hrm, ⟨⟩⟩ := Option.map_eq_some_iff.mp hexec
      exact hR.rmdir hI hc hrm
  | chdir name =>
      cases hopen
      obtain ⟨⟨code, t⟩, hch, ⟨⟩⟩ := Option.map_eq_some_iff.mp hexec
      exact hR.chdir hI hc hch
  | exist name =>
      cases hopen
      obtain ⟨code, hex, ⟨⟩⟩ := Option.map_eq_some_iff.mp hexec
      refine ⟨m, ?_, hR⟩
      rcases hR.find_cases hI hc with ⟨hfind, hmiss⟩ | ⟨i, n, e, hfind, hsome, _⟩
      · simp only [fsExists, hfind] at hex
        cases hex
        rw [Directory.exec, hmiss]
        rfl
      · simp only [fsExists, hfind] at hex
        cases hex
        rw [Directory.exec, hsome]
        rfl
  | count =>
      cases hopen
      cases hexec
      exact ⟨m, by rw [Directory.exec, hR.card_eq hI.table], hR⟩
  | write file data size =>
      obtain ⟨f, hf, rfl⟩ := Option.map_eq_some_iff.mp hopen
      obtain ⟨⟨code, t⟩, hw, ⟨⟩⟩ := Option.map_eq_some_iff.mp hexec
      exact hR.write hI hc.1 hc.2.2 hf hplenty hw
  | append file data size =>
      obtain ⟨f, hf, rfl⟩ := Option.map_eq_some_iff.mp hopen
      obtain ⟨⟨code, t⟩, ha, ⟨⟩⟩ := Option.map_eq_some_iff.mp hexec
      exact hR.append hI hc.1 hc.2.1 hc.2.2 hf hover hplenty ha
  | truncate file =>
      obtain ⟨f, hf, rfl⟩ := Option.map_eq_some_iff.mp hopen
      obtain ⟨⟨code, t⟩, ht, ⟨⟩⟩ := Option.map_eq_some_iff.mp hexec
      exact hR.truncate hI hc hf ht
  | read file buffer size offset =>
      obtain ⟨f, hf, rfl⟩ := Option.map_eq_some_iff.mp hopen
      obtain ⟨r, hr, ⟨⟩⟩ := Option.map_eq_some_iff.mp hexec
      exact ⟨m, hR.read hI hc.1 hc.2.2 hf hr, hR⟩
  | getSize file =>
      obtain ⟨f, hf, rfl⟩ := Option.map_eq_some_iff.mp hopen
      cases hexec
      refine ⟨m, ?_, hR⟩
      rw [Directory.exec]
      rcases hR.open_cases hI hc hf with ⟨rfl, hmiss⟩ | ⟨i, n, e, rfl, hsome, _, _, _, hcont⟩
      · rw [hmiss]
        rfl
      · rw [hsome, Option.elim_some, length_of_contents hcont]
        rfl
  | isDir file =>
      obtain ⟨f, hf, rfl⟩ := Option.map_eq_some_iff.mp hopen
      cases hexec
      refine ⟨m, ?_, hR⟩
      rw [Directory.exec]
      rcases hR.open_cases hI hc hf with ⟨rfl, hmiss⟩ | ⟨i, n, e, rfl, hsome, _, _, hdir, _⟩
      · rw [hmiss]
        rfl
      · rw [hsome, Option.elim_some, hdir]
        rfl

end Refines

/-! ## Every run -/

/-- A step in which every `kmalloc` of the filesystem succeeds. -/
def AmpleStep (w : World) (a : Act (List UInt8)) (w' : World) : Prop :=
  NamedStep w a w' ∧ ∀ fails c o c', a = .fs fails c o → c.open w.sys = some c' →
    ¬ c'.KmallocFails (allocator fails) w.sys

/-- Opening a file by name gives a handle that may be used. -/
theorem NamedStep.worldStep {w w' : World} {a : Act (List UInt8)} (h : NamedStep w a w') :
    ∃ a', WorldStep w a' w' := by
  cases a with
  | fs fails c o =>
      obtain ⟨_, c', _, hstep⟩ := h
      exact ⟨_, hstep⟩
  | other c => exact ⟨.other c, h⟩

/-- **One step is matched by the map.** -/
theorem Refines.step {w w' : World} {a : Act (List UInt8)} {m : Directory}
    (hI : Inv False w.sys w.others) (hR : Refines w.sys m) (hstep : AmpleStep w a w') :
    ∃ m', Directory.Step m a m' ∧ Inv False w'.sys w'.others ∧ Refines w'.sys m' := by
  obtain ⟨hnamed, hample⟩ := hstep
  obtain ⟨a', hworld⟩ := hnamed.worldStep
  have hI' := (hI.worldStep hworld False.elim).1
  cases a with
  | fs fails c o =>
      obtain ⟨hc, c', hopen, _, hover, _, hexec⟩ := hnamed
      obtain ⟨m', hm, hR'⟩ := hR.exec hI hc hopen hover (hample _ _ _ _ rfl hopen) hexec
      exact ⟨m', hm, hI', hR'⟩
  | other c =>
      obtain ⟨hcall, hsys, ptr, hexec⟩ := hnamed
      obtain ⟨_, h', others', hexec', _, hcontents⟩ := hI.other hcall
      cases hexec'.symm.trans hexec
      refine ⟨m, rfl, hI', ?_⟩
      rw [hsys]
      exact ⟨fun n i hi ↦ by rw [hcontents i]; exact hR.found n i hi, hR.missing⟩

/-- The table is empty after `fs_init`. -/
theorem Booted.refines {w : World} (hb : Booted w) : Refines w.sys .empty := by
  obtain ⟨_, s, _, _, hsys⟩ := hb
  have hnone : ∀ n, slotOf w.sys n = none := by
    intro n
    refine TableOk.slotOf_eq_none_iff.mpr fun i hi ↦ ?_
    rw [hsys] at hi
    cases (clear_used (s.fileTable i)).symm.trans hi
  exact ⟨fun n i hi ↦ absurd hi (by rw [hnone]; simp), fun n _ ↦ Finmap.lookup_empty n⟩

/-- **The filesystem refines a directory**: whatever calls are made, and in whatever order, each
has the outcome that it has on a map from names to entries, and no call changes an entry that
it does not name. -/
theorem run_refines {w₀ w : World} {as : List (Act (List UInt8))} (hb : Booted w₀)
    (hr : Run AmpleStep w₀ as w) :
    ∃ m, Run Directory.Step .empty as m ∧ Refines w.sys m ∧
      ∀ c k, Directory.target c ≠ some k.chars →
        (m.exec c).2.entries.lookup k = m.entries.lookup k := by
  obtain ⟨m, hrun, _, hR⟩ := hr.simulate
    (R := fun w m ↦ Inv False w.sys w.others ∧ Refines w.sys m)
    (fun ⟨hI, hR⟩ hstep ↦ hR.step hI hstep) ⟨hb.inv.1, hb.refines⟩
  exact ⟨m, hrun, hR, fun _ _ hk ↦ Directory.lookup_exec hk⟩

/-! ## A run -/

/-- A call that gets no memory returns -3. -/
theorem code_of_kmallocFails {malloc : Allocator} {s s' : Sys} {c : FsCall (Option Slot)}
    {o : Outcome} (h : c.KmallocFails malloc s) (hexec : c.exec malloc s = some (o, s')) :
    o.code = -3 := by
  match c, h with
  | .write (some i) (some src) size, h =>
      obtain ⟨hpos, hle, heap, heap', hfree, hk⟩ := h
      simp only [FsCall.exec, fsWrite, if_neg (Nat.not_lt.mpr hle), hfree, hk, Option.bind_eq_bind,
        Option.bind_some, if_neg (Nat.ne_of_gt hpos), if_true, Option.pure_def,
        Option.map_some] at hexec
      cases hexec
      rfl
  | .append (some i) (some src) size, h =>
      obtain ⟨hpos, hle, heap', hk⟩ := h
      simp only [FsCall.exec, fsAppend, if_neg (Nat.not_lt.mpr hle), hk, Option.bind_eq_bind,
        Option.bind_some, if_neg (Nat.ne_of_gt hpos), if_true, Option.pure_def,
        Option.map_some] at hexec
      cases hexec
      rfl

/-- A step with another code -/
theorem ampleStep_of_code {w w' : World} {fails : Bool} {c : FsCall (List UInt8)}
    {c' : FsCall (Option Slot)} {o : Outcome} (hstep : WorldStep w (.fs fails c' o) w')
    (hcode : o.code ≠ -3) (hc : c.Legal fun name ↦ ∃ n, Holds name n)
    (hopen : c.open w.sys = some c') : AmpleStep w (.fs fails c o) w' := by
  refine ⟨⟨hc, c', hopen, hstep⟩, ?_⟩
  rintro _ _ _ d ⟨⟩ hd hfails
  cases hopen.symm.trans hd
  exact hcode (code_of_kmallocFails hfails hstep.2.2.2)

/-- A file is created, written, appended to, read from its third byte on, and deleted. -/
def readBack : List (Act (List UInt8)) :=
  [.fs false (.create (some [0x61, 0])) (.ofCode 0),
    .fs false (.write [0x61, 0] (some [1, 2, 3]) 3) (.ofCode 3),
    .fs false (.append [0x61, 0] (some [4]) 1) (.ofCode 1),
    .fs false (.read [0x61, 0] (some [0, 0, 9]) 3 2) ⟨2, some [3, 4, 9]⟩,
    .fs false (.delete [0x61, 0]) (.ofCode 0)]

theorem exists_readBack : ∃ w, Run AmpleStep (bootWorld (Clients.init fun _ ↦ 0)) readBack w := by
  have hb := booted_bootWorld (w := Clients.init fun _ ↦ 0) ⟨_, [], .nil _⟩
  have hI : Inv True _ _ := hb.inv.1
  have hn : Holds [0x61, 0] [0x61] := ⟨by decide, [], rfl⟩
  have hopen : ∀ {s others i c}, Inv True s others → EntryAt s i [0x61] c →
      fsOpen s [0x61, 0] = some (some i) := by
    intro s others i c hI he
    rw [fsOpen, hI.table.fsFind_eq hn, he.slotOf_eq hI]
  obtain ⟨i, f, hcreate, hI₁, _, _, he₁, _⟩ := hI.new_step hn (by decide) (by decide)
    (hb.slotOf_eq _) ⟨⟨0, by decide⟩, hb.unused _⟩ (.inl ⟨rfl, rfl⟩)
  obtain ⟨s₂, hwrite, _, hI₂, hstored₂, hs⟩ :=
    Inv.spare_write_step (w := ⟨_, _⟩) (k := 1000) hI₁ he₁.used
      (by decide : 0 < ([1, 2, 3] : List UInt8).length) (by decide) (by decide)
      ((spare_init _).mono (by decide))
  have he₂ := he₁.stored hstored₂
  obtain ⟨s₃, happend, hI₃, hstored₃⟩ :=
    Inv.spare_append_step (w := ⟨_, _⟩) hI₂ he₂ (by decide : 0 < ([4] : List UInt8).length)
      (by decide) (hs.mono (by decide))
  have he₃ := he₂.stored hstored₃
  have hread : fsRead s₃ (some i) (some [0, 0, 9]) 3 2 = some (2, some [3, 4, 9]) :=
    fsRead_spec hI₃ he₃.contents (Nat.le_refl 3)
  obtain ⟨s₄, hdelete, _⟩ := Inv.delete_step (w := ⟨s₃, _⟩) hI₃ hn (he₃.slotOf_eq hI₃)
  have hname : ∀ buf, some [0x61, 0] = some buf → ∃ n, Holds buf n := by
    rintro _ ⟨⟩
    exact ⟨_, hn⟩
  have hstep₁ := ampleStep_of_code (c := .create (some [0x61, 0])) hcreate (by decide) hname rfl
  have hopen₁ := congrArg (Option.map (FsCall.write · (some [1, 2, 3]) 3)) (hopen hI₁ he₁)
  have hstep₂ := ampleStep_of_code (c := .write [0x61, 0] (some [1, 2, 3]) 3) hwrite (by decide)
    ⟨⟨_, hn⟩, by decide, whole_length _⟩ hopen₁
  have hopen₂ := congrArg (Option.map (FsCall.append · (some [4]) 1)) (hopen hI₂ he₂)
  have hstep₃ := ampleStep_of_code (c := .append [0x61, 0] (some [4]) 1) happend (by decide)
    ⟨⟨_, hn⟩, by decide, whole_length _⟩ hopen₂
  have hopen₃ := congrArg (Option.map (FsCall.read · (some [0, 0, 9]) 3 2)) (hopen hI₃ he₃)
  have hworld : WorldStep ⟨s₃, fun _ ↦ none⟩
      (.fs false (.read (some i) (some [0, 0, 9]) 3 2) ⟨2, some [3, 4, 9]⟩) ⟨s₃, fun _ ↦ none⟩ := by
    refine ⟨⟨validHandle he₃.used, by decide, whole_length _⟩, id, rfl, ?_⟩
    rw [FsCall.exec, hread, Option.map_some]
  have hstep₄ := ampleStep_of_code (c := .read [0x61, 0] (some [0, 0, 9]) 3 2) hworld (by decide)
    ⟨⟨_, hn⟩, by decide, whole_length _⟩ hopen₃
  have hstep₅ := ampleStep_of_code (c := .delete [0x61, 0]) hdelete (by decide) ⟨_, hn⟩ rfl
  exact ⟨_, .cons hstep₁ (.cons hstep₂ (.cons hstep₃ (.cons hstep₄ (.single hstep₅))))⟩

theorem run_refines_readBack : ∃ w m,
    Run AmpleStep (bootWorld (Clients.init fun _ ↦ 0)) readBack w ∧
      Run Directory.Step .empty readBack m ∧ Refines w.sys m := by
  have hb := booted_bootWorld (w := Clients.init fun _ ↦ 0) ⟨_, [], .nil _⟩
  obtain ⟨w, hrun⟩ := exists_readBack
  obtain ⟨m, hm, hR, _⟩ := run_refines hb hrun
  exact ⟨w, m, hrun, hm, hR⟩

end KontolOS.Fs
