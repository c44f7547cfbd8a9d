import KontolOS.Fs.Steps

/-!
# Calls that fail

A call that returns a negative code should leave the filesystem as it was.  All calls do, with two
exceptions: `fs_write` on a file with contents, if the heap has no room for the new contents even
after the old have been freed, and `fs_append` when it overruns the heap.  `failed_unchanged_iff`
says that these are the only exceptions, in every state that any use of the filesystem and the heap
can lead to.
-/

namespace KontolOS.Fs

open KontolOS.Lib KontolOS.Memory KontolOS.Strings Function

/-! ## What can be observed -/

/-- What can be observed of an entry. -/
structure View where
  /-- its name -/
  name : List UInt8
  /-- whether it is a directory -/
  directory : Bool
  /-- its size -/
  size : Nat
  /-- its contents, `none` if `fs_read` would copy nothing of them -/
  contents : Option (List UInt8)

/-- What can be observed of slot `i`. -/
def Sys.view (s : Sys) (i : Slot) : Option View :=
  if (s.fileTable i).used then
    some ⟨cstr (s.fileTable i).name, (s.fileTable i).directory, (s.fileTable i).size,
      s.contents i⟩
  else none

/-- What can be observed of the filesystem: the entries and the current directory. -/
def Sys.observe (s : Sys) : (Slot → Option View) × List UInt8 := (s.view, cstr s.currentDir)

/-- Contents that are lost are seen to be lost. -/
theorem observe_ne_of_lost {s s' : Sys} {i : Slot} (hu : (s.fileTable i).used = true)
    (hf : s'.fileTable i = { s.fileTable i with data := null })
    (hc : (s.contents i).isSome) (hc' : s'.contents i = none) : s'.observe ≠ s.observe := by
  intro heq
  have hview : s'.view i = s.view i := congrFun (congrArg Prod.fst heq) i
  have hu' : (s'.fileTable i).used = true := by rw [hf]; exact hu
  rw [Sys.view, Sys.view, if_pos hu, if_pos hu'] at hview
  have := congrArg View.contents (Option.some.inj hview)
  simp only at this
  rw [hc'] at this
  rw [← this] at hc
  cases hc

/-- The call returns, and if it fails it leaves all as it was. -/
def Atomic (s : Sys) (c : FsCall (Option Slot)) : Prop :=
  ∃ o s', c.exec kmalloc s = some (o, s') ∧ (o.code < 0 → s'.observe = s.observe)

/-! ## Appends that overrun the heap -/

/-- A `size_t` that is negative as an `int`. -/
theorem toInt_neg {n : Nat} (hle : 2 ^ 31 ≤ n) (hlt : n < 2 ^ 32) : toInt n < 0 := by
  unfold toInt
  rw [Int.bmod_def]
  split <;> omega

section

variable {tight : Prop} {s s' : Sys} {others : Live} {i : Slot} {src : List UInt8} {size : Nat}
  {code : Int}

/-- An append that returns with its block makes the file smaller, and returns a negative code. -/
theorem fsAppend_shrinks (hI : Inv tight s others) (hlt : size < 2 ^ 32)
    (hover : Overruns false s (.append (some i) (some src) size))
    (happend : fsAppend kmalloc s (some i) (some src) size = some (code, s')) :
    code < 0 ∧ (s'.fileTable i).size < (s.fileTable i).size ∧
      (s'.fileTable i).flags = (s.fileTable i).flags := by
  obtain ⟨_, hwrap, hroom⟩ := hover
  obtain ⟨hadd, hless, hbig⟩ := hI.add32_wraps hlt (Nat.le_of_lt hwrap)
  have hsize := (hI.table.file i).size_le
  have hpass : ¬ fsMaxFilesize < (s.fileTable i).size + size - 2 ^ 32 :=
    Nat.not_lt.mpr (Nat.le_trans (Nat.le_of_lt hless) hsize)
  have hne : size ≠ 0 := Nat.ne_of_gt (Nat.lt_of_lt_of_le (by decide) hbig)
  obtain ⟨live, bs, hs, _⟩ := hI.heap
  simp only [fsAppend, hne, hadd, hpass, if_false] at happend
  obtain ⟨⟨ptr, heap⟩, hk, happend⟩ := Option.bind_eq_some_iff.mp happend
  have hptr : ptr ≠ null := hs.owned.kmalloc_ne_null (Nat.sub_pos_of_lt hwrap)
    (Nat.le_trans (Nat.not_lt.mp hpass) (by decide)) hroom hk
  rw [if_neg hptr] at happend
  obtain ⟨mem, _, happend⟩ := Option.bind_eq_some_iff.mp happend
  obtain ⟨heap', _, happend⟩ := Option.bind_eq_some_iff.mp happend
  obtain ⟨rfl, rfl⟩ := Prod.mk.inj (Option.some.inj happend)
  rw [TableOk.setFile_same]
  exact ⟨toInt_neg hbig hlt, hless, rfl⟩

/-- A file that has got smaller is seen to have done so. -/
theorem observe_ne_of_smaller (hu : (s.fileTable i).used = true)
    (hsize : (s'.fileTable i).size < (s.fileTable i).size)
    (hflags : (s'.fileTable i).flags = (s.fileTable i).flags) : s'.observe ≠ s.observe := by
  intro heq
  have hview : s'.view i = s.view i := congrFun (congrArg Prod.fst heq) i
  have hu' : (s'.fileTable i).used = true := by rw [FsFile.used, hflags]; exact hu
  rw [Sys.view, Sys.view, if_pos hu, if_pos hu'] at hview
  exact absurd (congrArg View.size (Option.some.inj hview)) (Nat.ne_of_lt hsize)

/-- **A legal call** that does not overrun the heap returns, and changes nothing when it fails
unless it loses data. -/
theorem atomic_iff_not_loses {c : FsCall (Option Slot)} (hI : Inv False s others)
    (hc : c.Legal (ValidHandle s)) (hover : ¬ Overruns false s c) :
    (∃ o s', c.exec kmalloc s = some (o, s')) ∧ (Atomic s c ↔ ¬ Loses false s c) := by
  obtain ⟨o, s', hexec, _, he⟩ := exec_spec false hI hc hover False.elim
  refine ⟨⟨o, s', hexec⟩, ?_, fun hn ↦ ⟨o, s', hexec, fun hneg ↦ ?_⟩⟩
  · rintro ⟨o', t, hexec', hsame⟩ hloses
    cases hexec'.symm.trans hexec
    obtain ⟨hneg, i, hu, hf, hsome, hnone⟩ := he.loses hloses
    exact observe_ne_of_lost hu hf hsome hnone (hsame hneg)
  · rw [he.atomic hn hneg]

/-- One that overruns the heap, if it returns, returns a negative code and has changed the file. -/
theorem exec_of_overruns {c : FsCall (Option Slot)} {o : Outcome} (hI : Inv tight s others)
    (hc : c.Legal (ValidHandle s)) (hover : Overruns false s c)
    (hexec : c.exec kmalloc s = some (o, s')) : o.code < 0 ∧ s'.observe ≠ s.observe := by
  cases c with
  | append file data size =>
      cases file with
      | none => exact hover.elim
      | some i =>
          cases data with
          | none => exact hover.elim
          | some src =>
              obtain ⟨⟨code, t⟩, happend, ⟨⟩⟩ := Option.map_eq_some_iff.mp hexec
              obtain ⟨hneg, hsize, hflags⟩ := fsAppend_shrinks hI hc.2.1 hover happend
              exact ⟨hneg, observe_ne_of_smaller (hc.1 i rfl) hsize hflags⟩
  | _ => exact hover.elim

end

/-! ## A heap that is nearly full -/

/-- With the heap nearly full there is no room to overwrite a file of one byte by 100: the
entry loses its data and keeps its size. -/
theorem overwrite_nearly_full : ∃ w₀ w i s', Booted w₀ ∧
    Run WorldStep w₀ [.fs false (.create (some [0x61, 0])) (.ofCode 0),
      .fs false (.write (some i) (some [0x78]) 1) (.ofCode 1)] w ∧
    WorldStep w (.fs false (.write (some i) (some (List.replicate 100 0x79)) 100) (.ofCode (-3)))
      ⟨s', w.others⟩ ∧
    (w.sys.fileTable i).used = true ∧ (w.sys.fileTable i).data ≠ null ∧
    (w.sys.fileTable i).size = 1 ∧ s'.fileTable i = { w.sys.fileTable i with data := null } ∧
    ¬ Room w.sys.heap (w.sys.fileTable i).data (totalSize 100) ∧
    ¬ Room w.sys.heap null (totalSize 101) := by
  obtain ⟨v, hreach, ⟨o, ho, hreq⟩, hroom⟩ := nearly_full
  have hb := booted_bootWorld hreach
  have hn : Holds [0x61, 0] [0x61] := ⟨by decide, [], rfl⟩
  obtain ⟨i, w, hrun, hothers, hI, hu, _, hd, hsize, _⟩ :=
    hb.store (c := .create (some [0x61, 0])) hroom 0x78 hn (by decide) (by decide) (.inl ⟨rfl, rfl⟩)
  -- the other client still holds its block, and so there is no room for 100 bytes
  obtain ⟨live, bs, hs, _⟩ := hI.heap
  have ho' : w.others (heapStart + sizeofBlock) = some o := by rw [hothers]; exact ho
  have hfull : ∀ {p n}, heapStart + sizeofBlock ≠ p → 36 < n → ¬ Room w.sys.heap p n :=
    fun hne hn ↦ hs.owned.not_room (hs.others_le _ _ ho') hne (Nat.zero_lt_of_lt hn) (by
      rw [hreq]
      unfold heapSize sizeofBlock
      omega)
  have hno : ¬ Room w.sys.heap (w.sys.fileTable i).data (totalSize 100) := by
    refine hfull (fun heq ↦ ?_) (by decide)
    rw [heq, (hs.data i hd).1] at ho'
    cases ho'
  have hlen : (List.replicate 100 (0x79 : UInt8)).length = 100 := List.length_replicate
  rcases fsWrite_spec false hI hu (Nat.le_of_eq hlen.symm) with ⟨hbig, _⟩ |
    ⟨_, s', _, ⟨hwhy, _⟩ | ⟨_, hwrite, _, hf, _⟩⟩
  · exact absurd hbig (by decide)
  · rcases hwhy with h | ⟨_, hroom'⟩
    · cases h
    · exact absurd hroom' hno
  · have hlegal : (FsCall.write (some i) (some (List.replicate 100 0x79)) 100).Legal
        (ValidHandle w.sys) := (legal_whole hu (by decide)).1
    refine ⟨_, w, i, s', hb, hrun, ⟨hlegal, id, rfl, ?_⟩, hu, hd, hsize, hf, hno,
      hfull (by decide) (by decide)⟩
    exact congrArg (Option.map (Prod.map Outcome.ofCode id)) hwrite

/-! ## When failed calls change nothing -/

/-- **Failed calls change nothing, except for `fs_write` when it loses data**, and for `fs_append`
when it overruns the heap.  In every state reached from `fs_init`, a legal call returns and leaves
all as it was, if it returns a negative code, exactly if it is neither an `fs_write` to a file with
data, of a size for which there is no room next to the blocks of all others, nor an `fs_append` that
gets a block for a sum that has wrapped around; and that, if it returns, does return a negative code
and has changed the file. -/
theorem failed_unchanged_iff {w₀ w : World} {acts : List (Act (Option Slot))} (hb : Booted w₀)
    (hr : Run WorldStep w₀ acts w) {c : FsCall (Option Slot)}
    (hc : c.Legal (ValidHandle w.sys)) :
    (¬ Overruns false w.sys c → ∃ o s', c.exec kmalloc w.sys = some (o, s')) ∧
    (Atomic w.sys c ↔
      (¬ ∃ i src size, c = .write (some i) (some src) size ∧
        (w.sys.fileTable i).data ≠ null ∧ 0 < size ∧ size ≤ fsMaxFilesize ∧
        ¬ Room w.sys.heap (w.sys.fileTable i).data (totalSize size)) ∧
      ¬ Overruns false w.sys c) ∧
    (Overruns false w.sys c → ∀ o s', c.exec kmalloc w.sys = some (o, s') →
      o.code < 0 ∧ s'.observe ≠ w.sys.observe) := by
  have hI := Inv.run hb.inv.1 hr
  have hl : Loses false w.sys c ↔ ∃ i src size, c = .write (some i) (some src) size ∧
      (w.sys.fileTable i).data ≠ null ∧ 0 < size ∧ size ≤ fsMaxFilesize ∧
      ¬ Room w.sys.heap (w.sys.fileTable i).data (totalSize size) := by
    constructor
    · intro hl
      cases c with
      | write file data size =>
          cases file with
          | none => exact hl.elim
          | some i =>
              cases data with
              | none => exact hl.elim
              | some src =>
                  obtain ⟨hd, hpos, hle, hno⟩ := hl
                  exact ⟨i, src, size, rfl, hd, hpos, hle, hno.elim (fun h ↦ by cases h) id⟩
      | _ => exact hl.elim
    · rintro ⟨i, src, size, rfl, hd, hpos, hle, hno⟩
      exact ⟨hd, hpos, hle, .inr hno⟩
  rw [← hl]
  by_cases hover : Overruns false w.sys c
  · have hchanges : ∀ o s', c.exec kmalloc w.sys = some (o, s') →
        o.code < 0 ∧ s'.observe ≠ w.sys.observe := fun _ _ ↦ exec_of_overruns hI hc hover
    refine ⟨fun hn ↦ absurd hover hn, ⟨?_, fun hn ↦ absurd hover hn.2⟩, fun _ ↦ hchanges⟩
    rintro ⟨o, s', hexec, hsame⟩
    obtain ⟨hneg, hne⟩ := hchanges o s' hexec
    exact absurd (hsame hneg) hne
  · obtain ⟨hreturns, hiff⟩ := atomic_iff_not_loses hI hc hover
    exact ⟨fun _ ↦ hreturns, ⟨fun ha ↦ ⟨hiff.mp ha, hover⟩, fun hn ↦ hiff.mpr hn.1⟩,
      fun h ↦ absurd h hover⟩

/-- With the heap nearly full, to append 100 bytes to a file of one byte fails and changes nothing,
and to overwrite it by them fails and does not. -/
theorem failed_unchanged_iff_nearly_full : ∃ w₀ w i s', Booted w₀ ∧
    Run WorldStep w₀ [.fs false (.create (some [0x61, 0])) (.ofCode 0),
      .fs false (.write (some i) (some [0x78]) 1) (.ofCode 1)] w ∧
    FsCall.exec kmalloc w.sys (.append (some i) (some (List.replicate 100 0x79)) 100) =
      some (.ofCode (-3), s') ∧ s'.observe = w.sys.observe ∧
    ¬ Atomic w.sys (.write (some i) (some (List.replicate 100 0x79)) 100) := by
  obtain ⟨w₀, w, i, t, hb, hrun, ⟨hwrite, _, _, hlost⟩, hu, hd, hsize, _, hfull, hno⟩ :=
    overwrite_nearly_full
  have happend : (FsCall.append (some i) (some (List.replicate 100 0x79)) 100).Legal
      (ValidHandle w.sys) := hwrite
  obtain ⟨live, bs, hs, _⟩ := (hb.inv.1.run hrun).heap
  have hfails : fsAppend kmalloc w.sys (some i) (some (List.replicate 100 0x79)) 100 =
      some (-3, w.sys) := by
    have hadd : add32 (w.sys.fileTable i).size 100 = 101 := by rw [hsize]; rfl
    have hk := (hs.owned.kmalloc_eq_null_iff (show 0 < 101 by decide) (by decide)).mpr hno
    exact fsAppend_outOfMemory _ (by decide) (by rw [hadd]; decide) (by rw [hadd, hk])
  have hexec : FsCall.exec kmalloc w.sys
      (.append (some i) (some (List.replicate 100 0x79)) 100) = some (.ofCode (-3), w.sys) :=
    congrArg (Option.map (Prod.map Outcome.ofCode id)) hfails
  have hsum : ¬ Overruns false w.sys (.append (some i) (some (List.replicate 100 0x79)) 100) := by
    rintro ⟨_, hwrap, _⟩
    rw [hsize] at hwrap
    exact absurd hwrap (by decide)
  obtain ⟨o, s', hrun', hsame⟩ := (failed_unchanged_iff hb hrun happend).2.1.mpr
    ⟨fun ⟨_, _, _, h, _⟩ ↦ (by cases h), hsum⟩
  cases hrun'.symm.trans hexec
  refine ⟨w₀, w, i, _, hb, hrun, hexec, hsame (by decide), fun ha ↦ ?_⟩
  exact ((failed_unchanged_iff hb hrun hwrite).2.1.mp ha).1
    ⟨i, _, 100, rfl, hd, by decide, by decide, hfull⟩

/-- `fs_write` returns -3, and the byte that was in the file is gone. -/
theorem failed_write_loses : ∃ w₀ w i s', Booted w₀ ∧
    Run WorldStep w₀ [.fs false (.create (some [0x61, 0])) (.ofCode 0),
      .fs false (.write (some i) (some [0x78]) 1) (.ofCode 1)] w ∧
    FsCall.exec kmalloc w.sys (.write (some i) (some (List.replicate 100 0x79)) 100) =
      some (.ofCode (-3), s') ∧
    w.sys.contents i ≠ none ∧ s'.contents i = none ∧ s'.observe ≠ w.sys.observe := by
  obtain ⟨w₀, w, i, s', hb, hrun, ⟨_, _, _, hexec⟩, hu, hd, hsize, hf, _⟩ := overwrite_nearly_full
  have hsome : (w.sys.contents i).isSome := contents_isSome_iff.mpr fun h ↦ absurd h hd
  have hnone : s'.contents i = none := contents_eq_none_iff.mpr (by
    rw [hf]
    exact ⟨by change (w.sys.fileTable i).size ≠ 0; rw [hsize]; decide, rfl⟩)
  exact ⟨w₀, w, i, s', hb, hrun, hexec, Option.ne_none_iff_isSome.mpr hsome, hnone,
    observe_ne_of_lost hu hf hsome hnone⟩

end KontolOS.Fs
