import KontolOS.Fs.Contents

/-!
# Every call keeps the invariant

The lemmas about the single operations are put together: `exec_spec` says that a legal call
returns, that the invariant holds afterwards, and how the call can go wrong.  It can in one
way only (`Loses`): `fs_write` gives up the old contents of a file and then finds no room
for the new ones.
-/

namespace KontolOS.Fs

open KontolOS.Lib KontolOS.Memory KontolOS.Strings Function

variable {tight : Prop} {s : Sys} {others : Live}

/-! ## What can go wrong -/

/-- `fs_write` has data to lose, and there is no room for the new data even after the old
has been freed. -/
def Loses (fails : Bool) (s : Sys) : FsCall (Option Slot) → Prop
  | .write (some i) (some _) size =>
      (s.fileTable i).data ≠ null ∧ 0 < size ∧ size ≤ fsMaxFilesize ∧
        (fails = true ∨ ¬ Room s.heap (s.fileTable i).data (totalSize size))
  | _ => False

/-- `fs_rmdir` removes a directory that holds data. -/
def Leaks (s : Sys) : FsCall (Option Slot) → Prop
  | .rmdir name => ∃ i, slotOf s (cstr name) = some i ∧ (s.fileTable i).directory = true ∧
      (s.fileTable i).data ≠ null
  | _ => False

/-- Every entry can be read. -/
def Readable (s : Sys) : Prop := ∀ i, (s.contents i).isSome

/-- What a call with outcome `o` does to the filesystem. -/
structure Effect (fails : Bool) (s : Sys) (c : FsCall (Option Slot)) (o : Outcome) (s' : Sys) :
    Prop where
  /-- a call that fails changes nothing, unless it loses data -/
  atomic : ¬ Loses fails s c → o.code < 0 → s' = s
  /-- a call that loses data fails, and leaves a used entry unreadable that could be read -/
  loses : Loses fails s c → o.code < 0 ∧ ∃ i, (s.fileTable i).used = true ∧
    s'.fileTable i = { s.fileTable i with data := null } ∧ (s.contents i).isSome ∧
      s'.contents i = none
  /-- other calls leave everything readable -/
  readable : ¬ Loses fails s c → Readable s → Readable s'

/-- A call that changes nothing. -/
theorem Effect.refl {fails : Bool} {c : FsCall (Option Slot)} (h : ¬ Loses fails s c)
    (o : Outcome) : Effect fails s c o s :=
  ⟨fun _ _ ↦ rfl, fun hl ↦ absurd hl h, fun _ hr ↦ hr⟩

/-- A call that succeeds in changing the entry `i`. -/
theorem Effect.ofFrame {fails : Bool} {c : FsCall (Option Slot)} {s' : Sys} {i : Slot} {o : Outcome}
    (h : ¬ Loses fails s c) (ho : 0 ≤ o.code) (hframe : Frame s s' i)
    (hi : Readable s → (s'.contents i).isSome) : Effect fails s c o s' := by
  refine ⟨fun _ hneg ↦ absurd ho (Int.not_le.mpr hneg), fun hl ↦ absurd hl h, fun _ hr j ↦ ?_⟩
  by_cases hj : j = i
  · rw [hj]
    exact hi hr
  · rw [hframe.contents j hj]
    exact hr j

/-- An entry without data can be read. -/
theorem readable_of_size {i : Slot} (hsize : (s.fileTable i).size = 0) :
    (s.contents i).isSome :=
  contents_isSome_iff.mpr fun _ ↦ hsize

/-! ## The calls that need an argument -/

/-- `fs_create` and `fs_mkdir` -/
theorem fsNew_effect (fails : Bool) {c : FsCall (Option Slot)} {flags : UInt8}
    {name : Option (List UInt8)} (hI : Inv tight s others)
    (hflags : flags = fsFlagUsed ∨ flags = fsFlagUsed ||| fsFlagDirectory)
    (hl : ¬ Loses fails s c) (hname : ∀ buf, name = some buf → ∃ n, Holds buf n) :
    ∃ code s', fsNew flags s name = some (code, s') ∧ Inv tight s' others ∧
      Effect fails s c (.ofCode code) s' := by
  cases name with
  | none => exact ⟨-1, s, rfl, hI, .refl hl _⟩
  | some buf =>
      obtain ⟨n, hn⟩ := hname buf rfl
      rcases fsNew_spec hI hn hflags with ⟨_, h⟩ | ⟨_, _, ⟨_, h⟩ | ⟨_, _, h⟩ |
        ⟨_, i, f, _, h, _, _, hsize, _, hI', hframe⟩⟩
      · exact ⟨-1, s, h, hI, .refl hl _⟩
      · exact ⟨-2, s, h, hI, .refl hl _⟩
      · exact ⟨-3, s, h, hI, .refl hl _⟩
      · refine ⟨0, _, h, hI', .ofFrame hl (Int.le_refl _) hframe fun _ ↦ readable_of_size ?_⟩
        rw [TableOk.setFile_same, hsize]

/-- `fs_write`, the one call that may lose data. -/
theorem fsWrite_effect (fails : Bool) {file : Option Slot} {data : Option (List UInt8)}
    {size : Nat} (hI : Inv tight s others)
    (hc : (FsCall.write file data size).Legal (ValidHandle s)) :
    ∃ o s', (FsCall.write file data size).exec (allocator fails) s = some (o, s') ∧
      Inv tight s' others ∧ Effect fails s (.write file data size) o s' := by
  obtain ⟨hfile, _, hdata⟩ := hc
  cases file with
  | none => exact ⟨_, s, rfl, hI, .refl id _⟩
  | some i =>
      cases data with
      | none => exact ⟨_, s, rfl, hI, .refl id _⟩
      | some src =>
          have hu := hfile i rfl
          rcases fsWrite_spec fails hI hu (hdata src rfl) with
            ⟨hbig, h⟩ | ⟨hle, s', hI', ⟨hwhy, h, hstored⟩ | ⟨hwhy, h, hframe, hf, hnull⟩⟩
          · -- the data is too large
            refine ⟨_, s, by rw [FsCall.exec, h]; rfl, hI, .refl ?_ _⟩
            rintro ⟨_, _, hle, _⟩
            exact absurd hle (Nat.not_le.mpr hbig)
          · -- it is stored
            refine ⟨_, s', by rw [FsCall.exec, h]; rfl, hI', ?_⟩
            refine .ofFrame ?_ (Int.natCast_nonneg _) hstored.frame fun _ ↦ by
              rw [hstored.contents]
              rfl
            rintro ⟨_, hpos, _, hno⟩
            rcases hwhy with rfl | ⟨hf, hroom⟩
            · exact absurd hpos (Nat.lt_irrefl 0)
            · rcases hno with hf' | hno
              · rw [hf] at hf'
                cases hf'
              · exact hno hroom
          · -- there is no room for it, and the old data is gone if there was any
            refine ⟨_, s', by rw [FsCall.exec, h]; rfl, hI', ?_⟩
            by_cases hd : (s.fileTable i).data = null
            · rw [hnull hd]
              refine .refl ?_ _
              rintro ⟨hd', _⟩
              exact hd' hd
            · have hl : Loses fails s (.write (some i) (some src) size) :=
                ⟨hd, hwhy.1, hle, hwhy.2⟩
              have hpos := (hI.table.file i).size_pos hd
              refine ⟨fun hn ↦ absurd hl hn, fun _ ↦ ⟨by decide, i, hu, hf, ?_, ?_⟩,
                fun hn ↦ absurd hl hn⟩
              · exact contents_isSome_iff.mpr fun hn ↦ absurd hn hd
              · exact contents_eq_none_iff.mpr (by rw [hf]; exact ⟨Nat.ne_of_gt hpos, rfl⟩)

/-- `fs_append`, when it does not overrun the heap. -/
theorem fsAppend_effect (fails : Bool) {file : Option Slot} {data : Option (List UInt8)}
    {size : Nat} (hI : Inv tight s others)
    (hc : (FsCall.append file data size).Legal (ValidHandle s))
    (hover : ¬ Overruns fails s (.append file data size)) :
    ∃ o s', (FsCall.append file data size).exec (allocator fails) s = some (o, s') ∧
      Inv tight s' others ∧ Effect fails s (.append file data size) o s' := by
  obtain ⟨hfile, hlt, hdata⟩ := hc
  cases file with
  | none => exact ⟨_, s, rfl, hI, .refl id _⟩
  | some i =>
      cases data with
      | none => exact ⟨_, s, rfl, hI, .refl id _⟩
      | some src =>
          rcases fsAppend_cases fails hI (hfile i rfl) hlt (hdata src rfl) hover with
            ⟨_, h⟩ | ⟨s', c, h, hI', hstored⟩
          · exact ⟨_, s, by rw [FsCall.exec, h]; rfl, hI, .refl id _⟩
          · refine ⟨_, s', by rw [FsCall.exec, h]; rfl, hI', ?_⟩
            exact .ofFrame id (Int.natCast_nonneg _) hstored.frame fun _ ↦ by
              rw [hstored.contents]
              rfl

/-! ## The step lemma -/

/-- **The step lemma of the filesystem.** -/
theorem exec_spec (fails : Bool) {c : FsCall (Option Slot)} (hI : Inv tight s others)
    (hc : c.Legal (ValidHandle s)) (hover : ¬ Overruns fails s c)
    (htidy : tight → ¬ Leaks s c) :
    ∃ o s', c.exec (allocator fails) s = some (o, s') ∧ Inv tight s' others ∧
      Effect fails s c o s' := by
  cases c with
  | create name =>
      obtain ⟨code, s', h, hI', he⟩ := fsNew_effect fails (c := .create name) hI (.inl rfl) id hc
      exact ⟨_, s', by rw [FsCall.exec, fsCreate, h]; rfl, hI', he⟩
  | mkdir name =>
      obtain ⟨code, s', h, hI', he⟩ := fsNew_effect fails (c := .mkdir name) hI (.inr rfl) id hc
      exact ⟨_, s', by rw [FsCall.exec, fsMkdir, h]; rfl, hI', he⟩
  | delete name =>
      obtain ⟨n, hn⟩ := hc
      rcases fsDelete_spec hI hn with ⟨_, h⟩ | ⟨i, s', _, h, hI', hframe, hclear⟩
      · exact ⟨_, s, by rw [FsCall.exec, h]; rfl, hI, .refl id _⟩
      · refine ⟨_, s', by rw [FsCall.exec, h]; rfl, hI', ?_⟩
        exact .ofFrame id (Int.le_refl _) hframe fun _ ↦ readable_of_size (by rw [hclear]; rfl)
  | rmdir name =>
      obtain ⟨n, hn⟩ := hc
      have hdata : tight → ∀ i, slotOf s n = some i → (s.fileTable i).directory = true →
          (s.fileTable i).data = null := by
        intro ht i hslot hdir
        by_contra hd
        exact htidy ht ⟨i, by rw [hn.cstr_eq]; exact hslot, hdir, hd⟩
      rcases fsRmdir_spec hI hn hdata with
        ⟨_, h⟩ | ⟨i, _, ⟨_, h⟩ | ⟨_, s', h, hI', hframe, hclear, _⟩⟩
      · exact ⟨_, s, by rw [FsCall.exec, h]; rfl, hI, .refl id _⟩
      · exact ⟨_, s, by rw [FsCall.exec, h]; rfl, hI, .refl id _⟩
      · refine ⟨_, s', by rw [FsCall.exec, h]; rfl, hI', ?_⟩
        exact .ofFrame id (Int.le_refl _) hframe fun _ ↦ readable_of_size (by rw [hclear]; rfl)
  | chdir name =>
      obtain ⟨code, s', h, hI', ⟨dir, hdir, _⟩, hneg, _⟩ := fsChdir_spec hI hc
      exact ⟨_, s', by rw [FsCall.exec, h]; rfl, hI', fun _ ↦ hneg, fun hl ↦ hl.elim,
        fun _ hr ↦ by rw [hdir]; exact hr⟩
  | exist name =>
      obtain ⟨n, hn⟩ := hc
      have h : fsExists s name = some (if (slotOf s n).isSome then 1 else 0) := by
        simp [fsExists, hI.table.fsFind_eq hn]
      exact ⟨_, s, by rw [FsCall.exec, h]; rfl, hI, .refl id _⟩
  | count => exact ⟨_, s, rfl, hI, .refl id _⟩
  | write file data size => exact fsWrite_effect fails hI hc
  | append file data size => exact fsAppend_effect fails hI hc hover
  | truncate file =>
      cases file with
      | none => exact ⟨_, s, rfl, hI, .refl id _⟩
      | some i =>
          obtain ⟨s', h, hI', hstored⟩ := fsTruncate_spec hI (hc i rfl)
          refine ⟨_, s', by rw [FsCall.exec, h]; rfl, hI', ?_⟩
          exact .ofFrame id (Int.le_refl _) hstored.frame fun _ ↦ by
            rw [hstored.contents]
            rfl
  | read file buffer size offset =>
      obtain ⟨r, h⟩ := fsRead_returns hI file offset hc.2.2
      exact ⟨_, s, by rw [FsCall.exec, h]; rfl, hI, .refl id _⟩
  | getSize file => exact ⟨_, s, rfl, hI, .refl id _⟩
  | isDir file => exact ⟨_, s, rfl, hI, .refl id _⟩

/-! ## Worlds -/

/-- **A call of another client** of the heap returns, and is none of the filesystem's
business. -/
theorem Inv.other {c : Call} (hI : Inv tight s others) (hc : Careful ⟨s.heap, others⟩ c) :
    ∃ ptr h' others', exec ⟨s.heap, others⟩ c = some (ptr, ⟨h', others'⟩) ∧
      Inv tight { s with heap := h' } others' ∧
      ∀ i, Sys.contents { s with heap := h' } i = s.contents i := by
  obtain ⟨live, bs, hs, hno⟩ := hI.heap
  -- what is live and not theirs
  let rest : Live := fun p ↦ if (others p).isSome then none else live p
  have hrest : ∀ {p}, others p = none → rest p = live p := fun h ↦ by simp [rest, h]
  have happart : Live.Apart others rest := fun p hp ↦ if_pos hp
  have hjoin : others.join rest = live := by
    funext p
    cases ho : others p with
    | none => rw [Live.join, ho, Option.none_or, hrest ho]
    | some o => rw [join_of_some ho, hs.others_le p o ho]
  have hw : Owned s.heap (others.join rest) bs := by rw [hjoin]; exact hs.owned
  obtain ⟨⟨ptr, h', others'⟩, hr, happart', bs', hw'⟩ :=
    Owned.step (w := ⟨s.heap, others⟩) hw happart hc
  simp only at happart' hw'
  -- the data of a file is in `rest`, and stays there
  have hdata : ∀ i, (s.fileTable i).data ≠ null →
      others' (s.fileTable i).data = none ∧ ∀ o, live (s.fileTable i).data = some o →
        others'.join rest (s.fileTable i).data = some o := by
    intro i hd
    obtain ⟨hnone, o, ho, _⟩ := hs.data i hd
    have hro := (hrest hnone).trans ho
    have hnone' : others' (s.fileTable i).data = none := by
      cases ho' : others' (s.fileTable i).data with
      | none => rfl
      | some _ =>
          have := happart' (s.fileTable i).data (by rw [ho']; rfl)
          rw [hro] at this
          cases this
    refine ⟨hnone', fun o' hlive ↦ ?_⟩
    rw [Live.join, hnone', Option.none_or, hrest hnone, hlive]
  refine ⟨ptr, h', others', hr, ⟨⟨hI.table.file, hI.table.names_inj, hI.table.cwd⟩,
    others'.join rest, bs', ⟨hw', fun p o ↦ join_of_some, fun i hd ↦ ?_, hs.apart⟩,
    fun ht p hp ↦ ?_⟩, fun i ↦ ?_⟩
  · obtain ⟨_, o, ho, hfilled⟩ := hs.data i hd
    exact ⟨(hdata i hd).1, o, (hdata i hd).2 o ho, hfilled⟩
  · cases ho' : others' p with
    | some o => exact .inl rfl
    | none =>
        rw [Live.join, ho', Option.none_or] at hp
        cases ho : others p with
        | some o =>
            rw [happart p (by rw [ho]; rfl)] at hp
            cases hp
        | none =>
            rw [hrest ho] at hp
            rcases hno ht p hp with h | h
            · rw [ho] at h
              cases h
            · exact .inr h
  · change (s.fileTable i).contents h'.mem = (s.fileTable i).contents s.heap.mem
    rw [FsFile.contents, FsFile.contents]
    by_cases hd : (s.fileTable i).data = null
    · rw [if_pos hd, if_pos hd]
    · rw [bytes_eq_of_filled hs.owned hw' (hs.data i hd).2 (hdata i hd).2]

/-- `kmalloc` by another client, of a size that is not too large. -/
theorem Inv.kmalloc {size : Nat} (hI : Inv tight s others) (hsize : size ≤ maxRequest) :
    ∃ ptr h', Memory.kmalloc s.heap size = some (ptr, h') ∧
      Inv tight { s with heap := h' } (others.grant ptr (.fresh size)) ∧
      (∀ i, Sys.contents { s with heap := h' } i = s.contents i) ∧
      (ptr ≠ null → others ptr = none) := by
  have hc : Careful ⟨s.heap, others⟩ (.kmalloc size) :=
    ⟨Nat.lt_of_le_of_lt hsize (by decide), .inl hsize⟩
  obtain ⟨ptr, h', others', hexec, hI', hcontents⟩ := hI.other hc
  obtain ⟨⟨ptr, h'⟩, hk, ⟨⟩⟩ := Option.bind_eq_some_iff.mp hexec
  refine ⟨ptr, h', hk, hI', hcontents, fun hne ↦ ?_⟩
  obtain ⟨live, bs, hs, _⟩ := hI.heap
  rcases hs.owned.kmalloc (.inl hsize) with hnull | ⟨b, bs', h₁, _, hsome, hnone, _⟩
  · cases hnull.symm.trans hk
    exact absurd rfl hne
  · cases hsome.symm.trans hk
    cases ho : others (b.addr + sizeofBlock) with
    | none => rfl
    | some o =>
        rw [hs.others_le _ o ho] at hnone
        cases hnone

/-- `kfree` by another client, of what it holds. -/
theorem Inv.kfree {p : Nat} (hI : Inv tight s others) (hp : (others p).isSome) :
    ∃ h', Memory.kfree s.heap p = some h' ∧
      Inv tight { s with heap := h' } (update others p none) ∧
      ∀ i, Sys.contents { s with heap := h' } i = s.contents i := by
  have hc : Careful ⟨s.heap, others⟩ (.kfree p) := .inr hp
  obtain ⟨ptr, h', others', hexec, hI', hcontents⟩ := hI.other hc
  obtain ⟨h', hk, ⟨⟩⟩ := Option.bind_eq_some_iff.mp hexec
  exact ⟨h', hk, hI', hcontents⟩

/-- The step of a world leaks. -/
def ActLeaks (w : World) : Act (Option Slot) → Prop
  | .fs _ c _ => Leaks w.sys c
  | .other _ => False

/-- The step of a world loses data. -/
def ActLoses (w : World) : Act (Option Slot) → Prop
  | .fs fails c _ => Loses fails w.sys c
  | .other _ => False

/-- **The invariant of a world.** -/
theorem Inv.worldStep {w w' : World} {a : Act (Option Slot)} (hI : Inv tight w.sys w.others)
    (hstep : WorldStep w a w') (htidy : tight → ¬ ActLeaks w a) :
    Inv tight w'.sys w'.others ∧ (¬ ActLoses w a → Readable w.sys → Readable w'.sys) := by
  cases a with
  | fs fails c o =>
      obtain ⟨hc, hover, hothers, hexec⟩ := hstep
      obtain ⟨o', s', hexec', hI', he⟩ := exec_spec fails hI hc hover htidy
      cases hexec'.symm.trans hexec
      rw [hothers]
      exact ⟨hI', he.readable⟩
  | other c =>
      obtain ⟨hc, hsys, ptr, hexec⟩ := hstep
      obtain ⟨_, h', others', hexec', hI', hcontents⟩ := hI.other hc
      cases hexec'.symm.trans hexec
      rw [hsys]
      exact ⟨hI', fun _ hr i ↦ by rw [hcontents i]; exact hr i⟩

/-- Any run keeps the invariant. -/
theorem Inv.run {w w' : World} {acts : List (Act (Option Slot))}
    (hI : Inv False w.sys w.others) (hr : Run WorldStep w acts w') :
    Inv False w'.sys w'.others :=
  hr.invariant (I := fun w ↦ Inv False w.sys w.others)
    (fun hI hs ↦ (hI.worldStep hs False.elim).1) hI

/-- `fs_init` establishes the invariant. -/
theorem Booted.inv {w : World} (hb : Booted w) : Inv tight w.sys w.others ∧ Readable w.sys := by
  obtain ⟨hr, s, hlen, hcwd, hsys⟩ := hb
  obtain ⟨bs, hw⟩ := hr.owned
  rw [hsys] at hw ⊢
  have hnull : ∀ i, ((fsInit s).fileTable i).data = null := fun _ ↦ rfl
  refine ⟨⟨.init hlen hcwd, w.others, bs, ⟨hw, fun _ _ h ↦ h, fun i hd ↦ absurd (hnull i) hd,
    fun i _ hd ↦ absurd (hnull i) hd⟩, fun _ p hp ↦ .inl hp⟩, fun i ↦ ?_⟩
  exact contents_isSome_iff.mpr fun _ ↦ rfl

/-- The world right after `fs_init` next to the clients `w`, all of its static variables zero
before. -/
def bootWorld (w : Clients) : World :=
  { sys := fsInit
      { heap := w.heap
        fileTable := fun _ ↦
          { name := List.replicate fsMaxFilename 0, data := null, size := 0, flags := fsFlagFree }
        currentDir := rootDir }
    others := w.live }

theorem booted_bootWorld {w : Clients} (hr : Reachable Careful w) : Booted (bootWorld w) :=
  ⟨hr, _, fun _ ↦ rfl, rfl, rfl⟩

/-- The table is empty at first. -/
theorem Booted.unused {w : World} (hb : Booted w) (i : Slot) :
    (w.sys.fileTable i).used = false := by
  obtain ⟨_, s, _, _, hsys⟩ := hb
  rw [hsys]
  exact clear_used _

theorem Booted.slotOf_eq {w : World} (hb : Booted w) (n : List UInt8) : slotOf w.sys n = none := by
  refine TableOk.slotOf_eq_none_iff.mpr fun i hi ↦ ?_
  rw [hb.unused i] at hi
  cases hi

/-! ## Entries -/

/-- Slot `i` holds an entry with the name `n` and the contents `c`. -/
structure EntryAt (s : Sys) (i : Slot) (n c : List UInt8) : Prop where
  /-- the slot is used -/
  used : (s.fileTable i).used = true
  /-- its name -/
  name : cstr (s.fileTable i).name = n
  /-- its size -/
  size : (s.fileTable i).size = c.length
  /-- its contents -/
  contents : s.contents i = some c

section EntryAt

variable {s' : Sys} {i j : Slot} {n m c c' : List UInt8}

theorem EntryAt.slotOf_eq (h : EntryAt s i n c) (hI : Inv tight s others) : slotOf s n = some i :=
  hI.table.slotOf_eq_some_iff.mpr ⟨h.used, h.name⟩

/-- Where an entry has other contents. -/
theorem EntryAt.stored (h : EntryAt s i n c) (hs : Stored s s' i c') : EntryAt s' i n c' := by
  obtain ⟨data, hfile⟩ := hs.file
  refine ⟨?_, ?_, ?_, hs.contents⟩
  · rw [hfile]
    exact h.used
  · rw [hfile]
    exact h.name
  · rw [hfile]

/-- Where another entry changes. -/
theorem EntryAt.frame (h : EntryAt s j m c) (hf : Frame s s' i) (hne : j ≠ i) :
    EntryAt s' j m c := by
  refine ⟨?_, ?_, ?_, (hf.contents j hne).trans h.contents⟩
  · rw [hf.file j hne]
    exact h.used
  · rw [hf.file j hne]
    exact h.name
  · rw [hf.file j hne]
    exact h.size

end EntryAt

/-! ## Steps that succeed -/

section Succeed

variable {w : World} {c : FsCall (Option Slot)} {flags : UInt8} {buf n src : List UInt8} {i : Slot}

/-- The handle of an entry that exists may be used. -/
theorem validHandle (hu : (s.fileTable i).used = true) : ValidHandle s (some i) := by
  rintro j ⟨⟩
  exact hu

/-- A buffer is as large as it is. -/
theorem whole_length (src : List UInt8) :
    ∀ src', some src = some src' → src.length ≤ src'.length := by
  rintro _ ⟨⟩
  exact Nat.le_refl _

/-- A buffer may be written or appended as a whole. -/
theorem legal_whole (hu : (s.fileTable i).used = true) (hlt : src.length < 2 ^ 32) :
    (FsCall.write (some i) (some src) src.length).Legal (ValidHandle s) ∧
      (FsCall.append (some i) (some src) src.length).Legal (ValidHandle s) :=
  ⟨⟨validHandle hu, hlt, whole_length src⟩, ⟨validHandle hu, hlt, whole_length src⟩⟩

/-- `fs_create` or `fs_mkdir` of a new name, while there is an entry to spare. -/
theorem Inv.new_step (hI : Inv tight w.sys w.others) (hn : Holds buf n) (hne : n ≠ [])
    (hlen : n.length < fsMaxFilename) (hslot : slotOf w.sys n = none)
    (hfree : ∃ j, (w.sys.fileTable j).used = false)
    (hcall : c = .create (some buf) ∧ flags = fsFlagUsed ∨
      c = .mkdir (some buf) ∧ flags = fsFlagUsed ||| fsFlagDirectory) :
    ∃ i f, WorldStep w (.fs false c (.ofCode 0)) ⟨w.sys.setFile i f, w.others⟩ ∧
      Inv tight (w.sys.setFile i f) w.others ∧ f.data = null ∧ f.flags = flags ∧
      EntryAt (w.sys.setFile i f) i n [] ∧ (w.sys.fileTable i).used = false ∧
      Frame w.sys (w.sys.setFile i f) i := by
  obtain ⟨j, hj⟩ := hfree
  have hflags : flags = fsFlagUsed ∨ flags = fsFlagUsed ||| fsFlagDirectory :=
    hcall.imp And.right And.right
  rcases fsNew_spec hI hn hflags with ⟨hbad, _⟩ | ⟨_, _, ⟨h, _⟩ | ⟨_, h, _⟩ |
    ⟨_, i, f, hunused, hnew, hfn, hfd, hfs, hff, hI₁, hframe⟩⟩
  · exact absurd hbad (not_or.mpr ⟨hne, Nat.not_le.mpr hlen⟩)
  · rw [hslot] at h
    cases h
  · cases (h j).symm.trans hj
  have hfi : (w.sys.setFile i f).fileTable i = f := TableOk.setFile_same
  refine ⟨i, f, ?_, hI₁, hfd, hff, ⟨?_, ?_, ?_, ?_⟩, hunused, hframe⟩
  · rcases hcall with ⟨rfl, rfl⟩ | ⟨rfl, rfl⟩
    · refine ⟨fun _ hb ↦ ⟨n, Option.some.inj hb ▸ hn⟩, id, rfl, ?_⟩
      rw [FsCall.exec, fsCreate, hnew]
      rfl
    · refine ⟨fun _ hb ↦ ⟨n, Option.some.inj hb ▸ hn⟩, id, rfl, ?_⟩
      rw [FsCall.exec, fsMkdir, hnew]
      rfl
  · rw [hfi, FsFile.used, hff]
    rcases hflags with rfl | rfl <;> decide
  · rw [hfi]
    exact hfn
  · rw [hfi]
    exact hfs
  · change ((w.sys.setFile i f).fileTable i).contents _ = _
    rw [hfi, FsFile.contents, if_pos hfd, if_pos hfs]

/-- `fs_write` of a whole buffer, where there is room for it. -/
theorem Inv.write_step (hI : Inv tight w.sys w.others) (hu : (w.sys.fileTable i).used = true)
    (hle : src.length ≤ fsMaxFilesize)
    (hroom : Room w.sys.heap (w.sys.fileTable i).data (totalSize src.length)) :
    ∃ s', WorldStep w (.fs false (.write (some i) (some src) src.length) (.ofCode src.length))
        ⟨s', w.others⟩ ∧
      ¬ ActLoses w (.fs false (.write (some i) (some src) src.length) (.ofCode src.length)) ∧
      Inv tight s' w.others ∧ Stored w.sys s' i src := by
  have hsafe : ¬ ActLoses w
      (.fs false (.write (some i) (some src) src.length) (.ofCode src.length)) := by
    rintro ⟨_, _, _, hno⟩
    exact hno.elim Bool.noConfusion (absurd hroom)
  rcases fsWrite_spec false hI hu (Nat.le_refl src.length) with ⟨hbig, _⟩ |
    ⟨_, s', hI', ⟨_, hwrite, hstored⟩ | ⟨⟨_, hno⟩, _⟩⟩
  · exact absurd hbig (Nat.not_lt.mpr hle)
  · rw [List.take_length] at hstored
    have hlegal := (legal_whole hu (Nat.lt_of_le_of_lt hle (by decide))).1
    refine ⟨s', ⟨hlegal, id, rfl, ?_⟩, hsafe, hI', hstored⟩
    exact congrArg (Option.map (Prod.map Outcome.ofCode id)) hwrite
  · exact hno.elim (fun h ↦ by cases h) fun h ↦ absurd hroom h

/-- `fs_append` of a whole buffer, where there is room for the old and the new contents. -/
theorem Inv.append_step {old : List UInt8} (hI : Inv tight w.sys w.others)
    (he : EntryAt w.sys i n old) (hpos : 0 < src.length)
    (hle : old.length + src.length ≤ fsMaxFilesize)
    (hroom : Room w.sys.heap null (totalSize (old.length + src.length))) :
    ∃ s', WorldStep w (.fs false (.append (some i) (some src) src.length) (.ofCode src.length))
        ⟨s', w.others⟩ ∧ Inv tight s' w.others ∧ Stored w.sys s' i (old ++ src) := by
  have hlt : (w.sys.fileTable i).size + src.length < 2 ^ 32 := by
    rw [he.size]
    exact Nat.lt_of_le_of_lt hle (by decide)
  rw [← he.size] at hle hroom
  rcases fsAppend_spec false hI he.used (Nat.le_refl src.length) hlt with ⟨h, _⟩ | ⟨_, hbig, _⟩ |
    ⟨_, _, ⟨hno, _⟩ | ⟨s', c, happend, hI', hstored, _, hc'⟩⟩
  · exact absurd h (Nat.ne_of_gt hpos)
  · exact absurd hbig (Nat.not_lt.mpr hle)
  · exact hno.elim (fun h ↦ by cases h) fun h ↦ absurd hroom h
  · rw [hc' old he.contents, List.take_length] at hstored
    have hsmall : src.length ≤ fsMaxFilesize := Nat.le_trans (Nat.le_add_left _ _) hle
    have hlegal := (legal_whole he.used (Nat.lt_of_le_of_lt hsmall (by decide))).2
    refine ⟨s', ⟨hlegal, hI.not_overruns hsmall, rfl, ?_⟩, hI', hstored⟩
    exact congrArg (Option.map (Prod.map Outcome.ofCode id)) happend

/-- `fs_truncate` -/
theorem Inv.truncate_step (hI : Inv tight w.sys w.others) (hu : (w.sys.fileTable i).used = true) :
    ∃ s', WorldStep w (.fs false (.truncate (some i)) (.ofCode 0)) ⟨s', w.others⟩ ∧
      Inv tight s' w.others ∧ Stored w.sys s' i [] := by
  obtain ⟨s', htruncate, hI', hstored⟩ := fsTruncate_spec hI hu
  refine ⟨s', ⟨validHandle hu, id, rfl, ?_⟩, hI', hstored⟩
  exact congrArg (Option.map (Prod.map Outcome.ofCode id)) htruncate

/-- `fs_delete` of an entry that exists. -/
theorem Inv.delete_step (hI : Inv tight w.sys w.others) (hn : Holds buf n)
    (hslot : slotOf w.sys n = some i) :
    ∃ s', WorldStep w (.fs false (.delete buf) (.ofCode 0)) ⟨s', w.others⟩ ∧
      Inv tight s' w.others ∧ Frame w.sys s' i ∧ s'.fileTable i = (w.sys.fileTable i).clear := by
  rcases fsDelete_spec hI hn with ⟨hnone, _⟩ | ⟨j, s', hj, hdelete, hI', hframe, hclear⟩
  · cases hnone.symm.trans hslot
  obtain rfl : j = i := Option.some.inj (hj.symm.trans hslot)
  refine ⟨s', ⟨⟨n, hn⟩, id, rfl, ?_⟩, hI', hframe, hclear⟩
  exact congrArg (Option.map (Prod.map Outcome.ofCode id)) hdelete

/-- `fs_rmdir` of a directory. -/
theorem Inv.rmdir_step (hI : Inv tight w.sys w.others) (hn : Holds buf n)
    (hslot : slotOf w.sys n = some i)
    (hdir : (w.sys.fileTable i).directory = true) :
    ∃ s', WorldStep w (.fs false (.rmdir buf) (.ofCode 0)) ⟨s', w.others⟩ ∧ Frame w.sys s' i ∧
      s'.fileTable i = (w.sys.fileTable i).clear ∧ s'.heap = w.sys.heap := by
  obtain ⟨live, bs, hs, _⟩ := hI.heap
  have hloose : Inv False w.sys w.others := ⟨hI.table, live, bs, hs, False.elim⟩
  rcases fsRmdir_spec hloose hn False.elim with ⟨hnone, _⟩ | ⟨j, hj, hrm⟩
  · cases hnone.symm.trans hslot
  obtain rfl : j = i := Option.some.inj (hj.symm.trans hslot)
  rcases hrm with ⟨hfile, _⟩ | ⟨_, s', hrmdir, _, hframe, hclear, hheap⟩
  · cases hfile.symm.trans hdir
  · refine ⟨s', ⟨⟨_, hn⟩, id, rfl, ?_⟩, hframe, hclear, hheap⟩
    exact congrArg (Option.map (Prod.map Outcome.ofCode id)) hrmdir

/-- A directory is made and removed, which leaks nothing and leaves the other entries alone. -/
theorem Inv.mkdir_rmdir_steps (hI : Inv tight w.sys w.others) (hn : Holds buf n) (hne : n ≠ [])
    (hlen : n.length < fsMaxFilename) (hslot : slotOf w.sys n = none)
    (hfree : ∃ j, (w.sys.fileTable j).used = false) :
    ∃ d s₁ s₂, WorldStep w (.fs false (.mkdir (some buf)) (.ofCode 0)) ⟨s₁, w.others⟩ ∧
      WorldStep ⟨s₁, w.others⟩ (.fs false (.rmdir buf) (.ofCode 0)) ⟨s₂, w.others⟩ ∧
      ¬ Leaks s₁ (.rmdir buf) ∧ (w.sys.fileTable d).used = false ∧
      (s₂.fileTable d).used = false ∧ Frame w.sys s₂ d := by
  obtain ⟨d, f, hmkdir, hI₁, hdata, hflags, hd, hunused, hframe₁⟩ :=
    hI.new_step hn hne hlen hslot hfree (.inr ⟨rfl, rfl⟩)
  have hfile : (w.sys.setFile d f).fileTable d = f := TableOk.setFile_same
  have hdir : ((w.sys.setFile d f).fileTable d).directory = true := by
    rw [hfile, FsFile.directory, hflags]
    decide
  have hslot₁ := hd.slotOf_eq hI₁
  obtain ⟨s₂, hrmdir, hframe₂, hclear, _⟩ :=
    Inv.rmdir_step (w := ⟨w.sys.setFile d f, w.others⟩) hI₁ hn hslot₁ hdir
  refine ⟨d, _, s₂, hmkdir, hrmdir, ?_, hunused, by rw [hclear, clear_used],
    hframe₁.trans hframe₂⟩
  rintro ⟨k, hk, _, hleft⟩
  rw [hn.cstr_eq] at hk
  cases hk.symm.trans hslot₁
  rw [hfile] at hleft
  exact hleft hdata

/-- **A first entry.**  A system that has just been booted creates a file or a directory. -/
theorem Booted.create (hb : Booted w) (hn : Holds buf n) (hne : n ≠ [])
    (hlen : n.length < fsMaxFilename)
    (hcall : c = .create (some buf) ∧ flags = fsFlagUsed ∨
      c = .mkdir (some buf) ∧ flags = fsFlagUsed ||| fsFlagDirectory) :
    ∃ i f, WorldStep w (.fs false c (.ofCode 0)) ⟨w.sys.setFile i f, w.others⟩ ∧
      Inv True (w.sys.setFile i f) w.others ∧ cstr f.name = n ∧ f.data = null ∧ f.flags = flags ∧
      ((w.sys.setFile i f).fileTable i).used = true ∧
      ∀ j, j ≠ i → ((w.sys.setFile i f).fileTable j).used = false := by
  obtain ⟨i, f, hstep, hI, hdata, hflags, he, _, hframe⟩ :=
    Inv.new_step hb.inv.1 hn hne hlen (hb.slotOf_eq n) ⟨⟨0, by decide⟩, hb.unused _⟩ hcall
  have hname := he.name
  rw [TableOk.setFile_same] at hname
  refine ⟨i, f, hstep, hI, hname, hdata, hflags, he.used, fun j hj ↦ ?_⟩
  rw [hframe.file j hj]
  exact hb.unused j

/-- **A first file**, or a first directory, with one byte in it: if there is room for a block,
it can be created and written right after `fs_init`. -/
theorem Booted.store (hb : Booted w) (hroom : Room w.sys.heap null (totalSize 1)) (b : UInt8)
    (hn : Holds buf n) (hne : n ≠ []) (hlen : n.length < fsMaxFilename)
    (hcall : c = .create (some buf) ∧ flags = fsFlagUsed ∨
      c = .mkdir (some buf) ∧ flags = fsFlagUsed ||| fsFlagDirectory) :
    ∃ i w', Run WorldStep w [.fs false c (.ofCode 0),
        .fs false (.write (some i) (some [b]) 1) (.ofCode 1)] w' ∧
      w'.others = w.others ∧ Inv True w'.sys w'.others ∧
      (w'.sys.fileTable i).used = true ∧ (w'.sys.fileTable i).flags = flags ∧
      (w'.sys.fileTable i).data ≠ null ∧ (w'.sys.fileTable i).size = 1 ∧
      slotOf w'.sys n = some i ∧ ∀ j, j ≠ i → (w'.sys.fileTable j).used = false := by
  obtain ⟨i, f, hstep₁, hI₁, hfn, hfd, hff, hused, hunused⟩ := hb.create hn hne hlen hcall
  have hfi : ((w.sys.setFile i f).fileTable i) = f := TableOk.setFile_same
  have hroom₁ : Room (w.sys.setFile i f).heap ((w.sys.setFile i f).fileTable i).data
      (totalSize [b].length) := by
    rw [hfi, hfd]
    exact hroom
  obtain ⟨s', hstep₂, _, hI', hstored⟩ :=
    Inv.write_step (w := ⟨w.sys.setFile i f, w.others⟩) hI₁ hused
      (show [b].length ≤ fsMaxFilesize from (by decide : 1 ≤ fsMaxFilesize)) hroom₁
  obtain ⟨data, hfile⟩ := hstored.file
  have hsize : (s'.fileTable i).size = 1 := by rw [hfile]; rfl
  have hname : cstr (s'.fileTable i).name = n := by rw [hfile, hfi]; exact hfn
  have hused' : (s'.fileTable i).used = true := by rw [hfile]; exact hused
  refine ⟨i, ⟨s', w.others⟩, .cons hstep₁ (.single hstep₂), rfl, hI', hused', ?_, ?_, hsize,
    hI'.table.slotOf_eq_some_iff.mpr ⟨hused', hname⟩, fun j hj ↦ ?_⟩
  · rw [hfile, hfi]
    exact hff
  · intro hd
    have := contents_isSome_iff.mp (by rw [hstored.contents]; rfl) hd
    rw [hsize] at this
    cases this
  · rw [hstored.frame.file j hj]
    exact hunused j hj

end Succeed

end KontolOS.Fs
