import KontolOS.Fs.Steps

/-!
# The current directory

`current_dir` is a copy of a name.  `fs_chdir` sees to it that there is a directory with that
name, but `fs_delete` and `fs_rmdir` remove the directory all the same, and then `fs_getcwd`
returns the name of nothing (`rmdir_strands`).  That is the only way (`run_cwd`): no other call
removes an entry or changes its name or its kind.
-/

namespace KontolOS.Fs

open KontolOS.Lib KontolOS.Memory KontolOS.Strings

/-- The buffer holds `"/"`, or the name of a directory that exists. -/
def NamesDirectory (s : Sys) (dir : List UInt8) : Prop :=
  ∃ n, Holds dir n ∧ (n = [0x2F] ∨ ∃ i, (s.fileTable i).used = true ∧
    (s.fileTable i).directory = true ∧ cstr (s.fileTable i).name = n)

/-- A call removes the entry that the current directory is named after. -/
def Strands (s : Sys) : FsCall (Option Slot) → Prop
  | .delete name | .rmdir name => cstr name = cstr (fsGetcwd s) ∧ cstr (fsGetcwd s) ≠ [0x2F]
  | _ => False

/-- A step of a world does. -/
def ActStrands (w : World) : Act (Option Slot) → Prop
  | .fs _ c _ => Strands w.sys c
  | .other _ => False

variable {tight : Prop} {s s' : Sys} {others : Live} {dir n : List UInt8} {i : Slot}

/-! ## Directories that stay -/

/-- Entries that keep their names and kinds. -/
theorem NamesDirectory.of_keep (h : NamesDirectory s dir)
    (hkeep : ∀ j, (s.fileTable j).used = true →
      (s'.fileTable j).name = (s.fileTable j).name ∧
        (s'.fileTable j).flags = (s.fileTable j).flags) : NamesDirectory s' dir := by
  obtain ⟨n, hn, hroot | ⟨j, hused, hdir, hname⟩⟩ := h
  · exact ⟨n, hn, .inl hroot⟩
  · obtain ⟨hname', hflags⟩ := hkeep j hused
    refine ⟨n, hn, .inr ⟨j, ?_, ?_, ?_⟩⟩
    · rw [FsFile.used, hflags]
      exact hused
    · rw [FsFile.directory, hflags]
      exact hdir
    · rw [hname']
      exact hname

/-- A change of one entry, which was not used or keeps its name and kind. -/
theorem NamesDirectory.of_frame (h : NamesDirectory s s.currentDir) (hframe : Frame s s' i)
    (hi : (s.fileTable i).used = true → (s'.fileTable i).name = (s.fileTable i).name ∧
      (s'.fileTable i).flags = (s.fileTable i).flags) : NamesDirectory s' s'.currentDir := by
  rw [hframe.cwd]
  apply h.of_keep
  intro j hused
  by_cases hj : j = i
  · rw [hj] at hused ⊢
    exact hi hused
  · rw [hframe.file j hj]
    exact ⟨rfl, rfl⟩

theorem NamesDirectory.of_stored {c : List UInt8} (h : NamesDirectory s s.currentDir)
    (hstored : Stored s s' i c) : NamesDirectory s' s'.currentDir := by
  obtain ⟨data, hfile⟩ := hstored.file
  refine h.of_frame hstored.frame fun _ ↦ ?_
  rw [hfile]
  exact ⟨rfl, rfl⟩

/-- What the name of a directory says about the entries. -/
theorem NamesDirectory.slotOf (htable : TableOk s) (h : NamesDirectory s dir)
    (hroot : cstr dir ≠ [0x2F]) :
    ∃ j, slotOf s (cstr dir) = some j ∧ (s.fileTable j).directory = true := by
  obtain ⟨n, hn, hslash | ⟨j, hused, hdir, hname⟩⟩ := h
  · exact absurd (hn.cstr_eq.trans hslash) hroot
  · exact ⟨j, htable.slotOf_eq_some_iff.mpr ⟨hused, hname.trans hn.cstr_eq.symm⟩, hdir⟩

/-- Another buffer with the same string. -/
theorem NamesDirectory.of_holds {dir' : List UInt8} (h : NamesDirectory s dir)
    (hdir : Holds dir' (cstr dir)) : NamesDirectory s dir' := by
  obtain ⟨n, hn, hnames⟩ := h
  rw [hn.cstr_eq] at hdir
  exact ⟨n, hdir, hnames⟩

/-- `fs_chdir` changes to a directory that exists. -/
theorem NamesDirectory.chdir (htable : TableOk s) (h : NamesDirectory s s.currentDir)
    (hdir : Holds dir (chdirDir s n)) : NamesDirectory s dir := by
  rw [chdirDir] at hdir
  split at hdir
  next => exact ⟨[0x2F], hdir, .inl rfl⟩
  next hplain =>
    split at hdir
    next hcode =>
      rw [chdirCode, if_neg hplain] at hcode
      cases hslot : Fs.slotOf s n with
      | none =>
          rw [hslot] at hcode
          cases hcode
      | some i =>
          obtain ⟨hused, hname⟩ := htable.slotOf_eq_some_iff.mp hslot
          cases hd : (s.fileTable i).directory with
          | true => exact ⟨n, hdir, .inr ⟨i, hused, hd, hname⟩⟩
          | false =>
              simp only [hslot, hd] at hcode
              cases hcode
    next => exact h.of_holds hdir

/-- **Removing an entry** strands the current directory if it is named after it. -/
theorem NamesDirectory.remove (htable : TableOk s) (h : NamesDirectory s s.currentDir)
    (hslot : Fs.slotOf s n = some i) (hframe : Frame s s' i)
    (hclear : s'.fileTable i = (s.fileTable i).clear) :
    NamesDirectory s' s'.currentDir ↔ ¬ (n = cstr s.currentDir ∧ cstr s.currentDir ≠ [0x2F]) := by
  obtain ⟨hused, hname⟩ := htable.slotOf_eq_some_iff.mp hslot
  rw [hframe.cwd]
  constructor
  · rintro ⟨k, hk, hslash | ⟨j, hused', _, hname'⟩⟩ ⟨hcwd, hroot⟩
    · exact hroot (hk.cstr_eq.trans hslash)
    · by_cases hj : j = i
      · rw [hj, hclear, clear_used] at hused'
        cases hused'
      · rw [hframe.file j hj] at hused' hname'
        apply hj
        apply htable.names_inj j i hused' hused
        rw [hname', hname, hcwd, hk.cstr_eq]
  · intro hother
    obtain ⟨k, hk, hslash | ⟨j, hused', hdir, hname'⟩⟩ := h
    · exact ⟨k, hk, .inl hslash⟩
    · by_cases hj : j = i
      · refine ⟨k, hk, .inl ?_⟩
        by_contra hroot
        apply hother
        rw [hk.cstr_eq]
        refine ⟨?_, hroot⟩
        rw [← hname, ← hname', hj]
      · refine ⟨k, hk, .inr ⟨j, ?_⟩⟩
        rw [hframe.file j hj]
        exact ⟨hused', hdir, hname'⟩

/-- A name that is not that of a directory is not that of the current one. -/
theorem NamesDirectory.iff_of_no_directory (htable : TableOk s)
    (h : NamesDirectory s s.currentDir)
    (hno : ∀ j, Fs.slotOf s n = some j → (s.fileTable j).directory = false) :
    NamesDirectory s s.currentDir ↔ ¬ (n = cstr s.currentDir ∧ cstr s.currentDir ≠ [0x2F]) := by
  refine ⟨?_, fun _ ↦ h⟩
  rintro _ ⟨hcwd, hroot⟩
  obtain ⟨j, hj, hdir⟩ := h.slotOf htable hroot
  rw [hno j (hcwd ▸ hj)] at hdir
  cases hdir

/-! ## Steps -/

theorem eq_of_exec {x : Option (Int × Sys)} {t : Sys} {code : Int} {o : Outcome}
    (hx : x = some (code, t)) (h : x.map (Prod.map Outcome.ofCode id) = some (o, s')) :
    s' = t := by
  rw [hx] at h
  cases h
  rfl

/-- `fs_create` and `fs_mkdir` -/
theorem NamesDirectory.fsNew {flags : UInt8} {name : Option (List UInt8)} {o : Outcome}
    (h : NamesDirectory s s.currentDir) (hI : Inv tight s others)
    (hflags : flags = fsFlagUsed ∨ flags = fsFlagUsed ||| fsFlagDirectory)
    (hname : ∀ buf, name = some buf → ∃ n, Holds buf n)
    (hexec : (Fs.fsNew flags s name).map (Prod.map Outcome.ofCode id) = some (o, s')) :
    NamesDirectory s' s'.currentDir := by
  cases name with
  | none =>
      cases hexec
      exact h
  | some buf =>
      obtain ⟨n, hn⟩ := hname buf rfl
      rcases fsNew_spec hI hn hflags with ⟨_, hnew⟩ | ⟨_, _, ⟨_, hnew⟩ | ⟨_, _, hnew⟩ |
        ⟨_, i, f, hunused, hnew, _, _, _, _, _, hframe⟩⟩
      · exact eq_of_exec hnew hexec ▸ h
      · exact eq_of_exec hnew hexec ▸ h
      · exact eq_of_exec hnew hexec ▸ h
      · rw [eq_of_exec hnew hexec]
        refine h.of_frame hframe fun hused ↦ ?_
        rw [hunused] at hused
        cases hused

/-- `fs_write` -/
theorem NamesDirectory.fsWrite {fails : Bool} {file : Option Slot} {data : Option (List UInt8)}
    {size : Nat} {o : Outcome} (h : NamesDirectory s s.currentDir) (hI : Inv tight s others)
    (hc : (FsCall.write file data size).Legal (ValidHandle s))
    (hexec : (FsCall.write file data size).exec (allocator fails) s = some (o, s')) :
    NamesDirectory s' s'.currentDir := by
  obtain ⟨hfile, _, hdata⟩ := hc
  rw [FsCall.exec] at hexec
  cases file with
  | none =>
      cases hexec
      exact h
  | some i =>
      cases data with
      | none =>
          cases hexec
          exact h
      | some src =>
          rcases fsWrite_spec fails hI (hfile i rfl) (hdata src rfl) with
            ⟨_, hw⟩ | ⟨_, t, _, ⟨_, hw, hstored⟩ | ⟨_, hw, hframe, hf, _⟩⟩
          · exact eq_of_exec hw hexec ▸ h
          · rw [eq_of_exec hw hexec]
            exact h.of_stored hstored
          · rw [eq_of_exec hw hexec]
            refine h.of_frame hframe fun _ ↦ ?_
            rw [hf]
            exact ⟨rfl, rfl⟩

/-- `fs_append` -/
theorem NamesDirectory.fsAppend {fails : Bool} {file : Option Slot} {data : Option (List UInt8)}
    {size : Nat} {o : Outcome} (h : NamesDirectory s s.currentDir) (hI : Inv tight s others)
    (hc : (FsCall.append file data size).Legal (ValidHandle s))
    (hover : ¬ Overruns fails s (.append file data size))
    (hexec : (FsCall.append file data size).exec (allocator fails) s = some (o, s')) :
    NamesDirectory s' s'.currentDir := by
  obtain ⟨hfile, hlt, hdata⟩ := hc
  rw [FsCall.exec] at hexec
  cases file with
  | none =>
      cases hexec
      exact h
  | some i =>
      cases data with
      | none =>
          cases hexec
          exact h
      | some src =>
          rcases fsAppend_cases fails hI (hfile i rfl) hlt (hdata src rfl) hover with
            ⟨_, ha⟩ | ⟨t, c, ha, _, hstored⟩
          · exact eq_of_exec ha hexec ▸ h
          · rw [eq_of_exec ha hexec]
            exact h.of_stored hstored

/-- **A call keeps the current directory valid**, unless it removes it. -/
theorem Inv.cwd_exec {fails : Bool} {c : FsCall (Option Slot)} {o : Outcome}
    (hI : Inv False s others) (hc : c.Legal (ValidHandle s)) (hover : ¬ Overruns fails s c)
    (h : NamesDirectory s s.currentDir)
    (hexec : c.exec (allocator fails) s = some (o, s')) :
    NamesDirectory s' s'.currentDir ↔ ¬ Strands s c := by
  have hkept : ∀ {c : FsCall (Option Slot)}, ¬ Strands s c → NamesDirectory s' s'.currentDir →
      (NamesDirectory s' s'.currentDir ↔ ¬ Strands s c) := fun hno hyes ↦
    ⟨fun _ ↦ hno, fun _ ↦ hyes⟩
  cases c with
  | create name => exact hkept id (h.fsNew hI (.inl rfl) hc hexec)
  | mkdir name => exact hkept id (h.fsNew hI (.inr rfl) hc hexec)
  | delete name =>
      obtain ⟨n, hn⟩ := hc
      change _ ↔ ¬ (cstr name = cstr s.currentDir ∧ cstr s.currentDir ≠ [0x2F])
      rw [hn.cstr_eq]
      rcases fsDelete_spec hI hn with ⟨hslot, hdel⟩ | ⟨i, t, hslot, hdel, _, hframe, hclear⟩
      · rw [eq_of_exec hdel hexec]
        apply h.iff_of_no_directory hI.table
        intro j hj
        cases hslot.symm.trans hj
      · rw [eq_of_exec hdel hexec]
        exact h.remove hI.table hslot hframe hclear
  | rmdir name =>
      obtain ⟨n, hn⟩ := hc
      change _ ↔ ¬ (cstr name = cstr s.currentDir ∧ cstr s.currentDir ≠ [0x2F])
      rw [hn.cstr_eq]
      rcases fsRmdir_spec hI hn False.elim with
        ⟨hslot, hrm⟩ | ⟨i, hslot, ⟨hfile, hrm⟩ | ⟨_, t, hrm, _, hframe, hclear, _⟩⟩
      · rw [eq_of_exec hrm hexec]
        apply h.iff_of_no_directory hI.table
        intro j hj
        cases hslot.symm.trans hj
      · rw [eq_of_exec hrm hexec]
        apply h.iff_of_no_directory hI.table
        intro j hj
        cases hslot.symm.trans hj
        exact hfile
      · rw [eq_of_exec hrm hexec]
        exact h.remove hI.table hslot hframe hclear
  | chdir name =>
      apply hkept id
      obtain ⟨code, t, hch, _, ⟨dir, rfl, hdir⟩, _⟩ := fsChdir_spec hI hc
      rw [eq_of_exec hch hexec]
      apply NamesDirectory.of_keep (s := s) ?_ fun _ _ ↦ ⟨rfl, rfl⟩
      cases name with
      | none => exact h.of_holds hdir
      | some buf => exact h.chdir hI.table hdir
  | exist name =>
      obtain ⟨code, _, hs⟩ := Option.map_eq_some_iff.mp hexec
      cases hs
      exact hkept id h
  | count =>
      cases hexec
      exact hkept id h
  | write file data size => exact hkept id (h.fsWrite hI hc hexec)
  | append file data size => exact hkept id (h.fsAppend hI hc hover hexec)
  | truncate file =>
      apply hkept id
      cases file with
      | none =>
          cases hexec
          exact h
      | some i =>
          obtain ⟨t, htr, _, hstored⟩ := fsTruncate_spec hI (hc i rfl)
          rw [eq_of_exec htr hexec]
          exact h.of_stored hstored
  | read file buffer size offset =>
      obtain ⟨r, _, hs⟩ := Option.map_eq_some_iff.mp hexec
      cases hs
      exact hkept id h
  | getSize file =>
      cases hexec
      exact hkept id h
  | isDir file =>
      cases hexec
      exact hkept id h

/-- The same for a step of a world. -/
theorem Inv.cwd_step {w w' : World} {a : Act (Option Slot)} (hI : Inv False w.sys w.others)
    (hstep : WorldStep w a w') (h : NamesDirectory w.sys w.sys.currentDir) :
    NamesDirectory w'.sys w'.sys.currentDir ↔ ¬ ActStrands w a := by
  cases a with
  | fs fails c o =>
      obtain ⟨hc, hover, _, hexec⟩ := hstep
      exact hI.cwd_exec hc hover h hexec
  | other c =>
      obtain ⟨_, hsys, _⟩ := hstep
      rw [hsys]
      exact ⟨fun _ ↦ id, fun _ ↦ h.of_keep fun _ _ ↦ ⟨rfl, rfl⟩⟩

/-! ## Runs -/

theorem Booted.namesDirectory {w : World} (hb : Booted w) :
    NamesDirectory w.sys w.sys.currentDir := by
  obtain ⟨_, s, _, hcwd, hsys⟩ := hb
  refine ⟨[0x2F], ⟨by decide, List.replicate 30 0, ?_⟩, .inl rfl⟩
  rw [hsys]
  exact hcwd

/-- **The current directory exists** in every state of every run from `fs_init` in which no call
removes it; and a call that does, leaves `fs_getcwd` with a name that is not that of a
directory. -/
theorem run_cwd {w₀ w : World} {acts : List (Act (Option Slot))} (hb : Booted w₀)
    (hr : Run (fun w a w' ↦ WorldStep w a w' ∧ ¬ ActStrands w a) w₀ acts w) :
    NamesDirectory w.sys (fsGetcwd w.sys) ∧ ∀ a w', WorldStep w a w' →
      (NamesDirectory w'.sys (fsGetcwd w'.sys) ↔ ¬ ActStrands w a) := by
  have hinv : Inv False w.sys w.others ∧ NamesDirectory w.sys w.sys.currentDir := by
    refine hr.invariant
      (I := fun w ↦ Inv False w.sys w.others ∧ NamesDirectory w.sys w.sys.currentDir) ?_
      ⟨hb.inv.1, hb.namesDirectory⟩
    rintro w a w' ⟨hI, hcwd⟩ ⟨hstep, hsafe⟩
    exact ⟨(hI.worldStep hstep False.elim).1, (hI.cwd_step hstep hcwd).mpr hsafe⟩
  exact ⟨hinv.2, fun a w' hstep ↦ hinv.1.cwd_step hstep hinv.2⟩

/-- A directory that has been made and entered. -/
theorem exists_entered {w₀ : World} (hb : Booted w₀) :
    ∃ w i, Run (fun w a w' ↦ WorldStep w a w' ∧ ¬ ActStrands w a) w₀
        [.fs false (.mkdir (some [0x64, 0])) (.ofCode 0),
          .fs false (.chdir (some [0x64, 0])) (.ofCode 0)] w ∧
    Inv True w.sys w.others ∧ EntryAt w.sys i [0x64] [] ∧
    (w.sys.fileTable i).directory = true ∧ (∀ k, k ≠ i → (w.sys.fileTable k).used = false) ∧
    Holds (fsGetcwd w.sys) [0x64] := by
  have hI₀ : Inv True _ _ := hb.inv.1
  have hn : Holds [0x64, 0] [0x64] := ⟨by decide, [], rfl⟩
  have hlegal : ∀ buf, some [0x64, 0] = some buf → ∃ n, Holds buf n := by
    rintro buf ⟨⟩
    exact ⟨_, hn⟩
  obtain ⟨i, f, hmkdir, hI, _, hflags, he, _, hframe⟩ :=
    hI₀.new_step hn (by decide) (by decide) (hb.slotOf_eq _) ⟨⟨0, by decide⟩, hb.unused _⟩
      (.inr ⟨rfl, rfl⟩)
  have hdir : ((w₀.sys.setFile i f).fileTable i).directory = true := by
    rw [TableOk.setFile_same, FsFile.directory, hflags]
    decide
  have hunused : ∀ k, k ≠ i → ((w₀.sys.setFile i f).fileTable k).used = false := fun k hk ↦ by
    rw [hframe.file k hk]
    exact hb.unused k
  generalize w₀.sys.setFile i f = s at *
  have hcode : chdirCode s [0x64] = 0 := by
    rw [chdirCode, if_neg (by decide)]
    simp only [he.slotOf_eq hI, hdir, if_true]
  obtain ⟨code, t, hch, hI', ⟨dir, rfl, hholds⟩, _, hcode'⟩ := fsChdir_spec hI hlegal
  rw [Option.elim_some, hn.cstr_eq, chdirDir, if_neg (by decide), if_pos hcode] at hholds
  rw [Option.elim_some, hn.cstr_eq, hcode] at hcode'
  have hchdir : WorldStep ⟨s, w₀.others⟩ (.fs false (.chdir (some [0x64, 0])) (.ofCode 0))
      ⟨{ s with currentDir := dir }, w₀.others⟩ := by
    refine ⟨hlegal, id, rfl, ?_⟩
    rw [hcode'] at hch
    exact congrArg (Option.map (Prod.map Outcome.ofCode id)) hch
  exact ⟨_, i, .cons ⟨hmkdir, id⟩ (.single ⟨hchdir, id⟩), hI',
    ⟨he.used, he.name, he.size, he.contents⟩, hdir, hunused, hholds⟩

/-- In a directory that has been made and entered, a file comes and goes. -/
theorem run_cwd_entered : ∃ w, Run (fun w a w' ↦ WorldStep w a w' ∧ ¬ ActStrands w a)
      (bootWorld (Clients.init fun _ ↦ 0)) [.fs false (.mkdir (some [0x64, 0])) (.ofCode 0),
        .fs false (.chdir (some [0x64, 0])) (.ofCode 0),
        .fs false (.create (some [0x61, 0])) (.ofCode 0),
        .fs false (.delete [0x61, 0]) (.ofCode 0)] w ∧
    cstr (fsGetcwd w.sys) = [0x64] ∧ NamesDirectory w.sys (fsGetcwd w.sys) := by
  have hb := booted_bootWorld (w := Clients.init fun _ ↦ 0) ⟨_, [], .nil _⟩
  have hn : Holds [0x61, 0] [0x61] := ⟨by decide, [], rfl⟩
  obtain ⟨w, i, hrun, hI, he, _, hunused, hcwd⟩ := exists_entered hb
  have hslot : slotOf w.sys [0x61] = none := by
    refine TableOk.slotOf_eq_none_iff.mpr fun k hk ↦ ?_
    have hki : k = i := by
      by_contra hne
      cases (hunused k hne).symm.trans hk
    rw [hki, he.name]
    decide
  have hfree : ∃ k, (w.sys.fileTable k).used = false := by
    by_cases h : i = ⟨0, by decide⟩
    · exact ⟨⟨1, by decide⟩, hunused _ (by rw [h]; decide)⟩
    · exact ⟨⟨0, by decide⟩, hunused _ (Ne.symm h)⟩
  obtain ⟨j, f, hcreate, hI₁, _, _, he₁, _, hframe₁⟩ :=
    hI.new_step hn (by decide) (by decide) hslot hfree (.inl ⟨rfl, rfl⟩)
  obtain ⟨s₂, hdelete, _, hframe₂, _⟩ :=
    Inv.delete_step (w := ⟨_, w.others⟩) hI₁ hn (he₁.slotOf_eq hI₁)
  have hsafe : ¬ ActStrands ⟨w.sys.setFile j f, w.others⟩
      (.fs false (.delete [0x61, 0]) (.ofCode 0)) := by
    rintro ⟨hsame, _⟩
    rw [hn.cstr_eq] at hsame
    exact absurd (hsame.trans hcwd.cstr_eq) (by decide)
  have hrun' := (hrun.snoc ⟨hcreate, id⟩).snoc ⟨hdelete, hsafe⟩
  refine ⟨⟨s₂, w.others⟩, hrun', ?_, (run_cwd hb hrun').1⟩
  change cstr s₂.currentDir = _
  rw [hframe₂.cwd]
  exact hcwd.cstr_eq

/-- A directory is made, entered and removed, and is still the current directory. -/
theorem rmdir_strands : ∃ w₀ w, Booted w₀ ∧
    Run WorldStep w₀ [.fs false (.mkdir (some [0x64, 0])) (.ofCode 0),
      .fs false (.chdir (some [0x64, 0])) (.ofCode 0),
      .fs false (.rmdir [0x64, 0]) (.ofCode 0)] w ∧
    ¬ NamesDirectory w.sys (fsGetcwd w.sys) := by
  have hb := booted_bootWorld (w := Clients.init fun _ ↦ 0) ⟨_, [], .nil _⟩
  have hn : Holds [0x64, 0] [0x64] := ⟨by decide, [], rfl⟩
  obtain ⟨w, i, hrun, hI, he, hdir, _, hcwd⟩ := exists_entered hb
  have hslot := he.slotOf_eq hI
  have hnames : NamesDirectory w.sys w.sys.currentDir :=
    ⟨[0x64], hcwd, .inr ⟨i, he.used, hdir, he.name⟩⟩
  obtain ⟨s', hrmdir, hframe, hclear, _⟩ := hI.rmdir_step hn hslot hdir
  refine ⟨_, _, hb, (hrun.mono And.left).snoc hrmdir, fun hstill ↦ ?_⟩
  have hroot : cstr w.sys.currentDir ≠ [0x2F] := by
    have hcstr : cstr w.sys.currentDir = [0x64] := hcwd.cstr_eq
    rw [hcstr]
    decide
  exact (hnames.remove hI.table hslot hframe hclear).mp hstill ⟨hcwd.cstr_eq.symm, hroot⟩

end KontolOS.Fs
