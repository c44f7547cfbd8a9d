import KontolOS.Fs.Steps
import KontolOS.Lib.Split

/-!
# Listing the entries

`fs_list` puts the names of the used entries into a buffer of its caller, each with a newline
behind it.  A name that does not fit any more is left out, and a shorter one behind it may still
go in: the names that are listed are those of `fitLines`.
-/

namespace KontolOS.Fs

open KontolOS.Lib KontolOS.Memory KontolOS.Strings

/-! ## The function -/

/-- `buffer[i] = c` -/
def setByte (buffer : List UInt8) (i : Nat) (c : UInt8) : Option (List UInt8) :=
  if i < buffer.length then some (buffer.set i c) else none

/-- The loop of `fs_list` over the slots that are left. -/
def fsListIn (s : Sys) (bufferSize : Nat) :
    List Slot → Nat → Nat → List UInt8 → Option (Nat × List UInt8)
  | [], _, count, buffer => some (count, buffer)
  | i :: rest, pos, count, buffer =>
      if (s.fileTable i).used then do
        let nameLen ← strlen (s.fileTable i).name
        if add32 (add32 pos nameLen) 2 < bufferSize then
          let copied ← strcpy (buffer.drop pos) (s.fileTable i).name
          let buffer := buffer.take pos ++ copied
          let pos := add32 pos nameLen
          let buffer ← setByte buffer pos 0x0A
          let pos := add32 pos 1
          let buffer ← setByte buffer pos 0
          fsListIn s bufferSize rest pos (count + 1) buffer
        else fsListIn s bufferSize rest pos count buffer
      else fsListIn s bufferSize rest pos count buffer

/-- `fs_list`: the code it returns, and the caller's buffer afterwards. -/
def fsList (s : Sys) (buffer : Option (List UInt8)) (bufferSize : Nat) :
    Option (Int × Option (List UInt8)) :=
  match buffer with
  | none => some (-1, none)
  | some buffer => do
      if bufferSize = 0 then return (-1, some buffer)
      let buffer ← setByte buffer 0 0
      let (count, buffer) ← fsListIn s bufferSize (List.finRange fsMaxFiles) 0 0 buffer
      return ((count : Int), some buffer)

/-! ## What it lists -/

/-- The slots of the used entries, in order. -/
def usedSlots (s : Sys) : List Slot :=
  (List.finRange fsMaxFiles).filter fun i ↦ (s.fileTable i).used

/-- The name of an entry. -/
def nameOf (s : Sys) (i : Slot) : List UInt8 := cstr (s.fileTable i).name

theorem mem_usedSlots {s : Sys} {i : Slot} : i ∈ usedSlots s ↔ (s.fileTable i).used = true := by
  simp [usedSlots]

theorem length_usedSlots (s : Sys) : (usedSlots s).length = fsCount s :=
  List.countP_eq_length_filter.symm

section

variable {s : Sys} {buffer name t n : List UInt8} {limit : Nat}

theorem setByte_eq (u v : List UInt8) (b c : UInt8) :
    setByte (u ++ b :: v) u.length c = some (u ++ c :: v) := by
  rw [setByte, if_pos (by simp), set_length_append]

/-- A buffer with room for `k` characters and a newline behind the string in it. -/
theorem exists_room {k : Nat} (hb : Holds buffer t) (hfit : t.length + k + 2 < buffer.length) :
    0 ∉ t ∧ ∃ u x y rest, buffer = t ++ (u ++ x :: y :: rest) ∧ u.length = k + 1 := by
  obtain ⟨ht, rest, rfl⟩ := hb
  rw [List.length_append, List.length_cons] at hfit
  have hlen : ((0 :: rest).drop (k + 1)).length = rest.length - k := by simp
  have hpos : 0 < ((0 :: rest).drop (k + 1)).length := by omega
  obtain ⟨x, w, hx⟩ := List.exists_cons_of_length_pos hpos
  rw [hx, List.length_cons] at hlen
  obtain ⟨y, w, rfl⟩ := List.exists_cons_of_length_pos (show 0 < w.length by omega)
  refine ⟨ht, (0 :: rest).take (k + 1), x, y, w, ?_, ?_⟩
  · rw [← hx, List.take_append_drop]
  · rw [List.length_take, List.length_cons]
    omega

/-- One name and a newline are added to what the buffer holds. -/
theorem listName_eq (hb : Holds buffer t) (hn : Holds name n)
    (hfit : t.length + n.length + 2 < buffer.length) :
    ∃ copied b₁ b₂, strcpy (buffer.drop t.length) name = some copied ∧
      setByte (buffer.take t.length ++ copied) (t.length + n.length) 0x0A = some b₁ ∧
      setByte b₁ (t.length + n.length + 1) 0 = some b₂ ∧ b₂.length = buffer.length ∧
      b₂.drop (t.length + n.length + 2) = buffer.drop (t.length + n.length + 2) ∧
      Holds b₂ (t ++ n ++ [0x0A]) := by
  obtain ⟨ht, u, x, y, rest, rfl, hu⟩ := exists_room hb hfit
  have hcopy : strcpy ((t ++ (u ++ x :: y :: rest)).drop t.length) name =
      some (n ++ 0 :: x :: y :: rest) := by
    have hroom : n.length < (u ++ x :: y :: rest).length := by
      rw [List.length_append, hu]
      omega
    rw [List.drop_left, hn.strcpy_eq hroom, List.drop_left' hu]
  have hname : (t ++ n).length = t.length + n.length := List.length_append
  have hline : (t ++ n ++ [0x0A]).length = t.length + n.length + 1 := by
    rw [List.length_append, hname]
    rfl
  refine ⟨_, t ++ n ++ 0x0A :: x :: y :: rest, t ++ n ++ [0x0A] ++ 0 :: y :: rest, hcopy,
    ?_, ?_, ?_, ?_, ?_, y :: rest, rfl⟩
  · rw [List.take_left, ← List.append_assoc, ← hname]
    exact setByte_eq (t ++ n) (x :: y :: rest) 0 0x0A
  · rw [List.append_cons, ← hline]
    exact setByte_eq (t ++ n ++ [0x0A]) (y :: rest) x 0
  · simp only [List.length_append, List.length_cons, List.length_nil, hu]
    omega
  · have hnew : (t ++ n ++ [0x0A] ++ [0]).length = t.length + n.length + 2 := by
      rw [List.length_append, hline]
      rfl
    have hold : (t ++ u ++ [x]).length = t.length + n.length + 2 := by
      rw [List.length_append, List.length_append, hu]
      rfl
    rw [List.append_cons, List.drop_left' hnew, ← List.append_assoc, List.append_cons,
      List.drop_left' hold]
  · simp only [List.mem_append, List.mem_singleton, not_or]
    exact ⟨⟨ht, hn.1⟩, by decide⟩

/-- The name of an entry is a string that fits in its field. -/
def Named (s : Sys) (i : Slot) : Prop :=
  Holds (s.fileTable i).name (nameOf s i) ∧ (nameOf s i).length < fsMaxFilename

theorem TableOk.named (h : TableOk s) {i : Slot} (hu : (s.fileTable i).used = true) :
    Named s i := by
  have hn : Holds (s.fileTable i).name (nameOf s i) := ((h.file i).named hu).1
  have hlen := hn.length_lt
  rw [(h.file i).length] at hlen
  exact ⟨hn, hlen⟩

/-- A round of the loop, for a used entry. -/
theorem fsListIn_cons {i : Slot} (hu : (s.fileTable i).used = true) (hi : Named s i)
    (hb : Holds buffer t) (hlimit : limit ≤ buffer.length) (hroom : t.length + 32 < 2 ^ 32 - 2)
    (slots : List Slot) (count : Nat) :
    if t.length + (nameOf s i).length + 2 < limit then
      ∃ b, fsListIn s limit (i :: slots) t.length count buffer =
          fsListIn s limit slots (t ++ nameOf s i ++ [0x0A]).length (count + 1) b ∧
        b.length = buffer.length ∧ b.drop limit = buffer.drop limit ∧
        Holds b (t ++ nameOf s i ++ [0x0A])
    else fsListIn s limit (i :: slots) t.length count buffer =
      fsListIn s limit slots t.length count buffer := by
  obtain ⟨hn, hshort⟩ := hi
  unfold fsMaxFilename at hshort
  have hpos : add32 t.length (nameOf s i).length = t.length + (nameOf s i).length :=
    add32_of_lt (by omega)
  have hsum : add32 (add32 t.length (nameOf s i).length) 2 =
      t.length + (nameOf s i).length + 2 := by
    rw [hpos, add32_of_lt (by omega)]
  have hnext : add32 (t.length + (nameOf s i).length) 1 =
      t.length + (nameOf s i).length + 1 := add32_of_lt (by omega)
  simp only [fsListIn, hu, if_true, hn.strlen_eq, Option.bind_eq_bind, Option.bind_some]
  rw [hsum, hpos, hnext]
  split_ifs with hfit
  · obtain ⟨copied, b₁, b₂, hcopy, hset₁, hset₂, hlen₂, hdrop, hb₂⟩ :=
      listName_eq hb hn (Nat.lt_of_lt_of_le hfit hlimit)
    have hlen : (t ++ nameOf s i ++ [0x0A]).length = t.length + (nameOf s i).length + 1 := by
      rw [List.length_append, List.length_append, List.length_singleton]
    refine ⟨b₂, ?_, hlen₂, ?_, hb₂⟩
    · rw [hcopy, Option.bind_some, hset₁, Option.bind_some, hset₂, Option.bind_some, hlen]
    · obtain ⟨k, rfl⟩ := Nat.exists_eq_add_of_le (Nat.le_of_lt hfit)
      rw [← List.drop_drop, hdrop, List.drop_drop]
  · rfl

/-- **The loop of `fs_list`** lists the names that fit, and counts them; it writes nothing at
`buffer_size` or behind that. -/
theorem fsListIn_eq {slots : List Slot} {count : Nat}
    (hnames : ∀ i ∈ slots, (s.fileTable i).used = true → Named s i) (hb : Holds buffer t)
    (hlimit : limit ≤ buffer.length) (hroom : t.length + 32 * slots.length < 2 ^ 32 - 2) :
    ∃ ls buffer', fitLines limit t.length
        ((slots.filter fun i ↦ (s.fileTable i).used).map (nameOf s)) = ls ∧
      fsListIn s limit slots t.length count buffer = some (count + ls.length, buffer') ∧
      buffer'.length = buffer.length ∧ buffer'.drop limit = buffer.drop limit ∧
      Holds buffer' (t ++ joinLines 0x0A ls) := by
  induction slots generalizing t count buffer with
  | nil =>
      refine ⟨[], buffer, rfl, rfl, rfl, rfl, ?_⟩
      rwa [joinLines, List.flatMap_nil, List.append_nil]
  | cons i slots ih =>
      have hnames' : ∀ j ∈ slots, (s.fileTable j).used = true → Named s j := fun j hj ↦
        hnames j (List.mem_cons_of_mem i hj)
      rw [List.length_cons] at hroom
      cases hu : (s.fileTable i).used with
      | false =>
          rw [fsListIn, hu, List.filter_cons_of_neg (by simp [hu])]
          exact ih hnames' hb hlimit (by omega)
      | true =>
          have hi := hnames i List.mem_cons_self hu
          have hround := fsListIn_cons hu hi hb hlimit (by omega) slots count
          have hfilter : (i :: slots).filter (fun i ↦ (s.fileTable i).used) =
              i :: slots.filter fun i ↦ (s.fileTable i).used := List.filter_cons_of_pos hu
          rw [hfilter, List.map_cons, fitLines]
          split_ifs at hround ⊢ with hfit
          · obtain ⟨b, hloop, hlen, hdrop, hb'⟩ := hround
            have ht : (t ++ nameOf s i ++ [0x0A]).length = t.length + (nameOf s i).length + 1 := by
              rw [List.length_append, List.length_append, List.length_singleton]
            have hshort := hi.2
            unfold fsMaxFilename at hshort
            obtain ⟨ls, buffer', hls, hrest, hlen', hdrop', hb''⟩ :=
              @ih _ _ (count + 1) hnames' hb' (hlen ▸ hlimit) (by omega)
            rw [ht] at hls
            refine ⟨nameOf s i :: ls, buffer', congrArg _ hls, ?_, hlen'.trans hlen,
              hdrop'.trans hdrop, ?_⟩
            · rw [hloop, hrest, List.length_cons, Nat.add_assoc, Nat.add_comm 1]
            · rw [joinLines_cons]
              simpa using hb''
          · rw [hround]
            exact ih hnames' hb hlimit (by omega)

/-- **`fs_list`** lists the names that fit, and counts them; it writes nothing at `buffer_size` or
behind that. -/
theorem fsList_eq (hnames : ∀ i, (s.fileTable i).used = true → Named s i) (hpos : 0 < limit)
    (hlimit : limit ≤ buffer.length) :
    ∃ ls buffer', fitLines limit 0 ((usedSlots s).map (nameOf s)) = ls ∧
      fsList s (some buffer) limit = some ((ls.length : Int), some buffer') ∧
      buffer'.length = buffer.length ∧ buffer'.drop limit = buffer.drop limit ∧
      Holds buffer' (joinLines 0x0A ls) := by
  cases buffer with
  | nil => exact absurd hlimit (Nat.not_le.mpr hpos)
  | cons b rest =>
      have hset : setByte (b :: rest) 0 0 = some (0 :: rest) := setByte_eq [] rest b 0
      have hroom : ([] : List UInt8).length + 32 * (List.finRange fsMaxFiles).length <
          2 ^ 32 - 2 := by
        rw [List.length_finRange]
        decide
      obtain ⟨ls, buffer', hls, hloop, hlen, hdrop, hbuffer⟩ := @fsListIn_eq _ _ _ _
        (List.finRange fsMaxFiles) 0 (fun i _ ↦ hnames i) (Holds.nil_iff.mpr ⟨rest, rfl⟩)
        hlimit hroom
      obtain ⟨n, rfl⟩ := Nat.exists_eq_add_one.mpr hpos
      refine ⟨ls, buffer', hls, ?_, hlen, hdrop, hbuffer⟩
      rw [List.length_nil, Nat.zero_add] at hloop
      rw [fsList, if_neg (Nat.succ_ne_zero n), Option.bind_eq_bind, hset, Option.bind_some, hloop]
      rfl

end

/-! ## Files with given names -/

section

variable {tight : Prop} {others : Live} {s : Sys} {w : World} {i : Slot} {f : FsFile}

/-- A slot is taken. -/
theorem usedSlots_setFile (hfree : (s.fileTable i).used = false) (hf : f.used = true) :
    (usedSlots (s.setFile i f)).Perm (i :: usedSlots s) := by
  have hi : i ∉ usedSlots s := fun h ↦ absurd (mem_usedSlots.mp h) (by simp [hfree])
  refine (List.perm_ext_iff_of_nodup ((List.nodup_finRange _).filter _)
    (List.nodup_cons.mpr ⟨hi, (List.nodup_finRange _).filter _⟩)).mpr fun j ↦ ?_
  rw [← usedSlots, List.mem_cons, mem_usedSlots, mem_usedSlots]
  by_cases hj : j = i
  · rw [hj, TableOk.setFile_same, hf]
    simp
  · rw [TableOk.setFile_of_ne hj]
    simp [hj]

/-- One more file is created. -/
theorem Inv.create_step (hI : Inv tight w.sys w.others) {n : List UInt8} {names : List (List UInt8)}
    (hnames : ((usedSlots w.sys).map (nameOf w.sys)).Perm names) (hnew : n ∉ names)
    (hcount : names.length < fsMaxFiles) (hn : 0 ∉ n) (hne : n ≠ [])
    (hlen : n.length < fsMaxFilename) :
    ∃ s', WorldStep w (.fs false (.create (some (n ++ [0]))) (.ofCode 0)) ⟨s', w.others⟩ ∧
      Inv tight s' w.others ∧ ((usedSlots s').map (nameOf s')).Perm (n :: names) := by
  have hbuf : Holds (n ++ [0]) n := ⟨hn, [], rfl⟩
  have hslot : slotOf w.sys n = none := by
    refine TableOk.slotOf_eq_none_iff.mpr fun i hu heq ↦ hnew (hnames.mem_iff.mp ?_)
    exact List.mem_map.mpr ⟨i, mem_usedSlots.mpr hu, heq⟩
  have hfull : ¬ ∀ i, (w.sys.fileTable i).used = true := by
    intro hall
    have hused : usedSlots w.sys = List.finRange fsMaxFiles :=
      List.filter_eq_self.mpr fun i _ ↦ hall i
    have hlen := hnames.length_eq
    rw [List.length_map, hused, List.length_finRange] at hlen
    exact absurd hcount (by rw [hlen]; exact Nat.lt_irrefl _)
  rcases fsNew_spec hI hbuf (.inl rfl) with ⟨hbad, _⟩ | ⟨_, _, ⟨h, _⟩ | ⟨_, h, _⟩ |
    ⟨_, i, f, hfree, hnew, hname, _, _, hflags, hI', _⟩⟩
  · exact absurd hbad (not_or.mpr ⟨hne, Nat.not_le.mpr hlen⟩)
  · rw [hslot] at h
    cases h
  · exact absurd h hfull
  · have hused : f.used = true := by
      rw [FsFile.used, hflags]
      decide
    refine ⟨w.sys.setFile i f, ⟨fun _ hb ↦ ⟨n, Option.some.inj hb ▸ hbuf⟩, id, rfl, ?_⟩, hI', ?_⟩
    · rw [FsCall.exec, fsCreate, hnew]
      rfl
    · refine ((usedSlots_setFile hfree hused).map _).trans ?_
      have hsame : ∀ j ∈ usedSlots w.sys, nameOf (w.sys.setFile i f) j = nameOf w.sys j := by
        intro j hj
        have hne : j ≠ i := by
          rintro rfl
          exact absurd (mem_usedSlots.mp hj) (by simp [hfree])
        rw [nameOf, nameOf, TableOk.setFile_of_ne hne]
      have hi : nameOf (w.sys.setFile i f) i = n := by
        rw [nameOf, TableOk.setFile_same, hname]
      rw [List.map_cons, hi, List.map_congr_left hsame]
      exact hnames.cons n

/-- **Files with given names** can be created, up to `FS_MAX_FILES` of them. -/
theorem Inv.exists_files (hI : Inv tight w.sys w.others) {names new : List (List UInt8)}
    (hnames : ((usedSlots w.sys).map (nameOf w.sys)).Perm names) (hnodup : (new ++ names).Nodup)
    (hcount : (new ++ names).length ≤ fsMaxFiles)
    (hnew : ∀ n ∈ new, 0 ∉ n ∧ n ≠ [] ∧ n.length < fsMaxFilename) :
    ∃ w', Run WorldStep w
        (new.map fun n ↦ .fs false (.create (some (n ++ [0]))) (.ofCode 0)) w' ∧
      ((usedSlots w'.sys).map (nameOf w'.sys)).Perm (new ++ names) := by
  induction new generalizing w names with
  | nil => exact ⟨w, .nil w, hnames⟩
  | cons n new ih =>
      rw [List.cons_append, List.nodup_cons, List.mem_append, not_or] at hnodup
      rw [List.cons_append, List.length_cons, List.length_append] at hcount
      obtain ⟨hn, hne, hlen⟩ := hnew n List.mem_cons_self
      obtain ⟨s', hstep, hI', hperm⟩ :=
        hI.create_step hnames hnodup.1.2 (by omega) hn hne hlen
      have hmiddle : (new ++ n :: names).Perm (n :: new ++ names) := List.perm_middle
      obtain ⟨w', hrun, hperm'⟩ := ih (w := ⟨s', w.others⟩) hI' hperm
        (hmiddle.nodup_iff.mpr (by
          rw [List.cons_append, List.nodup_cons, List.mem_append, not_or]
          exact hnodup))
        (by rw [hmiddle.length_eq, List.cons_append, List.length_cons, List.length_append]; omega)
        fun k hk ↦ hnew k (List.mem_cons_of_mem n hk)
      exact ⟨w', .cons hstep hrun, hperm'.trans hmiddle⟩

/-- Right after `fs_init` there are no files. -/
theorem usedSlots_bootWorld (w : Clients) : usedSlots (bootWorld w).sys = [] :=
  List.filter_eq_nil_iff.mpr fun _ _ h ↦ absurd h (by rw [bootWorld, fsInit, clear_used]; decide)

end

end KontolOS.Fs
