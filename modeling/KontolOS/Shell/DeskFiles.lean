import KontolOS.Shell.Desk

/-!
# The files of the abstract shell

`Stores` relates the filesystem and the heap to the files of the abstract shell: the map is the
same, nothing is leaked but for a number of blocks, and what is in the files is fit for the
commands (no name has a line break, there are only printable characters in the files, and none is
larger than what the editor writes).  Each command that only works on them does what the abstract
shell does.
-/

namespace KontolOS.Shell

open KontolOS.Lib KontolOS.Memory KontolOS.Strings KontolOS.Drivers KontolOS.Fs Function

/-- What the shell puts into a directory. -/
structure Tidy (m : Directory) : Prop where
  /-- names are typed in one line -/
  name : ∀ n ∈ m.entries, 0x0A ∉ n.chars
  /-- what is in a file can be typed -/
  printable : ∀ n e, m.entries.lookup n = some e → ∀ c ∈ e.data, c = 0x0A ∨ Printable c
  /-- the editor has written it -/
  short : ∀ n e, m.entries.lookup n = some e → e.data.length ≤ textMax

/-- The filesystem has the files of the abstract shell, and the heap at most `k` blocks more. -/
structure Stores (k : Nat) (s : Sys) (files : Directory) (cwd : List UInt8) : Prop where
  /-- the blocks that belong to no file -/
  modest : ∃ ptrs others, ptrs.length ≤ k ∧ Modest blockMax ptrs s others
  /-- the files -/
  refines : Refines s files
  /-- and what they are like -/
  tidy : Tidy files
  /-- the current directory -/
  cwd : Holds s.currentDir cwd

/-- A command that only prints does what the abstract shell does. -/
def Matches (k : Nat) (cmd : Command) (argv : List (List UInt8)) (s : Sys) (d : Desk)
    (r : Desk × Display) : Prop :=
  ∃ files cwd t calls s', r = ({ d with files := files, cwd := cwd }, .text t) ∧
    cmd argv s = some (calls, s') ∧ Prints calls t ∧ Stores k s' files cwd

variable {m m' files : Directory} {n k : Name} {e e' : Entry} {s s' : Sys} {j : Nat}
  {cwd arg name w text : List UInt8} {argv ws : List (List UInt8)} {calls : List VgaCall} {d : Desk}
  {cmd : Command}

/-! ## Changing a directory -/

theorem lookup_of_put (h : (m.put n e).entries.lookup k = some e') :
    k = n ∧ e' = e ∨ m.entries.lookup k = some e' := by
  by_cases hroom : n ∈ m.entries ∨ m.entries.keys.card < fsMaxFiles
  · rw [Directory.lookup_put hroom] at h
    split at h
    next hk => exact .inl ⟨hk, (Option.some.inj h).symm⟩
    next => exact .inr h
  · rw [Directory.put, dif_neg hroom] at h
    exact .inr h

/-- What is found is an entry. -/
theorem lookup_of_find (h : m.find w = some (n, e)) : m.entries.lookup n = some e := by
  have hchars := Directory.find_eq_some h
  rw [← hchars, Directory.find_chars] at h
  obtain ⟨e', he', heq⟩ := Option.map_eq_some_iff.mp h
  cases heq
  exact he'

namespace Tidy

/-- No terminator is in a file. -/
theorem noNul (h : Tidy m) (hlookup : m.entries.lookup n = some e) : 0 ∉ e.data := by
  intro hmem
  rcases h.printable n e hlookup 0 hmem with hnl | ⟨hlow, _⟩
  · exact absurd hnl (by decide)
  · exact absurd hlow (by decide)

theorem put (h : Tidy m) (hname : 0x0A ∉ n.chars)
    (hprintable : ∀ c ∈ e.data, c = 0x0A ∨ Printable c) (hlen : e.data.length ≤ textMax) :
    Tidy (m.put n e) := by
  refine ⟨fun k hk ↦ ?_, fun k e' he ↦ ?_, fun k e' he ↦ ?_⟩
  · obtain ⟨e', he⟩ := Finmap.mem_iff.mp hk
    rcases lookup_of_put he with ⟨rfl, _⟩ | hold
    · exact hname
    · exact h.name k (Finmap.mem_of_lookup_eq_some hold)
  · rcases lookup_of_put he with ⟨_, rfl⟩ | hold
    · exact hprintable
    · exact h.printable k e' hold
  · rcases lookup_of_put he with ⟨_, rfl⟩ | hold
    · exact hlen
    · exact h.short k e' hold

theorem remove (h : Tidy m) (n : Name) : Tidy (m.remove n) := by
  have hlookup : ∀ {k e}, (m.remove n).entries.lookup k = some e → m.entries.lookup k = some e := by
    intro k e he
    rw [Directory.lookup_remove] at he
    split at he
    · cases he
    · exact he
  refine ⟨fun k hk ↦ ?_, fun k e he ↦ h.printable k e (hlookup he),
    fun k e he ↦ h.short k e (hlookup he)⟩
  obtain ⟨e, he⟩ := Finmap.mem_iff.mp hk
  exact h.name k (Finmap.mem_of_lookup_eq_some (hlookup he))

theorem new (h : Tidy m) (directory : Bool) {buf : List UInt8} (hname : 0x0A ∉ cstr buf) :
    Tidy (m.new directory (some buf)).2 := by
  rw [Directory.new]
  cases hof : Name.ofString (cstr buf) with
  | none => exact h
  | some n =>
      have hchars := Directory.ofString_eq_some_iff.mp hof
      dsimp only
      split
      · exact h
      · split
        · exact h.put (hchars ▸ hname) (List.forall_mem_nil _) (Nat.zero_le _)
        · exact h

theorem exec_delete (h : Tidy m) (buf : List UInt8) : Tidy (m.exec (.delete buf)).2 := by
  rw [Directory.exec]
  split
  · exact h
  · exact h.remove _

theorem exec_rmdir (h : Tidy m) (buf : List UInt8) : Tidy (m.exec (.rmdir buf)).2 := by
  rw [Directory.exec]
  split
  · exact h
  · split
    · exact h.remove _
    · exact h

end Tidy

/-- Only the characters of a name matter. -/
theorem new_congr {buf buf' : List UInt8} (h : cstr buf = cstr buf') (directory : Bool) :
    m.new directory (some buf) = m.new directory (some buf') := by
  rw [Directory.new, Directory.new, h]

/-- The terminator is put behind a word. -/
theorem cstr_word (hw : 0 ∉ w) : cstr (w ++ [0]) = w := Holds.cstr_eq ⟨hw, [], rfl⟩

/-! ## Commands on files -/

namespace Stores

theorem mono {j' : Nat} (h : Stores j s files cwd) (hle : j ≤ j') : Stores j' s files cwd := by
  obtain ⟨ptrs, others, hlen, hm⟩ := h.modest
  exact ⟨⟨ptrs, others, Nat.le_trans hlen hle, hm⟩, h.refines, h.tidy, h.cwd⟩

/-- The call of `fs_create` or `fs_mkdir`. -/
theorem fsNew (h : Stores j s files cwd) (hname : Holds name w) (hw : 0x0A ∉ w) {flags : UInt8}
    {directory : Bool} (hflags : flags = fsFlagUsed ∧ directory = false ∨
      flags = fsFlagUsed ||| fsFlagDirectory ∧ directory = true) :
    ∃ s', fsNew flags s (some name) =
        some ((files.new directory (some (w ++ [0]))).1, s') ∧
      Stores j s' (files.new directory (some (w ++ [0]))).2 cwd := by
  obtain ⟨ptrs, others, hlen, hm⟩ := h.modest
  have hflags' : flags = fsFlagUsed ∨ flags = fsFlagUsed ||| fsFlagDirectory :=
    hflags.imp And.left And.left
  obtain ⟨code, s', hnew, hcwd⟩ : ∃ code s', Fs.fsNew flags s (some name) = some (code, s') ∧
      s'.currentDir = s.currentDir := by
    rcases fsNew_spec hm.inv hname hflags' with ⟨_, hnew⟩ | ⟨_, _, ⟨_, hnew⟩ | ⟨_, _, hnew⟩ |
      ⟨_, i, f, _, hnew, _⟩⟩
    all_goals exact ⟨_, _, hnew, rfl⟩
  have hword : cstr name = cstr (w ++ [0]) := hname.cstr_eq.trans (cstr_word hname.1).symm
  obtain ⟨m', hm', hR⟩ := h.refines.new hm.inv hflags (fun buf hbuf ↦ by
    cases hbuf
    exact ⟨w, hname⟩) hnew
  rw [new_congr hword] at hm'
  rw [hm']
  refine ⟨s', hnew, ⟨ptrs, others, hlen, hm.fsNew hname hflags' hnew⟩, hR, ?_,
    by rw [hcwd]; exact h.cwd⟩
  have htidy : Tidy (files.new directory (some (w ++ [0]))).2 :=
    h.tidy.new directory (by rwa [cstr_word hname.1])
  rwa [hm'] at htidy

/-- A command that leaves the files alone. -/
theorem say (h : Stores j s d.files d.cwd) (hcmd : cmd argv s = some (calls, s))
    (hprints : Prints calls text) : Matches j cmd argv s d (d.say text) :=
  ⟨d.files, d.cwd, text, calls, s, rfl, hcmd, hprints, h⟩

theorem usage (h : Stores j s d.files d.cwd) (t : String)
    (hcmd : cmd argv s = some ([.print (literal t)], s)) :
    Matches j cmd argv s d (d.say (chars t)) := by
  have hprints := Prints.nil.literal t
  rw [List.append_nil] at hprints
  exact h.say hcmd hprints

/-- **`touch` and `mkdir`** -/
theorem create (h : Stores j s d.files d.cwd) (t : Creation) {directory : Bool}
    (hflags : t.flags = fsFlagUsed ∧ directory = false ∨
      t.flags = fsFlagUsed ||| fsFlagDirectory ∧ directory = true)
    (hargs : List.Forall₂ Holds argv ws) (hws : ∀ w ∈ ws, 0x0A ∉ w) :
    Matches j t.run (arg :: argv) s d (Desk.create t directory d ws) := by
  cases hargs with
  | nil => exact h.usage t.usage rfl
  | @cons name w argv ws hname _ =>
      obtain ⟨s', hnew, hs'⟩ := h.fsNew hname (hws w List.mem_cons_self) hflags
      refine ⟨_, d.cwd, _, _, s', rfl, ?_, t.prints_calls hname _, hs'⟩
      simp only [Creation.run, hnew, Option.bind_eq_bind, Option.bind_some]
      rfl

/-- **`rm`** -/
theorem rm (h : Stores j s d.files d.cwd) (hargs : List.Forall₂ Holds argv ws) :
    Matches j cmdRm (arg :: argv) s d (d.rm ws) := by
  cases hargs with
  | nil => exact h.usage "Usage: rm <filename>\n" rfl
  | @cons name w argv ws hname _ =>
      obtain ⟨ptrs, others, hlen, hm⟩ := h.modest
      obtain ⟨code, s', hdel, hcwd⟩ : ∃ code s', fsDelete s name = some (code, s') ∧
          s'.currentDir = s.currentDir := by
        rcases fsDelete_spec hm.inv hname with ⟨_, hdel⟩ | ⟨_, s', _, hdel, _, hframe, _⟩
        · exact ⟨_, _, hdel, rfl⟩
        · exact ⟨_, _, hdel, hframe.cwd⟩
      obtain ⟨m', hexec, hR⟩ := h.refines.delete hm.inv ⟨w, hname⟩ hdel
      have hword : d.files.exec (.delete (w ++ [0])) = (.ofCode code, m') := by
        rw [← hexec, Directory.exec, Directory.exec, cstr_word hname.1, hname.cstr_eq]
      refine ⟨m', d.cwd, rmText w code, _, s', ?_, ?_, prints_rmCalls hname code,
        ⟨ptrs, others, hlen, hm.fsDelete hname hdel⟩, hR, ?_, by rw [hcwd]; exact h.cwd⟩
      · rw [Desk.rm, hword]
        rfl
      · simp only [cmdRm, hdel, Option.bind_eq_bind, Option.bind_some]
        rfl
      · have htidy := h.tidy.exec_delete (w ++ [0])
        rwa [hword] at htidy

/-- **`rmdir`** leaves a block to nobody if the directory has contents. -/
theorem rmdir (h : Stores j s d.files d.cwd) (hargs : List.Forall₂ Holds argv ws) :
    (¬ (∃ w rest, ws = w :: rest ∧ Leaks s (.rmdir (w ++ [0]))) ∧
      Matches j cmdRmdir (arg :: argv) s d (d.rmdir ws)) ∨
    (∃ w rest, ws = w :: rest ∧ Leaks s (.rmdir (w ++ [0]))) ∧
      Matches (j + 1) cmdRmdir (arg :: argv) s d (d.rmdir ws) := by
  cases hargs with
  | nil =>
      refine .inl ⟨?_, h.usage "Usage: rmdir <dirname>\n" rfl⟩
      rintro ⟨_, _, heq, _⟩
      cases heq
  | @cons name w argv ws hname _ =>
      obtain ⟨ptrs, others, hlen, hm⟩ := h.modest
      obtain ⟨code, s', hrm, hcwd⟩ : ∃ code s', fsRmdir s name = some (code, s') ∧
          s'.currentDir = s.currentDir := by
        rcases fsRmdir_spec hm.loose hname nofun with
          ⟨_, hrm⟩ | ⟨_, _, ⟨_, hrm⟩ | ⟨_, s', hrm, _, hframe, _⟩⟩
        · exact ⟨_, _, hrm, rfl⟩
        · exact ⟨_, _, hrm, rfl⟩
        · exact ⟨_, _, hrm, hframe.cwd⟩
      obtain ⟨m', hexec, hR⟩ := h.refines.rmdir hm.loose ⟨w, hname⟩ hrm
      have hword : d.files.exec (.rmdir (w ++ [0])) = (.ofCode code, m') := by
        rw [← hexec, Directory.exec, Directory.exec, cstr_word hname.1, hname.cstr_eq]
      have htidy := h.tidy.exec_rmdir (w ++ [0])
      rw [hword] at htidy
      have hmatch : ∀ {j' ptrs' others'}, ptrs'.length ≤ j' → Modest blockMax ptrs' s' others' →
          Matches j' cmdRmdir (arg :: name :: argv) s d (d.rmdir (w :: ws)) := by
        intro j' ptrs' others' hlen' hm'
        refine ⟨m', d.cwd, rmdirText w code, _, s', ?_, ?_, prints_rmdirCalls hname code,
          ⟨ptrs', others', hlen', hm'⟩, hR, htidy, by rw [hcwd]; exact h.cwd⟩
        · rw [Desk.rmdir, hword]
          rfl
        · simp only [cmdRmdir, hrm, Option.bind_eq_bind, Option.bind_some]
          rfl
      have hleak : Leaks s (.rmdir name) ↔ Leaks s (.rmdir (w ++ [0])) := by
        rw [Leaks, Leaks, hname.cstr_eq, cstr_word hname.1]
      rcases hm.fsRmdir hname hrm with ⟨hno, hm'⟩ | ⟨hyes, p, others', hm'⟩
      · refine .inl ⟨?_, hmatch hlen hm'⟩
        rintro ⟨_, _, heq, hl⟩
        cases heq
        exact hno (hleak.mpr hl)
      · have hlen' : (p :: ptrs).length ≤ j + 1 := Nat.succ_le_succ hlen
        exact .inr ⟨⟨w, ws, rfl, hleak.mp hyes⟩, hmatch hlen' hm'⟩

/-! ## The current directory -/

/-- **`cd`** -/
theorem cd (h : Stores j s d.files d.cwd) (hargs : List.Forall₂ Holds argv ws) :
    Matches j cmdCd (arg :: argv) s d (d.cd ws) := by
  obtain ⟨ptrs, others, hlen, hm⟩ := h.modest
  obtain ⟨name, hname, htarget⟩ : ∃ name, Holds name (ws.headD [0x2F]) ∧
      (arg :: argv).getD 1 (literal "/") = name := by
    cases hargs with
    | nil => exact ⟨literal "/", ⟨by decide, [], rfl⟩, rfl⟩
    | @cons name w argv ws hname _ => exact ⟨name, hname, rfl⟩
  generalize hw : ws.headD [0x2F] = w at hname
  have hlegal : ∀ buf, some name = some buf → ∃ n, Holds buf n := fun buf hbuf ↦ by
    cases hbuf
    exact ⟨w, hname⟩
  obtain ⟨code, s', hch, hI, ⟨dir, rfl, hdir⟩, _, hcode⟩ := fsChdir_spec hm.inv hlegal
  obtain ⟨m', hexec, _⟩ := h.refines.chdir hm.inv hlegal hch
  have hword : (d.files.exec (.chdir (some (w ++ [0])))).1.code = code := by
    have hsame : d.files.exec (.chdir (some (w ++ [0]))) = d.files.exec (.chdir (some name)) := by
      rw [Directory.exec, Directory.exec, cstr_word hname.1, hname.cstr_eq]
    rw [hsame, hexec]
    rfl
  rw [Option.elim_some, hname.cstr_eq] at hdir hcode
  refine ⟨d.files, chdirDir s w, cdText w code, cdCalls name code, { s with currentDir := dir },
    ?_, ?_, prints_cdCalls hname code, ⟨ptrs, others, hlen, hm.of_heap hI rfl⟩,
    ⟨h.refines.found, h.refines.missing⟩, h.tidy, hdir⟩
  · rw [Desk.cd, hw, hword, chdirDir, ← hcode, h.cwd.cstr_eq]
  · simp only [cmdCd, htarget, hch, Option.bind_eq_bind, Option.bind_some]
    rfl

/-- **`pwd`** -/
theorem pwd (h : Stores j s d.files d.cwd) :
    Matches j cmdPwd argv s d (d.say (d.cwd ++ [0x0A])) := by
  have hprints := (Prints.nil.literal "\n").print h.cwd
  exact h.say rfl hprints

/-! ## Contents -/

/-- A change of the heap only. -/
theorem sameFiles {k' : Nat} (h : Stores j s files cwd) (hsame : SameFiles s s')
    (hm : ∃ ptrs others, ptrs.length ≤ k' ∧ Modest blockMax ptrs s' others) :
    Stores k' s' files cwd := by
  refine ⟨hm, refines_of_sameFiles h.refines hsame, h.tidy, ?_⟩
  rw [hsame.sys]
  exact h.cwd

/-- **`cat`** -/
theorem cat (h : Stores j s d.files d.cwd) (hfit : Affords blockMax j)
    (hargs : List.Forall₂ Holds argv ws) (junk : Mem) :
    Matches j (cmdCat junk) (arg :: argv) s d (d.cat ws) := by
  cases hargs with
  | nil => exact h.usage "Usage: cat <filename>\n" rfl
  | @cons name w argv ws hname _ =>
      obtain ⟨ptrs, others, hlen, hm⟩ := h.modest
      cases hslot : slotOf s w with
      | none =>
          have hopen : fsOpen s name = some none :=
            (hm.inv.table.fsFind_eq hname).trans (by rw [hslot])
          have hcat : d.cat (w :: ws) = d.say (messageText "Error: File '" w "' not found\n") := by
            rw [Desk.cat, h.refines.find_none hslot]
          rw [hcat]
          refine h.say ?_ (prints_message 12 "Error: File '" "' not found\n" hname)
          simp only [cmdCat, hopen, Option.bind_eq_bind, Option.bind_some, if_true]
          rfl
      | some i =>
          obtain ⟨n, e, rfl, hfind, _, hc⟩ := h.refines.find_some hm.inv.table hslot
          have hlookup := lookup_of_find hfind
          obtain ⟨calls, s', others', hrun, hprints, hm', hsame⟩ := cmdCat_modest hm
            (hfit.mono hlen) hname hslot hc (h.tidy.noNul hlookup) (h.tidy.short n e hlookup)
            junk arg argv
          refine ⟨d.files, d.cwd, catText e.data, calls, s', ?_, hrun, hprints,
            h.sameFiles hsame ⟨ptrs, others', hlen, hm'⟩⟩
          rw [Desk.cat, hfind]
          rfl

end Stores

/-! ## What the machine says of itself -/

/-- The readings are those of the machine. -/
structure Reads (x : Surroundings) (s : Sys) (r : Readings files) : Prop where
  /-- the names are in the order of the table -/
  order : r.order.map Name.chars = (usedSlots s).map (nameOf s)
  /-- the used bytes are those of the used blocks -/
  used : ∃ bs, Rep s.heap bs ∧ r.used = extent true bs
  /-- the time is that of the timer -/
  uptime : timerGetUptime x.timer = some r.uptime
  /-- a hundred ticks are a second -/
  uptime_lt : r.uptime < 2 ^ 31
  /-- the controller accepts a command if a read says so -/
  ready : r.ready = (pollStatus x.status).2

namespace Stores

/-- The machine can be read. -/
theorem exists_readings (h : Stores j s files cwd) (x : Surroundings) :
    ∃ r : Readings files, Reads x s r := by
  obtain ⟨ptrs, others, _, hm⟩ := h.modest
  have hT : TableOk s := hm.inv.table
  obtain ⟨live, bs, hs, _⟩ := hm.inv.heap
  have hrep : Rep s.heap bs := hs.owned.rep
  have hused : extent true bs ≤ heapSize := by
    have htotal := (statistics_eq hrep).2.2.2
    omega
  have huptime : x.timer.timerTicks / 100 < 2 ^ 31 := by
    have hticks := x.ticks_lt
    omega
  let order : List Name :=
    (usedSlots s).attach.map fun i ↦ hT.nameAt (mem_usedSlots.mp i.2)
  have horder : order.map Name.chars = (usedSlots s).map (nameOf s) := by
    rw [List.map_map]
    exact List.attach_map_val (l := usedSlots s) (f := nameOf s)
  have hnodup : order.Nodup := by
    refine List.Nodup.of_map Name.chars ?_
    rw [horder]
    refine List.Nodup.map_on (fun i hi k hk heq ↦ ?_) ((List.nodup_finRange _).filter _)
    exact hT.names_inj i k (mem_usedSlots.mp hi) (mem_usedSlots.mp hk) heq
  have hmem : ∀ n, n ∈ order ↔ n ∈ files.entries := by
    intro n
    have hchars : n ∈ order ↔ ∃ i ∈ usedSlots s, nameOf s i = n.chars := by
      rw [← List.mem_map, ← horder]
      exact ⟨List.mem_map_of_mem, fun hn ↦ by
        obtain ⟨k, hk, heq⟩ := List.mem_map.mp hn
        exact Name.ext heq ▸ hk⟩
    rw [hchars]
    constructor
    · rintro ⟨i, hi, hname⟩
      obtain ⟨e, he, _⟩ := h.refines.found n i
        (hT.slotOf_eq_some_iff.mpr ⟨mem_usedSlots.mp hi, hname⟩)
      exact Finmap.mem_of_lookup_eq_some he
    · intro hn
      obtain ⟨e, he⟩ := Finmap.mem_iff.mp hn
      cases hslot : slotOf s n.chars with
      | none => exact absurd (he.symm.trans (h.refines.missing n hslot)) nofun
      | some i =>
          obtain ⟨hu, hname⟩ := hT.slotOf_eq_some_iff.mp hslot
          exact ⟨i, mem_usedSlots.mpr hu, hname⟩
  refine ⟨⟨order, hnodup, hmem, extent true bs, hused, x.timer.timerTicks / 100,
    Nat.lt_of_lt_of_le huptime (by decide), (pollStatus x.status).2⟩, horder, ⟨bs, hrep, rfl⟩, ?_,
    huptime, rfl⟩
  rw [timerGetUptime, x.frequency_eq]
  rfl

variable {x : Surroundings} {r : Readings d.files}

/-- **`info`** -/
theorem info (h : Stores j s d.files d.cwd) (hr : Reads x s r) :
    Matches j (cmdInfo x.timer) argv s d (d.say (infoText r.used r.uptime)) := by
  obtain ⟨bs, hrep, hused⟩ := hr.used
  obtain ⟨calls, hcmd, hprints⟩ := cmdInfo_prints hrep hr.uptime hr.uptime_lt argv
  rw [← hused] at hprints
  exact h.say hcmd hprints

/-- **`uptime`** -/
theorem uptime (h : Stores j s d.files d.cwd) (hr : Reads x s r) :
    Matches j (cmdUptime x.timer) argv s d (d.say (uptimeText r.uptime)) := by
  have hcmd : cmdUptime x.timer argv s = some (uptimeCalls r.uptime, s) := by
    rw [cmdUptime, hr.uptime]
    rfl
  exact h.say hcmd (prints_uptimeCalls r.uptime_lt)

/-- **`memory`** -/
theorem memory (h : Stores j s d.files d.cwd) (hr : Reads x s r) :
    Matches j cmdMemory argv s d (d.say (memoryText r.used)) := by
  obtain ⟨bs, hrep, hused⟩ := hr.used
  obtain ⟨calls, hcmd, hprints⟩ := cmdMemory_prints hrep argv
  rw [← hused] at hprints
  exact h.say hcmd hprints

/-- **`color`** -/
theorem color (h : Stores j s d.files d.cwd) (hargs : List.Forall₂ Holds argv ws) :
    Matches j (fun argv s ↦ (cmdColor argv[1]?).map (·, s)) (arg :: argv) s d
      (d.say (colorText ws)) := by
  cases hargs with
  | nil =>
      have hprints := ((((Prints.nil.literal
        "        13=LightMagenta, 14=Yellow, 15=White\n").literal
        "        10=LightGreen, 11=LightCyan, 12=LightRed\n").literal
        "        6=Brown, 7=LightGrey, 8=DarkGrey, 9=LightBlue\n").literal
        "Colors: 0=Black, 1=Blue, 2=Green, 3=Cyan, 4=Red, 5=Magenta\n").literal
        "Usage: color <0-15>\n"
      rw [List.append_nil] at hprints
      exact h.say rfl hprints
  | @cons name w argv ws hname _ =>
      have hcolor := cmdColor_eq hname
      have hcmd : (fun argv s ↦ (cmdColor argv[1]?).map (·, s)) (arg :: name :: argv) s =
          (cmdColor (some name)).map (·, s) := rfl
      rw [hcolor, Option.map_some] at hcmd
      rw [colorText]
      split at hcmd
      next hle =>
        rw [if_pos hle]
        have hprints := (Prints.nil.literal "Text color changed!\n").color
          (UInt8.ofNat (digitsValue (w.takeWhile isDigit) % 2 ^ 32)) 0
        rw [List.append_nil] at hprints
        exact h.say hcmd hprints
      next hgt =>
        rw [if_neg hgt]
        have hprints := Prints.nil.literal "Invalid color. Use 0-15.\n"
        rw [List.append_nil] at hprints
        exact h.say hcmd hprints

/-- **`ls`** -/
theorem ls (h : Stores j s d.files d.cwd) (hr : Reads x s r) :
    Matches j (fun _ s ↦ (cmdLs s x.buffer).map (·, s)) argv s d
      (d.say (listing d.files r.order)) := by
  obtain ⟨ptrs, others, _, hm⟩ := h.modest
  have hT : TableOk s := hm.inv.table
  have hname : ∀ i ∈ usedSlots s, ∃ n e, n.chars = nameOf s i ∧
      d.files.find (nameOf s i) = some (n, e) ∧ s.contents i = some e.data := by
    intro i hi
    obtain ⟨n, e, hn, hfind, _, hc⟩ := h.refines.find_some hT
      (hT.slotOf_eq_some_iff.mpr ⟨mem_usedSlots.mp hi, rfl⟩)
    exact ⟨n, e, hn, hfind, hc⟩
  have hnl : ∀ i ∈ usedSlots s, 0x0A ∉ nameOf s i := by
    intro i hi
    have hmem : nameOf s i ∈ r.order.map Name.chars := by
      rw [hr.order]
      exact List.mem_map_of_mem hi
    obtain ⟨n, hn, heq⟩ := List.mem_map.mp hmem
    rw [← heq]
    exact h.tidy.name n ((r.mem_iff n).mp hn)
  obtain ⟨slots, calls, hsub, hfit, hls, hprinted, hcalls⟩ := cmdLs_eq hT hnl x.length_buffer
  have hline : ∀ i ∈ slots, lsLine s i = listingLine d.files (nameOf s i) := by
    intro i hi
    obtain ⟨n, e, _, hfind, hc⟩ := hname i (hsub.subset hi)
    rw [lsLine, listingLine, hfind]
    change _ = _ ++ decimal e.data.length ++ _ ++ _
    rw [length_of_contents hc]
    rfl
  have hlen : r.order.length = (usedSlots s).length := by
    have hlength := congrArg List.length hr.order
    rwa [List.length_map, List.length_map] at hlength
  have hempty : usedSlots s = [] ↔ r.order = [] := by
    rw [← List.length_eq_zero_iff, ← hlen, List.length_eq_zero_iff]
  have htext : lsTextOf s slots = listing d.files r.order := by
    have hlines : slots.flatMap (lsLine s) =
        (fitLines lsBufferSize 0 (r.order.map Name.chars)).flatMap (listingLine d.files) := by
      rw [hr.order, hfit, List.flatMap_map]
      exact List.flatMap_congr hline
    rw [lsTextOf, listing, hlines, hlen]
    by_cases hnone : r.order = []
    · rw [if_pos hnone, if_pos (hempty.mpr hnone)]
      rfl
    · rw [if_neg hnone, if_neg fun h ↦ hnone (hempty.mp h)]
      rfl
  have hprints : Prints calls (listing d.files r.order) := ⟨hcalls, hprinted.trans htext⟩
  refine h.say ?_ hprints
  rw [hls]
  rfl

end Stores

end KontolOS.Shell
