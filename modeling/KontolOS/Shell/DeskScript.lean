import KontolOS.Shell.DeskRun

/-!
# What is typed is what is printed

A file that is written with `nano` and printed with `cat`, over two turns of the shell: what `cat`
shows is what the keys have made of the text, whatever was in the file before, and whatever the
shell has done until then (`nano_cat`).
-/

namespace KontolOS.Shell

open KontolOS.Lib KontolOS.Memory KontolOS.Strings KontolOS.Drivers KontolOS.Fs

variable {b₀ : Nat → UInt16} {j k : Nat} {s s₁ s₂ : Session Kontol} {d : Desk} {turns : List Turn}
  {n keys rest text : List UInt8} {files : Directory} {nm : Name} {entry : Entry} {t : Text UInt8}
  {c : UInt8}

/-! ## The text -/

theorem fits_typed (h : t.Fits nanoWidth nanoMaxLines) (hj : t.Joinable nanoWidth) :
    (typed t c).Fits nanoWidth nanoMaxLines := by
  rw [typed]
  cases keyEdit c with
  | none => exact h
  | some e => exact h.edit hj

/-- Whatever is typed, the text stays in its limits. -/
theorem fits_foldl_typed (h : t.Fits nanoWidth nanoMaxLines) (hj : t.Joinable nanoWidth)
    (keys : List UInt8) : (keys.foldl typed t).Fits nanoWidth nanoMaxLines := by
  induction keys generalizing t with
  | nil => exact h
  | cons c keys ih => exact ih (fits_typed h hj) (joinable_typed hj h)

/-- A file is cut to the limits when it is opened. -/
theorem fits_opened (text : List UInt8) :
    (opened text).Fits nanoWidth nanoMaxLines ∧ (opened text).Joinable nanoWidth := by
  cases hlines : fileLines text with
  | nil => exact absurd hlines (fileLines_ne_nil text)
  | cons l rest =>
      have hle := length_fileLines_le text
      have hwidth : ∀ l' ∈ l :: rest, l'.length ≤ nanoWidth := by
        intro l' hl
        rw [← hlines] at hl
        exact (mem_fileLines hl).1
      rw [hlines, List.length_cons] at hle
      rw [opened_eq hlines]
      refine ⟨Text.fits_iff.mpr ⟨?_, nofun, ?_, fun l' hl ↦ hwidth l' (List.mem_cons_of_mem _ hl)⟩,
        Text.joinable_start l rest⟩
      · change 0 + 1 + rest.length ≤ nanoMaxLines
        omega
      · change 0 + l.length ≤ nanoWidth
        have hl := hwidth l List.mem_cons_self
        omega

/-! ## The file -/

theorem mem_put {m : Directory} {n k : Name} {e : Entry} (hk : k ∈ m.entries) :
    k ∈ (m.put n e).entries := by
  by_cases hroom : n ∈ m.entries ∨ m.entries.keys.card < fsMaxFiles
  · rw [← Finmap.lookup_isSome, Directory.lookup_put hroom]
    split
    · rfl
    · exact Finmap.lookup_isSome.mpr hk
  · rwa [Directory.put, dif_neg hroom]

/-- A file that is there is found under its name. -/
theorem find_of_mem {m : Directory} (hk : nm ∈ m.entries) :
    ∃ entry, m.find nm.chars = some (nm, entry) := by
  obtain ⟨entry, hentry⟩ := Finmap.mem_iff.mp hk
  exact ⟨entry, by rw [Directory.find_chars, hentry, Option.map_some]⟩

/-- Saving creates and removes nothing. -/
theorem mem_save (hmax : (unlines t.lines).length ≤ fsMaxFilesize) (hmem : nm ∈ files.entries) :
    nm ∈ (save nm.chars t files).entries := by
  obtain ⟨entry, hfind⟩ := find_of_mem hmem
  rw [save_eq nm.noNul hfind hmax]
  exact mem_put hmem

/-- What is saved is found. -/
theorem find_save (hmax : (unlines t.lines).length ≤ fsMaxFilesize) (hmem : nm ∈ files.entries) :
    ∃ entry, (save nm.chars t files).find nm.chars = some (nm, entry) ∧
      entry.data = unlines t.lines := by
  obtain ⟨entry, hfind⟩ := find_of_mem hmem
  rw [save_eq nm.noNul hfind hmax, Directory.find_chars, Directory.lookup_put (.inl hmem),
    if_pos rfl, Option.map_some]
  exact ⟨_, rfl, rfl⟩

theorem length_unlines_fits (h : t.Fits nanoWidth nanoMaxLines) :
    (unlines t.lines).length ≤ fsMaxFilesize :=
  Nat.le_trans (length_unlines_le h.height_le fun l hl ↦ lt_lineLen (h.width_le l hl)) (by decide)

/-- **The keys before Ctrl+S and Ctrl+X** change the text, and may save it on the way. -/
theorem edit_typed (hexit : 24 ∉ keys) (hfits : t.Fits nanoWidth nanoMaxLines)
    (hj : t.Joinable nanoWidth) (hmem : nm ∈ files.entries) (m : Bool) (rest : List UInt8) :
    ∃ files', edit nm.chars (keys ++ 19 :: 24 :: rest) t m files =
        .left (save nm.chars (keys.foldl typed t) files') rest ∧ nm ∈ files'.entries := by
  induction keys generalizing t m files with
  | nil =>
      refine ⟨files, ?_, hmem⟩
      simp only [List.nil_append, edit, List.foldl_nil]
      rfl
  | cons c keys ih =>
      have hc : c ≠ 24 := fun heq ↦ hexit (heq ▸ List.mem_cons_self)
      have hrest : 24 ∉ keys := fun hmem ↦ hexit (List.mem_cons_of_mem c hmem)
      rw [List.cons_append, edit, if_neg hc, List.foldl_cons]
      by_cases hsave : c = 19
      · subst hsave
        rw [if_pos rfl]
        exact ih hrest hfits hj (mem_save (length_unlines_fits hfits) hmem) _
      · rw [if_neg hsave]
        exact ih hrest (fits_typed hfits hj) (joinable_typed hj hfits) hmem _

/-- `nano` finds a file or creates it, and what it opens are the contents that there were. -/
theorem new_opens (hroom : nm ∈ files.entries ∨ files.entries.keys.card < fsMaxFiles) :
    nm ∈ (files.new false (some (nm.chars ++ [0]))).2.entries ∧
      (((files.new false (some (nm.chars ++ [0]))).2.find nm.chars).elim [] fun e ↦ e.2.data) =
        (files.find nm.chars).elim [] fun e ↦ e.2.data := by
  rw [Directory.new, cstr_word nm.noNul, Directory.ofString_eq_some_iff.mpr rfl]
  by_cases hmem : nm ∈ files.entries
  · simp only [if_pos hmem]
    exact ⟨hmem, trivial⟩
  · simp only [if_neg hmem, if_pos (hroom.resolve_left hmem)]
    have hput := Directory.lookup_put (m := files) (k := nm) (e := .empty false) hroom
    rw [if_pos rfl] at hput
    rw [Directory.find_chars, Directory.find_chars, hput, Finmap.lookup_eq_none.mpr hmem]
    exact ⟨Finmap.mem_of_lookup_eq_some hput, rfl⟩

/-! ## Two commands -/

/-- A line with a command and an argument -/
theorem Desk.execute_word {r : Readings d.files} {name : List UInt8} {i : Nat}
    (hline : (words isBlank text).take 2 = [name, n])
    (hidx : (commands.findIdx? fun command ↦ cstr command = name) = some i) :
    ∃ args, d.execute r text = d.command r (n :: args) i := by
  have htake : [name, n] ++ (words isBlank text).drop 2 = words isBlank text := by
    rw [← hline, List.take_append_drop]
  refine ⟨((words isBlank text).drop 2).take 14, ?_⟩
  rw [Desk.execute, ← htake]
  simp only [List.cons_append, List.nil_append, maxArgs, List.take_succ_cons, hidx]
  rfl

/-- **A line with a command and an argument** does what the command does in the abstract shell. -/
theorem Stands.enters_word {line : List UInt8} {i : Nat} (h : Stands b₀ j s d)
    (name : List UInt8) (hphase : d.phase = .running)
    (hfit : Affords blockMax (j + nanoMaxLines + 2))
    (hkeys : s.keys = line ++ 0x0A :: rest) (hnl : 0x0A ∉ line) (hlen : line.length < 255)
    (hline : (words isBlank (cstr (typeChars [] line))).take 2 = [name, n])
    (hidx : (commands.findIdx? fun command ↦ cstr command = name) = some i)
    (hrm : name ≠ chars "rmdir") :
    ∃ (s' : Session Kontol) (r : Readings d.files) (args : List (List UInt8)),
      KontolTurn s ⟨s.keys, line ++ [0x0A]⟩ s' ∧ ¬ Wastes s ⟨s.keys, line ++ [0x0A]⟩ ∧
      Shown s.vga ((Desk.command { d with keys := rest } r (n :: args) i).2.after
        (Turn.echo ⟨s.keys, line ++ [0x0A]⟩)) s'.vga ∧
      Stands b₀ j s' (Desk.command { d with keys := rest } r (n :: args) i).1 := by
  have hhead : (words isBlank (cstr (typeChars [] line))).head? = some name := by
    have htake := congrArg List.head? hline
    rwa [List.head?_take, if_neg (by decide)] at htake
  obtain ⟨s', r, _, _, hshell, hfree, hexec, hshown, hs'⟩ :=
    h.enters hphase hfit quiet hkeys hnl hlen fun heq ↦ hrm (Option.some.inj (hhead.symm.trans heq))
  obtain ⟨args, hcommand⟩ :=
    Desk.execute_word (d := { d with keys := rest }) (r := r) hline hidx
  rw [hcommand] at hexec
  rw [Prod.eq_iff_fst_eq_snd_eq] at hexec
  obtain ⟨rfl, rfl⟩ := hexec
  exact ⟨s', r, args, ⟨h.phase.trans hphase, quiet, hshell⟩, hfree, hshown, hs'⟩

/-- The editor is left. -/
theorem Desk.nano_left {keys' : List UInt8} (old : List UInt8) (files' : Directory)
    (hnew : (d.files.new false (some (n ++ [0]))).2 = files)
    (hcontents : ((files.find n).elim [] fun e ↦ e.2.data) = old)
    (hedit : edit n d.keys (opened old) false files = .left files' keys')
    (args : List (List UInt8)) :
    d.nano (n :: args) = ({ d with files := files', keys := keys' }, .blank) := by
  rw [Desk.nano, hnew, hcontents, hedit]

/-- The editor waits. -/
theorem Desk.nano_waiting {old : List UInt8} {files' : Directory} {m : Bool}
    (hnew : (d.files.new false (some (n ++ [0]))).2 = files)
    (hcontents : ((files.find n).elim [] fun e ↦ e.2.data) = old)
    (hedit : edit n d.keys (opened old) false files = .waiting files' t m)
    (args : List (List UInt8)) :
    d.nano (n :: args) =
      ({ d with files := files', keys := [], phase := .waiting }, .editor n t m) := by
  rw [Desk.nano, hnew, hcontents, hedit]

/-- A word of a line can be a name. -/
theorem Turn.exists_name {turn : Turn} {name : List UInt8}
    (hline : (words isBlank turn.line).take 2 = [name, n]) (hlen : n.length < fsMaxFilename) :
    ∃ nm : Name, nm.chars = n := by
  have hmem : n ∈ words isBlank turn.line := by
    refine List.take_subset 2 _ ?_
    rw [hline]
    exact List.mem_cons_of_mem _ List.mem_cons_self
  refine ⟨⟨n, ne_nil_of_mem_words hmem, hlen, fun hzero ↦ ?_⟩, rfl⟩
  exact absurd (mem_of_mem_words hmem hzero) (holds_cstr (typeChars [] _) []).1

/-- What the file `n` contains; nothing, if there is none. -/
def Contains (sys : Sys) (n text : List UInt8) : Prop :=
  (slotOf sys n = none → text = []) ∧ ∀ i, slotOf sys n = some i → sys.contents i = some text

/-- The files contain what they do in the abstract shell. -/
theorem Stores.contains {sys : Sys} {cwd : List UInt8} (h : Stores j sys files cwd)
    (n : List UInt8) : Contains sys n ((files.find n).elim [] fun e ↦ e.2.data) := by
  obtain ⟨_, _, _, hm⟩ := h.modest
  refine ⟨fun hslot ↦ ?_, fun i hslot ↦ ?_⟩
  · rw [h.refines.find_none hslot]
    rfl
  · obtain ⟨_, e, _, hfind, _, hdata⟩ := h.refines.find_some hm.inv.table hslot
    rw [hfind, hdata]
    rfl

/-- **A line with `nano`**, some keys, Ctrl+S and Ctrl+X store what the keys make of the text. -/
theorem Stands.nano_typed {turn : Turn} {nm : Name} (hs : Stands b₀ k s d)
    (hfit : Affords blockMax (k + nanoMaxLines + 2))
    (hroom : slotOf s.rest.sys nm.chars ≠ none ∨ fsCount s.rest.sys < fsMaxFiles)
    (hnano : KontolTurn s turn s₁)
    (hline : (words isBlank turn.line).take 2 = [chars "nano", nm.chars])
    (hkeys : s.keys = turn.typed ++ (keys ++ 19 :: 24 :: rest)) (hexit : 24 ∉ keys) :
    ∃ text files d₁, Contains s.rest.sys nm.chars text ∧ Stands b₀ k s₁ d₁ ∧
      d₁.phase = .running ∧ d₁.keys = rest ∧ nm ∈ files.entries ∧
      d₁.files = save nm.chars (keys.foldl typed (opened text)) files := by
  have hphase : d.phase = .running := hs.phase.symm.trans hnano.1
  have hstores := hs.atPrompt hphase
  obtain ⟨_, _, _, hm⟩ := hstores.modest
  have hroom' : nm ∈ d.files.entries ∨ d.files.entries.keys.card < fsMaxFiles := by
    rcases hroom with hslot | hcount
    · obtain ⟨i, hslot⟩ := Option.ne_none_iff_exists'.mp hslot
      obtain ⟨e, hlookup, _⟩ := hstores.refines.found nm i hslot
      exact .inl (Finmap.mem_of_lookup_eq_some hlookup)
    · rw [← hstores.refines.card_eq hm.inv.table] at hcount
      exact .inr hcount
  obtain ⟨hmem, hopens⟩ := new_opens hroom'
  have hcontains := hstores.contains nm.chars
  generalize ((d.files.find nm.chars).elim [] fun e ↦ e.2.data) = old at hopens hcontains
  obtain ⟨_, d₁, ⟨_, _, _, left, _, htyped, ⟨_, hexec⟩, _⟩, _, hcase⟩ := hs.turn hfit hnano
  have hhead : (words isBlank turn.line).head? ≠ some (chars "rmdir") := by
    have htake := congrArg List.head? hline
    rw [List.head?_take, if_neg (by decide)] at htake
    rw [htake]
    exact fun heq ↦ absurd (Option.some.inj heq) (by decide)
  have hs₁ : Stands b₀ k s₁ d₁ :=
    (hcase.resolve_right fun hw ↦ not_wastefulLine hhead hw.1).2
  obtain rfl : left = keys ++ 19 :: 24 :: rest :=
    List.append_cancel_left (htyped.trans (hs.keys.symm.trans hkeys))
  obtain ⟨_, hcommand⟩ := Desk.execute_word hline (i := 15) (by decide)
  obtain ⟨files, hedit, hmem'⟩ :=
    edit_typed hexit (fits_opened old).1 (fits_opened old).2 hmem false rest
  rw [hcommand, Desk.command, Desk.nano_left (d := { d with keys := keys ++ 19 :: 24 :: rest })
    _ _ rfl hopens hedit] at hexec
  rw [← (Prod.mk.inj hexec).1] at hs₁
  exact ⟨old, files, _, hcontains, hs₁, hphase, rfl, hmem', rfl⟩

/-- **What is typed into `nano` is what `cat` prints.**  In any state that the shell has come to, a
line opens a file with `nano`, some keys are typed, and Ctrl+S and Ctrl+X; if the next line prints
the file with `cat`, then its text is what the keys have made of the text that there was. -/
theorem nano_cat {turn turn' : Turn} (h : Starts b₀ s) (hr : Tally KontolTurn Wastes k s turns s')
    (hk : k ≤ leakMax) (hlen : n.length < fsMaxFilename)
    (hroom : slotOf s'.rest.sys n ≠ none ∨ fsCount s'.rest.sys < fsMaxFiles)
    (hnano : KontolTurn s' turn s₁)
    (hline : (words isBlank turn.line).take 2 = [chars "nano", n])
    (hkeys : s'.keys = turn.typed ++ (keys ++ 19 :: 24 :: rest)) (hexit : 24 ∉ keys)
    (hcat : KontolTurn s₁ turn' s₂)
    (hline' : (words isBlank turn'.line).take 2 = [chars "cat", n]) :
    ∃ text, Contains s'.rest.sys n text ∧
      Emits s₁.vga (turn'.echo ++ catText (unlines (keys.foldl typed (opened text)).lines))
        s₂.vga := by
  obtain ⟨_, d, _, _, _, hs⟩ := h.stands.run hr (by rwa [Nat.zero_add])
  rw [Nat.zero_add] at hs
  have hfit : Affords blockMax (k + nanoMaxLines + 2) := affords_leakMax.mono (by omega)
  obtain ⟨nm, rfl⟩ := Turn.exists_name hline hlen
  obtain ⟨text, files, d₁, hcontains, hs₁, _, _, hmem, hfiles⟩ :=
    hs.nano_typed hfit hroom hnano hline hkeys hexit
  refine ⟨text, hcontains, ?_⟩
  obtain ⟨display, _, ⟨_, _, _, _, _, _, ⟨_, hexec⟩, hshow⟩, hshown, _⟩ := hs₁.turn hfit hcat
  change display = _ at hshow
  rw [hshow] at hshown
  obtain ⟨_, hcommand⟩ := Desk.execute_word hline' (i := 12) (by decide)
  have hfits := fits_foldl_typed (fits_opened text).1 (fits_opened text).2 keys
  obtain ⟨entry, hfind, hdata⟩ := find_save (length_unlines_fits hfits) hmem
  rw [← hfiles] at hfind
  rw [hcommand, Desk.command, Desk.cat] at hexec
  simp only [hfind, hdata] at hexec
  rw [← (Prod.mk.inj hexec).2] at hshown
  exact hshown

/-- `h` is typed into a new file. -/
theorem nano_cat_h : ∃ (s s₁ s₂ : Session Kontol) (turn turn' : Turn),
    KontolTurn s turn s₁ ∧ KontolTurn s₁ turn' s₂ ∧
      Emits s₁.vga (turn'.echo ++ catText [0x68]) s₂.vga := by
  obtain ⟨s, h, hkeys, _⟩ := exists_starts
    (chars "nano a" ++ 0x0A :: ([0x68] ++ 19 :: 24 :: (chars "cat a" ++ 0x0A :: [])))
  have hfit : Affords blockMax (0 + nanoMaxLines + 2) := affords_leakMax.mono (by decide)
  have hslot : slotOf s.rest.sys [0x61] = none := h.booted.slotOf_eq _
  have hcount : fsCount s.rest.sys < fsMaxFiles := by
    rw [fsCount, List.countP_eq_zero.mpr fun i _ ↦ Bool.eq_false_iff.mp (h.booted.unused i)]
    decide
  obtain ⟨s₁, _, _, hnano, _, _, hs₁⟩ :=
    h.stands.enters_word (n := [0x61]) (i := 15) (chars "nano") rfl hfit hkeys
      (by decide) (by decide) (by decide) (by decide) (by decide)
  rw [Desk.command, Desk.nano_left [] _ rfl rfl rfl] at hs₁
  obtain ⟨s₂, _, _, hcat, _, _, _⟩ :=
    hs₁.enters_word (n := [0x61]) (i := 12) (chars "cat") rfl hfit hs₁.keys
      (by decide) (by decide) (by decide) (by decide) (by decide)
  have hline : (words isBlank (Turn.line ⟨s.keys, chars "nano a" ++ [0x0A]⟩)).take 2 =
      [chars "nano", [0x61]] := by
    rw [Turn.line_enter (by decide)]
    decide
  have hline' : (words isBlank (Turn.line ⟨s₁.keys, chars "cat a" ++ [0x0A]⟩)).take 2 =
      [chars "cat", [0x61]] := by
    rw [Turn.line_enter (by decide)]
    decide
  have hkeys' : s.keys = (chars "nano a" ++ [0x0A]) ++
      ([0x68] ++ 19 :: 24 :: (chars "cat a" ++ 0x0A :: [])) := hkeys
  obtain ⟨text, hcontains, hemits⟩ := nano_cat h (.nil s) (by decide) (by decide) (.inr hcount)
    hnano hline hkeys' (by decide) hcat hline'
  obtain rfl := hcontains.1 hslot
  exact ⟨s, s₁, s₂, _, _, hnano, hcat, hemits⟩

end KontolOS.Shell
