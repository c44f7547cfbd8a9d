import KontolOS.Shell.DeskScript

/-!
# What holds of every session

From `shell_run` on, whatever is typed and whatever the machine finds, the shell does what the
abstract shell does: it shows the same, and what it works on are the same files
(`session_refines`).  It does not get stuck (`session_progress`), its memory does not run out
(`session_memory`), and it leaves nothing behind (`session_ownsHeap`).
-/

namespace KontolOS.Shell

open KontolOS.Lib KontolOS.Memory KontolOS.Strings KontolOS.Drivers KontolOS.Fs Function

variable {b₀ : Nat → UInt16} {k : Nat} {s s' : Session Kontol} {turns : List Turn}

/-! ## A session -/

/-- The file `a` has been written. -/
def fileA : Directory :=
  save [0x61] (typed (opened []) 0x68) (Directory.empty.new false (some [0x61, 0])).2

/-- The file `b` has been created and removed. -/
def filesA : Directory := ((fileA.new false (some [0x62, 0])).2.exec (.delete [0x62, 0])).2

/-- The lines that are typed for that. -/
def writing : List (List UInt8) := [chars "nano a\n", chars "touch b\n", chars "rm b\n"]

/-- **A file is written with `nano`, and another one is created and removed**, with any keys yet to
come. -/
theorem exists_written (rest : List UInt8) :
    ∃ s s' turns, Starts (fun _ ↦ 0) s ∧ turns.map Turn.typed = writing ∧
      Tally KontolTurn Wastes 0 s turns s' ∧
      Stands (fun _ ↦ 0) 0 s' ⟨filesA, [0x2F], rest, .running⟩ := by
  have hfit : Affords blockMax (0 + nanoMaxLines + 2) := affords_leakMax.mono (by decide)
  obtain ⟨s, h, hkeys, _⟩ := exists_starts (chars "nano a" ++ 0x0A :: ([0x68] ++ 19 :: 24 ::
    (chars "touch b" ++ 0x0A :: (chars "rm b" ++ 0x0A :: rest))))
  obtain ⟨s₁, _, args, hturn₁, hfree₁, _, hs₁⟩ :=
    h.stands.enters_word (n := [0x61]) (i := 15) (chars "nano") rfl hfit hkeys
      (by decide) (by decide) (by decide) (by decide) (by decide)
  rw [Desk.command, Desk.nano_left [] fileA rfl rfl rfl] at hs₁
  obtain ⟨s₂, _, _, hturn₂, hfree₂, _, hs₂⟩ :=
    hs₁.enters_word (n := [0x62]) (i := 13) (chars "touch") rfl hfit hs₁.keys
      (by decide) (by decide) (by decide) (by decide) (by decide)
  obtain ⟨s₃, _, _, hturn₃, hfree₃, _, hs₃⟩ :=
    hs₂.enters_word (n := [0x62]) (i := 14) (chars "rm") rfl hfit hs₂.keys
      (by decide) (by decide) (by decide) (by decide) (by decide)
  exact ⟨s, s₃, _, h, rfl,
    .free hturn₁ hfree₁ (.free hturn₂ hfree₂ (.free hturn₃ hfree₃ (.nil s₃))), hs₃⟩

/-! ## What the shell does -/

/-- **The shell refines the abstract shell**: every run of `shell_run` from the start is one of the
abstract shell with the same turns, which shows what is seen on the screen; and at its end the
files of the abstract shell are those of the filesystem, be it at the prompt, in the editor, or
halted. -/
theorem session_refines (h : Starts b₀ s) (hr : Tally KontolTurn Wastes k s turns s')
    (hk : k ≤ leakMax) :
    ∃ shown d', shown.map Prod.fst = turns ∧ Run DeskTurn (.start s.keys) shown d' ∧
      Run (fun s a s' ↦ Shown s.vga a.2 s'.vga) s shown s' ∧ Stands b₀ k s' d' := by
  have hrun := h.stands.run hr (by rwa [Nat.zero_add])
  rwa [Nat.zero_add] at hrun

/-- At last the file is opened again: `i` is typed and saved, and `j` is typed. -/
theorem session_refines_written : ∃ (s s' : Session Kontol) (turns : List Turn)
    (shown : List (Turn × Display)) (d' : Desk),
    turns.map Turn.typed = writing ++ [chars "nano a\n"] ∧
      Tally KontolTurn Wastes 0 s turns s' ∧ s'.rest.phase = .waiting ∧
      Contains s'.rest.sys [0x61] (chars "ih\n") ∧
      Images ⟨1 * vgaWidth + 2, editorCell [0x61] ⟨[], chars "ij", chars "h", []⟩ true⟩ s'.vga ∧
      shown.map Prod.fst = turns ∧ Run DeskTurn (.start s.keys) shown d' ∧
      Run (fun s a s' ↦ Shown s.vga a.2 s'.vga) s shown s' ∧ Stands (fun _ ↦ 0) 0 s' d' := by
  have hfit : Affords blockMax (0 + nanoMaxLines + 2) := affords_leakMax.mono (by decide)
  obtain ⟨s, s₃, turns, h, hturns, hr, hs₃⟩ :=
    exists_written (chars "nano a" ++ 0x0A :: [0x69, 19, 0x6A])
  obtain ⟨s₄, _, args, hturn₄, hfree₄, hshown₄, hs₄⟩ :=
    hs₃.enters_word (n := [0x61]) (i := 15) (chars "nano") rfl hfit hs₃.keys
      (by decide) (by decide) (by decide) (by decide) (by decide)
  have hold : ((filesA.find [0x61]).elim [] fun e ↦ e.2.data) = chars "h\n" := by decide
  have hnew : (filesA.new false (some [0x61, 0])).2 = filesA := rfl
  have hedit : edit [0x61] [0x69, 19, 0x6A] (opened (chars "h\n")) false filesA =
      .waiting (save [0x61] (typed (opened (chars "h\n")) 0x69) filesA)
        ⟨[], chars "ij", chars "h", []⟩ true := rfl
  rw [Desk.command, Desk.nano_waiting hnew hold hedit] at hs₄ hshown₄
  obtain ⟨_, hS, _⟩ := hs₄.stores
  have hcontains := hS.contains [0x61]
  have hsaved : (((save [0x61] (typed (opened (chars "h\n")) 0x69) filesA).find [0x61]).elim []
      fun e ↦ e.2.data) = chars "ih\n" := by decide
  rw [hsaved] at hcontains
  have hrun := hr.append (.free hturn₄ hfree₄ (.nil s₄))
  obtain ⟨shown, d', hfst, hdesk, hseen, hs'⟩ := session_refines h hrun (Nat.zero_le _)
  refine ⟨s, s₄, _, shown, d', ?_, hrun, hs₄.phase, hcontains, hshown₄, hfst, hdesk, hseen, hs'⟩
  rw [List.map_append, hturns]
  rfl

/-- **The shell does not get stuck**: at the prompt it reads a line, and when it has read one, it
executes it, whatever the machine finds then. -/
theorem session_progress (h : Starts b₀ s) (hr : Tally KontolTurn Wastes k s turns s')
    (hk : k ≤ leakMax) (hphase : s'.rest.phase = .running) :
    ∃ v y, printPrompt s'.vga = some v ∧
      keyboardReadline s'.commandBuffer shellBufferSize v s'.keys = some y ∧
      ∀ r rest, y = .returned r rest → ∀ x, ∃ s'', executeCommand (commandTable x)
        { s' with vga := r.vga, commandBuffer := r.buffer, keys := rest } = some s'' := by
  obtain ⟨_, d, _, _, _, hs⟩ := h.stands.run hr (by rwa [Nat.zero_add])
  rw [Nat.zero_add] at hs
  obtain ⟨v, hprompt, hv, _⟩ := hs.prompt
  obtain ⟨y, hread, hreturned⟩ :=
    hv.keyboardReadline (by decide) (by decide) (Nat.le_of_eq hs.buffer.symm) s'.keys
  refine ⟨v, y, hprompt, hread, ?_⟩
  rintro r rest rfl x
  obtain ⟨_, _, taken, hkeys, _⟩ := hreturned r rest rfl
  obtain ⟨s'', _, _, hexec, _⟩ := hs.act (hs.phase.symm.trans hphase)
    (affords_leakMax.mono (by omega)) x hprompt hread hkeys.symm
  exact ⟨s'', hexec⟩

/-- The next line is `cat a`. -/
theorem session_progress_written : ∃ (s s' : Session Kontol) (turns : List Turn) (v : Vga)
    (r : Readline) (rest : List UInt8),
    turns.map Turn.typed = writing ∧ Tally KontolTurn Wastes 0 s turns s' ∧
      s'.rest.phase = .running ∧ s'.keys = chars "cat a\n" ∧ printPrompt s'.vga = some v ∧
      keyboardReadline s'.commandBuffer shellBufferSize v s'.keys = some (.returned r rest) ∧
      ∀ x, ∃ s'', executeCommand (commandTable x)
        { s' with vga := r.vga, commandBuffer := r.buffer, keys := rest } = some s'' := by
  obtain ⟨s, s', turns, h, hturns, hr, hs'⟩ := exists_written (chars "cat a" ++ 0x0A :: [])
  obtain ⟨_, v', r, rest, hprompt', hread', _⟩ :=
    hs'.enter rfl (affords_leakMax.mono (by decide)) quiet hs'.keys (by decide) (by decide)
  obtain ⟨v, y, hprompt, hread, hexec⟩ := session_progress h hr (Nat.zero_le _) hs'.phase
  obtain rfl : v' = v := Option.some.inj (hprompt'.symm.trans hprompt)
  obtain rfl : .returned r rest = y := Option.some.inj (hread'.symm.trans hread)
  exact ⟨s, s', turns, v', r, rest, hturns, hr, hs'.phase, hs'.keys, hprompt, hread,
    hexec r rest rfl⟩

/-! ## What it leaves of the memory -/

/-- **The memory does not run out**: whatever the commands have allocated and freed, at the prompt a
block of 8001 bytes can be allocated, as large as the largest that a command asks for. -/
theorem session_memory (h : Starts b₀ s) (hr : Tally KontolTurn Wastes k s turns s')
    (hk : k ≤ leakMax) (hphase : s'.rest.phase = .running) {size : Nat} (hpos : 0 < size)
    (hle : size ≤ textMax + 1) :
    ∃ ptr heap, kmalloc s'.rest.sys.heap size = some (ptr, heap) ∧ ptr ≠ null := by
  obtain ⟨_, d, _, _, _, hs⟩ := h.stands.run hr (by rwa [Nat.zero_add])
  obtain ⟨ptrs, others, hlen, hm⟩ := (hs.atPrompt (hs.phase.symm.trans hphase)).modest
  obtain ⟨ptr, heap, hk, hptr, _⟩ := hm.kmalloc (affords_leakMax.mono (by omega)) hpos
    (Nat.add_le_add_right hle overhead)
  exact ⟨ptr, heap, hk, hptr⟩

theorem session_memory_written : ∃ (s s' : Session Kontol) (turns : List Turn) (ptr : Nat)
    (heap : Heap),
    turns.map Turn.typed = writing ∧ Tally KontolTurn Wastes 0 s turns s' ∧
      Contains s'.rest.sys [0x61] (chars "h\n") ∧
      kmalloc s'.rest.sys.heap 8001 = some (ptr, heap) ∧ ptr ≠ null := by
  obtain ⟨s, s', turns, h, hturns, hr, hs'⟩ := exists_written []
  obtain ⟨ptr, heap, hk, hptr⟩ :=
    session_memory h hr (Nat.zero_le _) hs'.phase (show 0 < 8001 by decide) (by decide)
  have hcontains := (hs'.atPrompt rfl).contains [0x61]
  exact ⟨s, s', turns, ptr, heap, hturns, hr, hcontains, hk, hptr⟩

/-- **Nothing is left behind**: if no directory has contents when it is removed, the used blocks of
the heap are at every prompt the contents of the files, and nothing else. -/
theorem session_ownsHeap (h : Starts b₀ s) (hr : Tally KontolTurn Wastes 0 s turns s')
    (hphase : s'.rest.phase = .running) : OwnsHeap s'.rest.sys := by
  obtain ⟨_, d, _, _, _, hs⟩ := h.stands.run hr (Nat.zero_le _)
  obtain ⟨ptrs, others, hlen, hm⟩ := (hs.atPrompt (hs.phase.symm.trans hphase)).modest
  obtain rfl := List.length_eq_zero_iff.mp (Nat.le_zero.mp hlen)
  have hnone : others = fun _ ↦ none := by
    funext p
    exact Option.not_isSome_iff_eq_none.mp fun hp ↦ absurd ((hm.held p).mp hp) List.not_mem_nil
  have hI := hm.inv
  rw [hnone] at hI
  exact hI.ownsHeap

theorem session_ownsHeap_written : ∃ (s s' : Session Kontol) (turns : List Turn),
    turns.map Turn.typed = writing ∧ Tally KontolTurn Wastes 0 s turns s' ∧
      Contains s'.rest.sys [0x61] (chars "h\n") ∧ OwnsHeap s'.rest.sys := by
  obtain ⟨s, s', turns, h, hturns, hr, hs'⟩ := exists_written []
  have hcontains := (hs'.atPrompt rfl).contains [0x61]
  exact ⟨s, s', turns, hturns, hr, hcontains, session_ownsHeap h hr hs'.phase⟩

end KontolOS.Shell
