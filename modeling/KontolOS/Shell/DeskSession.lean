import Mathlib.Tactic.IntervalCases
import KontolOS.Shell.DeskEditor

/-!
# The shell does what it is for

`Stands` relates the machine to the abstract shell: when it is at its prompt, but also when it
waits in the editor or has stopped.  A turn of `shell_run` is a turn of the abstract shell, and
shows what that shows, as long as the memory suffices for the editor (`Stands.turn`).  What uses it
up are directories that have contents when they are removed.
-/

namespace KontolOS.Shell

open KontolOS.Lib KontolOS.Memory KontolOS.Strings KontolOS.Drivers KontolOS.Fs Function

/-! ## Two levels -/

/-- The functions in `commands`. -/
def commandTable (x : Surroundings) : Nat → Handler Kontol
  | 0 => printing cmdHelp
  | 1 => cmdClear
  | 2 => cmdEcho
  | 3 => printing (cmdInfo x.timer)
  | 4 => printing (cmdUptime x.timer)
  | 5 => printing cmdMemory
  | 6 => cmdReboot x.status
  | 7 => cmdHalt
  | 8 => cmdShutdown
  | 9 => printing cmdVersion
  | 10 => printing fun argv s ↦ (cmdColor argv[1]?).map (·, s)
  | 11 => printing fun _ s ↦ (cmdLs s x.buffer).map (·, s)
  | 12 => printing (cmdCat (x.junk 0))
  | 13 => printing cmdTouch
  | 14 => printing cmdRm
  | 15 => nano x
  | 16 => printing cmdMkdir
  | 17 => printing cmdRmdir
  | 18 => printing cmdCd
  | _ => printing cmdPwd

/-- A turn of `shell_run`, which it makes as long as the commands return. -/
def KontolTurn (s : Session Kontol) (turn : Turn) (s' : Session Kontol) : Prop :=
  s.rest.phase = .running ∧ ∃ x, ShellTurn (commandTable x) s turn s'

/-- What is seen on the screen. -/
def Shown (v : Vga) : Display → Vga → Prop
  | .text t, v' => Emits v t v'
  | .blank, v' => Images ⟨0, fun _ ↦ 0x20⟩ v'
  | .editor n t modified, v' => Images ⟨editorCursor t, editorCell n t modified⟩ v'

/-- The machine is where the abstract shell is; at its prompt at most `k` blocks of the heap belong
to no file. -/
structure Stands (b₀ : Nat → UInt16) (k : Nat) (s : Session Kontol) (d : Desk) : Prop where
  /-- the cursor is on the screen, and the memory behind that untouched -/
  visible : Visible b₀ s.vga
  /-- the line has its size -/
  buffer : s.commandBuffer.length = shellBufferSize
  /-- the keys are the same -/
  keys : s.keys = d.keys
  /-- the program is at the same place -/
  phase : s.rest.phase = d.phase
  /-- the files are the same -/
  stores : ∃ j, Stores j s.rest.sys d.files d.cwd ∧ (d.phase = .running → j ≤ k)

/-- A command does what the abstract shell does, and shows what it shows. -/
def Follows (b₀ : Nat → UInt16) (k : Nat) (s : Session Kontol) (r : Desk × Display)
    (s' : Session Kontol) : Prop := Stands b₀ k s' r.1 ∧ Shown s.vga r.2 s'.vga

/-- The command is `rmdir`, and the directory has contents. -/
def Wasteful (s : Sys) (i : Nat) (ws : List (List UInt8)) : Prop :=
  i = 17 ∧ ∃ w rest, ws = w :: rest ∧ Leaks s (.rmdir (w ++ [0]))

variable {b₀ : Nat → UInt16} {j k i argc arg : Nat} {s s' : Session Kontol} {d : Desk}
  {cmd : Command} {argv : List Nat} {ws : List (List UInt8)} {r : Desk × Display}
  {calls : List VgaCall} {text name line : List UInt8} {x : Surroundings}

/-- The arguments are words. -/
def Arguments (s : Session Kontol) (argv : List Nat) (ws : List (List UInt8)) : Prop :=
  List.Forall₂ Holds (argv.map (s.commandBuffer.drop ·)) ws

theorem Arguments.eq_map (h : Arguments s argv ws) :
    ws = argv.map fun p ↦ cstr (s.commandBuffer.drop p) := by
  rw [Arguments] at h
  induction argv generalizing ws with
  | nil =>
      cases h
      rfl
  | cons p argv ih =>
      cases h with
      | cons hp hargs => rw [List.map_cons, hp.cstr_eq, ih hargs]

theorem Arguments.zero_mem (h : Arguments s argv ws) : ∀ p ∈ argv, 0 ∈ s.commandBuffer.drop p := by
  rw [Arguments] at h
  induction argv generalizing ws with
  | nil => exact nofun
  | cons p argv ih =>
      cases h with
      | cons hp hargs =>
          obtain ⟨_, rest, heq⟩ := hp
          refine List.forall_mem_cons.mpr ⟨?_, ih hargs⟩
          change s.commandBuffer.drop p = _ at heq
          rw [heq]
          exact List.mem_append_right _ List.mem_cons_self

/-! ## Commands -/

namespace Stands

/-- At the prompt there is memory. -/
theorem atPrompt (h : Stands b₀ j s d) (hphase : d.phase = .running) :
    Stores j s.rest.sys d.files d.cwd := by
  obtain ⟨_, hS, hle⟩ := h.stores
  exact hS.mono (hle hphase)

theorem calls_shown (h : Stands b₀ j s d) (hprints : Prints calls text) :
    ∃ v, runCalls calls s.vga = some v ∧ Visible b₀ v ∧ Emits s.vga text v := by
  obtain ⟨v, hrun, hv, hemits⟩ := h.visible.runCalls_emits hprints.1
  rw [hprints.2] at hemits
  exact ⟨v, hrun, hv, hemits⟩

/-- **A command that only prints**, where it does what the abstract shell does. -/
theorem printing (h : Stands b₀ j s d)
    (hm : Matches k cmd (argv.map (s.commandBuffer.drop ·)) s.rest.sys d r) :
    ∃ s', printing cmd argc argv s = some s' ∧ Follows b₀ k s r s' := by
  obtain ⟨files, cwd, t, calls, sys, rfl, hcmd, hprints, hs⟩ := hm
  obtain ⟨v, hrun, hv, hemits⟩ := h.calls_shown hprints
  refine ⟨{ s with vga := v, rest := { s.rest with sys := sys } }, ?_,
    ⟨hv, h.buffer, h.keys, h.phase, k, hs, fun _ ↦ Nat.le_refl k⟩, hemits⟩
  simp only [Shell.printing, hcmd, hrun, Option.bind_eq_bind, Option.bind_some]
  rfl

/-- **`clear`** -/
theorem clear (h : Stands b₀ j s d) (argc : Nat) (argv : List Nat) :
    ∃ s', cmdClear argc argv s = some s' ∧ Follows b₀ j s (d, .blank) s' := by
  obtain ⟨v, hclear, hv⟩ := h.visible.vgaClear
  obtain ⟨v', hclear', hp⟩ := images_vgaClear s.vga
  cases hclear.symm.trans hclear'
  refine ⟨{ s with vga := v }, ?_, ⟨hv, h.buffer, h.keys, h.phase, h.stores⟩, hp⟩
  rw [cmdClear, hclear]
  rfl

/-- **`echo`** -/
theorem echo (h : Stands b₀ j s d) (hargs : Arguments s argv ws) :
    ∃ s', cmdEcho (arg :: argv).length (arg :: argv) s = some s' ∧
      Follows b₀ j s (d.say (echoText ws)) s' := by
  obtain ⟨v, hput, hv, hemits⟩ := h.visible.putDigits (echoText ws)
  refine ⟨{ s with vga := v }, ?_, ⟨hv, h.buffer, h.keys, h.phase, h.stores⟩, hemits⟩
  rw [cmdEcho_eq arg hargs.zero_mem, ← hargs.eq_map, hput]
  rfl

/-- **`reboot`** -/
theorem reboot (h : Stands b₀ j s d) (status : List UInt8) (argc : Nat) (argv : List Nat) :
    ∃ s', cmdReboot status argc argv s = some s' ∧
      Follows b₀ j s (d.reboot (pollStatus status).2) s' := by
  obtain ⟨v, hprint, hv, hemits⟩ :=
    h.visible.vgaPrint (Holds.of_mem (zero_mem_literal "Rebooting system...\n"))
  simp only [cmdReboot, hprint, Option.bind_eq_bind, Option.bind_some]
  cases hready : (pollStatus status).2 with
  | true =>
      refine ⟨_, rfl, ⟨hv, h.buffer, h.keys, h.phase, h.stores⟩, hemits⟩
  | false =>
      obtain ⟨i, hS, _⟩ := h.stores
      refine ⟨_, rfl, ⟨hv, h.buffer, h.keys, rfl, i, hS, ?_⟩, hemits⟩
      intro hphase
      cases hphase

/-- **`halt` and `shutdown`** -/
theorem stop (h : Stands b₀ j s d) (hprints : Prints calls text) (accesses : List PortAccess) :
    ∃ s', stop accesses calls s = some s' ∧ Follows b₀ j s (d.halt text) s' := by
  obtain ⟨v, hrun, hv, hemits⟩ := h.calls_shown hprints
  have hstop : Shell.stop accesses calls s = some { s with
      vga := v
      rest := { s.rest with
        ports := s.rest.ports ++ accesses, interrupts := false, phase := .halted } } := by
    rw [Shell.stop, hrun]
    rfl
  obtain ⟨i, hS, _⟩ := h.stores
  refine ⟨_, hstop, ⟨hv, h.buffer, h.keys, rfl, i, hS, ?_⟩, hemits⟩
  intro hphase
  cases hphase

/-- A word in the line is shorter than that. -/
theorem length_lt (h : Stands b₀ j s d) {p : Nat} {n : List UInt8}
    (hn : Holds (s.commandBuffer.drop p) n) : n.length < shellBufferSize := by
  obtain ⟨_, rest, heq⟩ := hn
  have hlen := congrArg List.length heq
  rw [List.length_drop, h.buffer, List.length_append, List.length_cons] at hlen
  omega

/-- **`nano`** -/
theorem nano (h : Stands b₀ j s d) (hphase : d.phase = .running)
    (hfit : Affords blockMax (j + nanoMaxLines + 2)) (hargs : Arguments s argv ws)
    (hws : ∀ w ∈ ws, 0x0A ∉ w) (argc : Nat) :
    ∃ s', nano x argc (arg :: argv) s = some s' ∧ Follows b₀ j s (d.nano ws) s' := by
  rw [Arguments] at hargs
  cases argv with
  | nil =>
      cases hargs
      obtain ⟨v, hprint, hv, hemits⟩ :=
        h.visible.vgaPrint (Holds.of_mem (zero_mem_literal "Usage: nano <filename>\n"))
      refine ⟨{ s with vga := v }, ?_, ⟨hv, h.buffer, h.keys, h.phase, h.stores⟩, hemits⟩
      simp only [Shell.nano, hprint, Option.bind_eq_bind, Option.bind_some]
      rfl
  | cons p argv =>
      cases hargs with
      | @cons _ n _ ws hn _ =>
          have hS := h.atPrompt hphase
          have hnl : 0x0A ∉ n := hws n List.mem_cons_self
          obtain ⟨ptrs, others, hlen, hm⟩ := hS.modest
          -- the file is created, and the lines are allocated
          obtain ⟨b, s₂, others₂, code, s₁, halloc, hcount, hne, hm₂, hnew, hsame₂⟩ :=
            nanoAllocate_modest hm hn (hfit.mono (by omega))
          obtain ⟨s₁', hnew', hS₁⟩ := hS.fsNew hn hnl (.inl ⟨rfl, rfl⟩)
          cases hnew.symm.trans hnew'
          generalize hfiles : (d.files.new false (some (n ++ [0]))).2 = files at hS₁
          have hlen₂ : (b.ptrs ++ b.table :: ptrs).length + 1 ≤ j + nanoMaxLines + 2 := by
            rw [List.length_append, List.length_cons, hcount]
            omega
          have hS₂ : Stores (b.ptrs ++ b.table :: ptrs).length s₂ files d.cwd :=
            hS₁.sameFiles hsame₂ ⟨_, others₂, Nat.le_refl _, hm₂⟩
          -- the file is opened
          obtain ⟨e, s₃, hopen, hed, hrunning, hcwd₃⟩ := hS₂.nanoOpen hm₂ (hfit.mono (by omega)) hn
            hcount hne (x.junk 0)
          have hnano : Shell.nano x argc (arg :: p :: argv) s =
              nanoFinish x (s.commandBuffer.drop p) b (e, s₃) s := by
            simp only [Shell.nano, halloc, hopen, Option.bind_eq_bind, Option.bind_some]
          rw [hnano, Desk.nano, hfiles, nanoFinish, h.keys]
          -- the main loop
          obtain ⟨r, hloop, hedits⟩ := nanoEdit_spec (x := x) (k := 0) d.keys hed hrunning
            (hfit.mono hlen₂) hn (h.length_lt hn) hnl h.visible
          rw [hloop]
          have hstored : ∀ {s₄ others₄ files' e t m},
              Editing (b.ptrs ++ b.table :: ptrs) others₄ s₄ files' e t m →
              s₄.currentDir = s₃.currentDir →
              Stores (b.ptrs ++ b.table :: ptrs).length s₄ files' d.cwd := by
            intro s₄ others₄ files' e t m hed' hcwd₄
            refine ⟨⟨_, others₄, Nat.le_refl _, hed'.modest⟩, hed'.refines, hed'.tidy, ?_⟩
            rw [hcwd₄, hcwd₃]
            exact hS₂.cwd
          generalize edit n d.keys _ false files = edited at hedits
          cases hedits with
          | waiting hv himages hed' hcwd₄ =>
              refine ⟨_, rfl, ⟨hv, h.buffer, rfl, rfl, _, hstored hed' hcwd₄, fun hphase ↦ ?_⟩,
                himages⟩
              cases hphase
          | @left files' rest e' s₄ v others₄ t m hv hed' hcwd₄ =>
              obtain ⟨s₅, others₅, hclose, hm₅, hsame₅⟩ := nanoClose_modest hed'.modest hne
              obtain ⟨v', hclear, hv'⟩ := hv.vgaClear
              obtain ⟨v'', hclear', hp⟩ := images_vgaClear v
              cases hclear.symm.trans hclear'
              have hS₅ : Stores j s₅ files' d.cwd :=
                (hstored hed' hcwd₄).sameFiles hsame₅ ⟨ptrs, others₅, hlen, hm₅⟩
              refine ⟨{ s with
                vga := vgaSetColor 15 0 v', keys := rest, rest := { s.rest with sys := s₅ } }, ?_,
                ⟨hv'.vgaSetColor 15 0, h.buffer, rfl, h.phase, j, hS₅, fun _ ↦ Nat.le_refl j⟩,
                hp.vgaSetColor 15 0⟩
              simp only [hclose, hclear, Option.bind_eq_bind, Option.bind_some]
              rfl

/-- **Every command** does what the abstract shell does, if it can read what the machine says of
itself; and `rmdir` leaves a block to nobody if it removes a directory that has contents. -/
theorem command (h : Stands b₀ j s d) (hphase : d.phase = .running)
    (hfit : Affords blockMax (j + nanoMaxLines + 2)) (hargs : Arguments s argv ws)
    (hws : ∀ w ∈ ws, 0x0A ∉ w) {readings : Readings d.files} (hr : Reads x s.rest.sys readings)
    (hi : i < commands.length) :
    ∃ s', commandTable x i (arg :: argv).length (arg :: argv) s = some s' ∧
      (¬ Wasteful s.rest.sys i ws ∧ Follows b₀ j s (d.command readings ws i) s' ∨
        Wasteful s.rest.sys i ws ∧ Follows b₀ (j + 1) s (d.command readings ws i) s') := by
  have hS := h.atPrompt hphase
  have hstrings : List.Forall₂ Holds (argv.map (s.commandBuffer.drop ·)) ws := hargs
  have hprint : ∀ {k cmd r},
      Matches k cmd ((arg :: argv).map (s.commandBuffer.drop ·)) s.rest.sys d r →
      ∃ s', Shell.printing cmd (arg :: argv).length (arg :: argv) s = some s' ∧
        Follows b₀ k s r s' :=
    fun hm ↦ h.printing hm
  by_cases hrmdir : i = 17
  · subst hrmdir
    have hmatches := @Stores.rmdir _ _ (s.commandBuffer.drop arg) _ _ _ hS hstrings
    rcases hmatches with ⟨hno, hm⟩ | ⟨hyes, hm⟩
    · obtain ⟨s', hrun, hs'⟩ := hprint hm
      exact ⟨s', hrun, .inl ⟨fun hw ↦ hno hw.2, hs'⟩⟩
    · obtain ⟨s', hrun, hs'⟩ := hprint hm
      exact ⟨s', hrun, .inr ⟨⟨rfl, hyes⟩, hs'⟩⟩
  have hno : ¬ Wasteful s.rest.sys i ws := fun hw ↦ hrmdir hw.1
  suffices hrun : ∃ s', commandTable x i (arg :: argv).length (arg :: argv) s = some s' ∧
      Follows b₀ j s (d.command readings ws i) s' by
    obtain ⟨s', hrun, hs'⟩ := hrun
    exact ⟨s', hrun, .inl ⟨hno, hs'⟩⟩
  have hlt : i < 20 := hi
  interval_cases i
  · obtain ⟨calls, hcmd, hprints⟩ :=
      cmdHelp_prints ((arg :: argv).map (s.commandBuffer.drop ·)) s.rest.sys
    exact hprint (hS.say hcmd hprints)
  · exact h.clear (arg :: argv).length (arg :: argv)
  · exact h.echo hargs
  · exact hprint (hS.info hr)
  · exact hprint (hS.uptime hr)
  · exact hprint (hS.memory hr)
  · rw [Desk.command, hr.ready]
    exact h.reboot x.status (arg :: argv).length (arg :: argv)
  · have hprints := (Prints.nil.literal
      "\nSystem halted. You may now turn off your computer.\n").color 14 0
    rw [List.append_nil] at hprints
    exact h.stop hprints []
  · have hprints := (((((Prints.nil.literal
      "You may now turn off your computer manually.\n").literal
      "ACPI power off not supported. System halted.\n").color 14 0).literal
      "Goodbye!\n\n").color 7 0).literal "\nShutting down KontolOS...\n" |>.color 11 0
    rw [List.append_nil] at hprints
    exact h.stop hprints _
  · have hprints := (((Prints.nil.literal "Built from scratch with love!\n").literal
      "v0.1.0\n").color 15 0).literal "KontolOS " |>.color 11 0
    exact hprint (hS.say rfl hprints)
  · exact hprint (hS.color hstrings)
  · exact hprint (hS.ls hr)
  · exact hprint (hS.cat (hfit.mono (by omega)) hstrings (x.junk 0))
  · exact hprint (hS.create touch (.inl ⟨rfl, rfl⟩) hstrings hws)
  · exact hprint (hS.rm hstrings)
  · exact h.nano hphase hfit hargs hws (arg :: argv).length
  · exact hprint (hS.create mkdir (.inr ⟨rfl, rfl⟩) hstrings hws)
  · exact absurd rfl hrmdir
  · exact hprint (hS.cd hstrings)
  · exact hprint hS.pwd

end Stands

/-! ## A line -/

/-- The loop over `commands` finds the first name that is the same. -/
theorem findCommand_spec {arg : List UInt8} (h : Holds arg name) {names : List (List UInt8)}
    (hnames : ∀ c ∈ names, 0 ∈ c) (i : Nat) : findCommand arg names i =
      some ((names.findIdx? fun c ↦ cstr c = name).map (· + i)) := by
  induction names generalizing i with
  | nil => rfl
  | cons c names ih =>
      obtain ⟨hc, hrest⟩ := List.forall_mem_cons.mp hnames
      obtain ⟨order, hcmp, heq⟩ := h.strcmp_eq (Holds.of_mem hc)
      simp only [findCommand, hcmp, Option.bind_eq_bind, Option.bind_some, heq, List.findIdx?_cons]
      by_cases hname : name = cstr c
      · rw [if_pos hname, if_pos (decide_eq_true hname.symm)]
        simp
      · have hne : decide (cstr c = name) = false := decide_eq_false fun heq ↦ hname heq.symm
        rw [if_neg hname, ih hrest (i + 1), hne]
        cases names.findIdx? fun c ↦ cstr c = name with
        | none => rfl
        | some k => simp [Nat.add_comm, Nat.add_left_comm]

theorem zero_mem_commands : ∀ c ∈ commands, 0 ∈ c := by
  simp only [commands, List.forall_mem_cons, zero_mem_literal, true_and]
  exact nofun

theorem findIdx?_rmdir : (commands.findIdx? fun c ↦ cstr c = chars "rmdir") = some 17 := by decide

/-- No other command has the name of `rmdir`. -/
theorem eq_rmdir_iff (h : (commands.findIdx? fun c ↦ cstr c = name) = some i) :
    name = chars "rmdir" ↔ i = 17 := by
  constructor
  · rintro rfl
    exact Option.some.inj (h.symm.trans findIdx?_rmdir)
  · rintro rfl
    obtain ⟨_, hname, _⟩ := List.findIdx?_eq_some_iff_getElem.mp h
    exact (of_decide_eq_true hname).symm

/-- "Command not found" -/
theorem unknownCommand_eq (arg : List UInt8) (v : Vga) : unknownCommand arg v =
    runCalls (message 12 "Unknown command: " arg "\nType 'help' for available commands.\n") v := by
  simp only [unknownCommand, message, runCalls, VgaCall.exec, Option.bind_eq_bind, Option.bind_some]
  rfl

/-- The line is an `rmdir` of a directory that has contents. -/
def WastefulLine (s : Sys) (line : List UInt8) : Prop :=
  ∃ w args, (words isBlank line).take maxArgs = chars "rmdir" :: w :: args ∧
    Leaks s (.rmdir (w ++ [0]))

/-- The arguments are the words of the line, which end where the blanks behind them were. -/
theorem Stands.parseArgs (h : Stands b₀ j s d) (hline : Holds s.commandBuffer line)
    (hnl : 0x0A ∉ line) :
    ∃ buffer argv, Shell.parseArgs s.commandBuffer maxArgs = some (buffer, argv) ∧
      Stands b₀ j { s with commandBuffer := buffer } d ∧
      Arguments { s with commandBuffer := buffer } argv ((words isBlank line).take maxArgs) ∧
      ∀ w ∈ (words isBlank line).take maxArgs, 0x0A ∉ w := by
  obtain ⟨hzero, rest, hbuffer⟩ := hline
  obtain ⟨line', argv, hcut, hparse⟩ := parseArgs_cut hzero maxArgs
  refine ⟨line' ++ 0 :: rest, argv, ?_, ⟨h.visible, ?_, h.keys, h.phase, h.stores⟩, ?_, ?_⟩
  · rw [hbuffer]
    exact hparse rest
  · rw [List.length_append, hcut.length_eq, ← List.length_append, ← hbuffer]
    exact h.buffer
  · rw [← hcut.words_eq, Arguments, List.forall₂_map_left_iff, List.forall₂_map_right_iff,
      List.forall₂_same]
    exact fun p hp ↦ hcut.holds hp rest
  · intro w hw hmem
    rw [← hcut.words_eq] at hw
    obtain ⟨p, hp, rfl⟩ := List.mem_map.mp hw
    exact hnl (List.mem_of_mem_drop ((hcut.prefix_line p hp).subset hmem))

/-- **`execute_command` calls the function** with the name that is the first word. -/
theorem Stands.executeCommand_eq (h : Stands b₀ j s d) (hline : Holds s.commandBuffer line)
    (hnl : 0x0A ∉ line) (hwords : (words isBlank line).take maxArgs = name :: ws)
    (hidx : (commands.findIdx? fun c ↦ cstr c = name) = some i) (x : Surroundings) :
    ∃ buffer arg argv, executeCommand (commandTable x) s =
        commandTable x i (arg :: argv).length (arg :: argv) { s with commandBuffer := buffer } ∧
      Stands b₀ j { s with commandBuffer := buffer } d ∧
      Arguments { s with commandBuffer := buffer } argv ws ∧ ∀ w ∈ ws, 0x0A ∉ w := by
  obtain ⟨buffer, argv, hparse, h₁, hargs, hall⟩ := h.parseArgs hline hnl
  rw [hwords] at hargs hall
  rw [Arguments] at hargs
  cases argv with
  | nil => cases hargs
  | cons arg argv =>
      cases hargs with
      | cons hname hargs =>
          have hfind := findCommand_spec hname zero_mem_commands 0
          change findCommand (buffer.drop arg) commands 0 = _ at hfind
          refine ⟨buffer, arg, argv, ?_, h₁, hargs, fun w hw ↦ hall w (List.mem_cons_of_mem _ hw)⟩
          simp only [executeCommand, hparse, Option.bind_eq_bind, Option.bind_some, hfind, hidx]
          rfl

/-- **`execute_command` does not find the name.** -/
theorem Stands.executeCommand_unknown (h : Stands b₀ j s d) (hline : Holds s.commandBuffer line)
    (hnl : 0x0A ∉ line) (hwords : (words isBlank line).take maxArgs = name :: ws)
    (hidx : (commands.findIdx? fun c ↦ cstr c = name) = none) (x : Surroundings) :
    ∃ s', executeCommand (commandTable x) s = some s' ∧
      Follows b₀ j s (d.say (unknownText name)) s' := by
  obtain ⟨buffer, argv, hparse, h₁, hargs, _⟩ := h.parseArgs hline hnl
  rw [hwords, Arguments] at hargs
  cases argv with
  | nil => cases hargs
  | cons arg argv =>
      cases hargs with
      | cons hname _ =>
          have hfind := findCommand_spec hname zero_mem_commands 0
          change findCommand (buffer.drop arg) commands 0 = _ at hfind
          obtain ⟨v, hrun, hv, hemits⟩ := h₁.calls_shown
            (prints_message 12 "Unknown command: " "\nType 'help' for available commands.\n" hname)
          have hunknown := (unknownCommand_eq (buffer.drop arg) s.vga).trans hrun
          refine ⟨{ s with vga := v, commandBuffer := buffer }, ?_,
            ⟨hv, h₁.buffer, h.keys, h.phase, h.stores⟩, hemits⟩
          simp only [executeCommand, hparse, Option.bind_eq_bind, Option.bind_some, hfind, hidx,
            Option.map_none, hunknown]
          rfl

/-- **`execute_command`** does what the abstract shell does with the line. -/
theorem Stands.execute (h : Stands b₀ j s d) (hphase : d.phase = .running)
    (hfit : Affords blockMax (j + nanoMaxLines + 2)) (hline : Holds s.commandBuffer line)
    (hnl : 0x0A ∉ line) {readings : Readings d.files} (hr : Reads x s.rest.sys readings) :
    ∃ s', executeCommand (commandTable x) s = some s' ∧
      (¬ WastefulLine s.rest.sys line ∧ Follows b₀ j s (d.execute readings line) s' ∨
        WastefulLine s.rest.sys line ∧ Follows b₀ (j + 1) s (d.execute readings line) s') := by
  cases hws : (words isBlank line).take maxArgs with
  | nil =>
      obtain ⟨buffer, argv, hparse, h₁, hargs, _⟩ := h.parseArgs hline hnl
      rw [hws, Arguments, List.forall₂_nil_right_iff, List.map_eq_nil_iff] at hargs
      subst hargs
      refine ⟨{ s with commandBuffer := buffer }, by rw [executeCommand, hparse]; rfl,
        .inl ⟨?_, ?_⟩⟩
      · rintro ⟨w, args, heq, _⟩
        cases hws.symm.trans heq
      · rw [Desk.execute, hws]
        exact ⟨h₁, .nil _⟩
  | cons name ws =>
      have hwaste : WastefulLine s.rest.sys line ↔ name = chars "rmdir" ∧
          ∃ w args, ws = w :: args ∧ Leaks s.rest.sys (.rmdir (w ++ [0])) := by
        rw [WastefulLine, hws]
        constructor
        · rintro ⟨w, args, heq, hleak⟩
          cases heq
          exact ⟨rfl, w, args, rfl, hleak⟩
        · rintro ⟨rfl, w, args, rfl, hleak⟩
          exact ⟨w, args, rfl, hleak⟩
      rw [hwaste, Desk.execute, hws]
      cases hidx : commands.findIdx? fun c ↦ cstr c = name with
      | none =>
          obtain ⟨s', hexec, hs'⟩ := h.executeCommand_unknown hline hnl hws hidx x
          refine ⟨s', hexec, .inl ⟨?_, ?_⟩⟩
          · rintro ⟨rfl, _⟩
            cases hidx.symm.trans findIdx?_rmdir
          · simp only [hidx]
            exact hs'
      | some i =>
          obtain ⟨hi, _⟩ := List.findIdx?_eq_some_iff_getElem.mp hidx
          obtain ⟨_, _, _, hexec, h₁, hargs, hall⟩ := h.executeCommand_eq hline hnl hws hidx x
          rw [hexec, eq_rmdir_iff hidx]
          simp only [hidx]
          exact h₁.command hphase hfit hargs hall hr hi

/-! ## A turn -/

/-- The characters of a line have been typed. -/
theorem mem_typeChars {keys : List UInt8} {c : UInt8} (h : c ∈ typeChars line keys) :
    c ∈ line ∨ c ∈ keys := by
  induction keys generalizing line with
  | nil => exact .inl h
  | cons k keys ih =>
      rcases ih h with hline | hkeys
      · rw [typeChar] at hline
        split at hline
        · exact .inl (List.dropLast_subset _ hline)
        · rcases List.mem_append.mp hline with hc | hc
          · exact .inl hc
          · exact .inr (List.mem_cons.mpr (.inl (List.mem_singleton.mp hc)))
      · exact .inr (List.mem_cons_of_mem _ hkeys)

/-- The line that `keyboard_readline` has put into the buffer. -/
theorem holds_line {buffer keys typed rest : List UInt8} {v : Vga} {r : Readline}
    (hlen : buffer.length = shellBufferSize) (htyped : typed ++ rest = keys)
    (h : keyboardReadline buffer shellBufferSize v keys = some (.returned r rest))
    (hlen' : r.buffer.length = buffer.length) :
    Holds r.buffer (Turn.line ⟨keys, typed⟩) ∧ 0x0A ∉ Turn.line ⟨keys, typed⟩ := by
  rcases keyboardReadline_outcome (by decide) (by decide) h with ⟨_, hx, _⟩ | ⟨r₁, rest₁, hx, hout⟩
  · cases hx
  cases hx
  obtain ⟨t, consumed, hkeys, hnl, hcase, hline⟩ := hout.exists_typed
  obtain rfl : typed = consumed := List.append_cancel_right (htyped.trans hkeys)
  have htake : typed.takeWhile (· ≠ 0x0A) = t := by
    have hall : ∀ c ∈ t, decide (c ≠ 0x0A) = true :=
      fun c hc ↦ decide_eq_true fun heq ↦ hnl (heq ▸ hc)
    rcases hcase with rfl | ⟨rfl, _⟩
    · rw [List.takeWhile_append_of_pos hall]
      simp
    · exact List.takeWhile_eq_self_iff.mpr hall
  have hturn : Turn.line ⟨keys, typed⟩ = cstr (typeChars [] t) := by rw [Turn.line, htake]
  obtain ⟨tail, hbuffer⟩ := hline.buffer_eq
  have hi : r₁.i ≤ shellBufferSize - 1 := hout.i_le
  rw [hline.i_eq] at hi
  change (r₁.buffer.set r₁.i 0).length = buffer.length at hlen'
  change Holds (r₁.buffer.set r₁.i 0) _ ∧ _
  rw [List.length_set, hbuffer, List.length_append, hlen] at hlen'
  rw [hturn, hbuffer, hline.i_eq]
  refine ⟨?_, fun hmem ↦ ?_⟩
  · cases tail with
    | nil =>
        have hsize : 0 < shellBufferSize := by decide
        rw [List.length_nil] at hlen'
        omega
    | cons b tail =>
        rw [List.set_append_right _ _ (Nat.le_refl _), Nat.sub_self, List.set_cons_zero]
        exact holds_cstr _ _
  · have htyped' : (0x0A : UInt8) ∈ typeChars [] t := (List.takeWhile_subset _) hmem
    exact (mem_typeChars htyped').elim (fun h ↦ nomatch h) hnl

/-- The turn removes a directory that has contents. -/
def Wastes (s : Session Kontol) (turn : Turn) : Prop := WastefulLine s.rest.sys turn.line

/-- A text in front of what a command shows. -/
theorem Shown.after {v v₁ v' : Vga} {display : Display} (h : Emits v text v₁)
    (h' : Shown v₁ display v') : Shown v (display.after text) v' := by
  cases display with
  | text t => exact h.append h'
  | blank => exact h'
  | editor n t modified => exact h'

/-- The prompt -/
theorem Stands.prompt (h : Stands b₀ j s d) : ∃ v, printPrompt s.vga = some v ∧ Visible b₀ v ∧
    Emits s.vga (chars "kontol> ") v := by
  obtain ⟨v, hprint, hv, hemits⟩ :=
    (h.visible.vgaSetColor 10 0).vgaPrint (Holds.of_mem (zero_mem_literal "kontol> "))
  refine ⟨vgaSetColor 15 0 v, ?_, hv.vgaSetColor 15 0, ?_⟩
  · simp only [printPrompt, hprint, Option.bind_eq_bind, Option.bind_some]
    rfl
  · have hlast := hemits.append (.color 15 0 (.nil _))
    rw [List.append_nil] at hlast
    exact .color 10 0 hlast

/-- **The line is read**: what was typed is in the buffer and on the screen. -/
theorem Stands.reads (h : Stands b₀ j s d) {v : Vga} {r : Readline} {rest typed : List UInt8}
    (hprompt : printPrompt s.vga = some v)
    (hread : keyboardReadline s.commandBuffer shellBufferSize v s.keys = some (.returned r rest))
    (htyped : typed ++ rest = s.keys) :
    Stands b₀ j { s with vga := r.vga, commandBuffer := r.buffer, keys := rest }
        { d with keys := rest } ∧
      Holds r.buffer (Turn.line ⟨s.keys, typed⟩) ∧ 0x0A ∉ Turn.line ⟨s.keys, typed⟩ ∧
      Emits s.vga (Turn.echo ⟨s.keys, typed⟩) r.vga := by
  obtain ⟨v₁, hprompt', hv, hemits⟩ := h.prompt
  cases hprompt'.symm.trans hprompt
  obtain ⟨y, hread', hreturned⟩ :=
    hv.keyboardReadline (by decide) (by decide) (Nat.le_of_eq h.buffer.symm) s.keys
  cases hread'.symm.trans hread
  obtain ⟨hv', hlen, taken, hkeys, hechoed⟩ := hreturned r rest rfl
  obtain rfl : typed = taken := List.append_cancel_right (htyped.trans hkeys)
  obtain ⟨hline, hnl⟩ := holds_line h.buffer htyped hread hlen
  exact ⟨⟨hv', hlen.trans h.buffer, rfl, h.phase, h.stores⟩, hline, hnl, hemits.append hechoed⟩

/-- **Whatever the machine finds**, it executes the line that was typed, as the abstract shell
does. -/
theorem Stands.act (h : Stands b₀ j s d) (hphase : d.phase = .running)
    (hfit : Affords blockMax (j + nanoMaxLines + 2)) (x : Surroundings) {v : Vga} {r : Readline}
    {rest typed : List UInt8} (hprompt : printPrompt s.vga = some v)
    (hread : keyboardReadline s.commandBuffer shellBufferSize v s.keys = some (.returned r rest))
    (htyped : typed ++ rest = s.keys) :
    ∃ s' display d', executeCommand (commandTable x)
        { s with vga := r.vga, commandBuffer := r.buffer, keys := rest } = some s' ∧
      DeskTurn d (⟨s.keys, typed⟩, display) d' ∧ Shown s.vga display s'.vga ∧
      (¬ Wastes s ⟨s.keys, typed⟩ ∧ Stands b₀ j s' d' ∨
        Wastes s ⟨s.keys, typed⟩ ∧ Stands b₀ (j + 1) s' d') := by
  obtain ⟨h₁, hline, hnl, hecho⟩ := h.reads hprompt hread htyped
  obtain ⟨readings, hr⟩ := (h.atPrompt hphase).exists_readings x
  obtain ⟨s', hexec, hcase⟩ := h₁.execute hphase hfit hline hnl hr
  have hturn : ShellTurn (commandTable x) s ⟨s.keys, typed⟩ s' :=
    ⟨v, r, rest, hprompt, hread, rfl, htyped, hexec⟩
  generalize hresult : Desk.execute { d with keys := rest } readings (Turn.line ⟨s.keys, typed⟩) =
    result at hcase
  have hdesk : DeskTurn d (⟨s.keys, typed⟩, result.2.after (Turn.echo ⟨s.keys, typed⟩)) result.1 :=
    ⟨hphase, h.keys, hturn.outcome, rest, result.2, htyped.trans h.keys, ⟨readings, hresult⟩, rfl⟩
  rcases hcase with ⟨hno, hs', hshown⟩ | ⟨hyes, hs', hshown⟩
  · exact ⟨s', _, _, hexec, hdesk, hshown.after hecho, .inl ⟨hno, hs'⟩⟩
  · exact ⟨s', _, _, hexec, hdesk, hshown.after hecho, .inr ⟨hyes, hs'⟩⟩

/-- **A turn of the shell** is a turn of the abstract shell. -/
theorem Stands.turn {turn : Turn} (h : Stands b₀ j s d)
    (hfit : Affords blockMax (j + nanoMaxLines + 2)) (hturn : KontolTurn s turn s') :
    ∃ display d', DeskTurn d (turn, display) d' ∧ Shown s.vga display s'.vga ∧
      (¬ Wastes s turn ∧ Stands b₀ j s' d' ∨ Wastes s turn ∧ Stands b₀ (j + 1) s' d') := by
  obtain ⟨hphase, x, v, r, rest, hprompt, hread, hkeys, htyped, hexec⟩ := hturn
  obtain ⟨keys, typed⟩ := turn
  obtain rfl : keys = s.keys := hkeys
  obtain ⟨s₁, display, d', hexec', hdesk, hshown, hcase⟩ :=
    h.act (h.phase.symm.trans hphase) hfit x hprompt hread htyped
  cases hexec'.symm.trans hexec
  exact ⟨display, d', hdesk, hshown, hcase⟩

end KontolOS.Shell
