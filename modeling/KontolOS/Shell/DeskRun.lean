import KontolOS.Fs.Leaks
import KontolOS.Lib.Tally
import KontolOS.Shell.DeskSession

/-!
# Runs of the shell

From `shell_run` on, whatever is typed and whatever the machine finds, the shell does what the
abstract shell does (`Stands.run`), in every run in which at most 94 directories have contents when
they are removed, as each of these takes a block out of the heap for ever.  And a line that ends
with Enter is executed (`Stands.enters`).
-/

namespace KontolOS.Shell

open KontolOS.Lib KontolOS.Memory KontolOS.Strings KontolOS.Drivers KontolOS.Fs Function

/-- How many directories may have contents when they are removed. -/
def leakMax : Nat := 94

theorem affords_leakMax : Affords blockMax (leakMax + nanoMaxLines + 2) := by decide

/-- `shell_run` is called. -/
structure Starts (b₀ : Nat → UInt16) (s : Session Kontol) : Prop where
  /-- the cursor is on the screen -/
  visible : Visible b₀ s.vga
  /-- `command_buffer` -/
  buffer : s.commandBuffer.length = shellBufferSize
  /-- nothing has stopped the program -/
  phase : s.rest.phase = .running
  /-- the filesystem and the heap are as `memory_init` and `fs_init` leave them -/
  booted : Booted ⟨s.rest.sys, fun _ ↦ none⟩

/-- The abstract shell at first. -/
def Desk.start (keys : List UInt8) : Desk := ⟨.empty, [0x2F], keys, .running⟩

variable {b₀ : Nat → UInt16} {j k : Nat} {s s' : Session Kontol} {d : Desk} {turns : List Turn}

/-- There is nothing yet. -/
theorem Starts.stands (h : Starts b₀ s) : Stands b₀ 0 s (.start s.keys) := by
  refine ⟨h.visible, h.buffer, rfl, h.phase, 0,
    ⟨⟨[], _, Nat.le_refl 0, h.booted.modest rfl blockMax⟩, h.booted.refines, ?_, ?_⟩,
    fun _ ↦ Nat.le_refl 0⟩
  · have hnone : ∀ n e, ¬ Directory.empty.entries.lookup n = some e :=
      fun n e he ↦ nomatch (Finmap.lookup_empty n).symm.trans he
    exact ⟨fun n hn ↦ absurd hn Finmap.notMem_empty, fun n e he ↦ absurd he (hnone n e),
      fun n e he ↦ absurd he (hnone n e)⟩
  · obtain ⟨_, s₀, _, hcwd, hsys⟩ := h.booted
    change s.rest.sys = fsInit s₀ at hsys
    have hroot : Holds rootDir [0x2F] := ⟨by decide, List.replicate 30 0, rfl⟩
    rw [hsys]
    change Holds s₀.currentDir [0x2F]
    rwa [hcwd]

/-- Only `rmdir` can leave contents behind. -/
theorem not_wastefulLine {sys : Sys} {line : List UInt8}
    (hline : (words isBlank line).head? ≠ some (chars "rmdir")) : ¬ WastefulLine sys line := by
  rintro ⟨w, args, hwords, _⟩
  have hhead := congrArg List.head? hwords
  rw [List.head?_take, if_neg (by decide)] at hhead
  exact hline hhead

/-- What was typed before Enter -/
theorem Turn.line_enter {keys t : List UInt8} (ht : 0x0A ∉ t) :
    Turn.line ⟨keys, t ++ [0x0A]⟩ = cstr (typeChars [] t) := by
  have hall : ∀ c ∈ t, decide (c ≠ 0x0A) = true :=
    fun c hc ↦ decide_eq_true fun heq ↦ ht (heq ▸ hc)
  rw [Turn.line, List.takeWhile_append_of_pos hall]
  simp

/-- **Runs**, with the relation at their end. -/
theorem Stands.run (h : Stands b₀ j s d) (hr : Tally KontolTurn Wastes k s turns s')
    (hk : j + k ≤ leakMax) :
    ∃ shown d', shown.map Prod.fst = turns ∧ Run DeskTurn d shown d' ∧
      Run (fun s a s' ↦ Shown s.vga a.2 s'.vga) s shown s' ∧ Stands b₀ (j + k) s' d' := by
  have hstep : ∀ {k s turn s' d}, k ≤ leakMax → Stands b₀ k s d → KontolTurn s turn s' →
      ∃ (a : Turn × Display) (d' : Desk), a.1 = turn ∧ DeskTurn d a d' ∧ Shown s.vga a.2 s'.vga ∧
        (¬ Wastes s turn ∧ Stands b₀ k s' d' ∨ Wastes s turn ∧ Stands b₀ (k + 1) s' d') := by
    intro k s turn s' d hk h hturn
    obtain ⟨display, d', hdesk, hshown, hcase⟩ := h.turn (affords_leakMax.mono (by omega)) hturn
    exact ⟨(turn, display), d', rfl, hdesk, hshown, hcase⟩
  exact hr.simulate hstep hk h

/-- **A turn calls the function** with the name that is the first word of its line. -/
theorem Stands.calls {x : Surroundings} {turn : Turn} {name : List UInt8} {ws : List (List UInt8)}
    {i : Nat} (h : Stands b₀ j s d) (hturn : ShellTurn (commandTable x) s turn s')
    (hwords : (words isBlank turn.line).take maxArgs = name :: ws)
    (hidx : (commands.findIdx? fun command ↦ cstr command = name) = some i) :
    ∃ s₁ argc argv, s₁.rest = s.rest ∧ commandTable x i argc argv s₁ = some s' := by
  obtain ⟨v, r, rest, hprompt, hread, hkeys, htyped, hexec⟩ := hturn
  obtain ⟨keys, typed⟩ := turn
  obtain rfl : keys = s.keys := hkeys
  obtain ⟨h₁, hline, hnl, _⟩ := h.reads hprompt hread htyped
  obtain ⟨buffer, arg, argv, heq, _⟩ := h₁.executeCommand_eq hline hnl hwords hidx x
  exact ⟨{ s with vga := r.vga, commandBuffer := buffer, keys := rest }, _, _, rfl,
    heq.symm.trans hexec⟩

/-- What comes before the first `c` is determined. -/
theorem append_cons_inj {c : UInt8} {t t' rest rest' : List UInt8} (ht : c ∉ t) (ht' : c ∉ t')
    (h : t ++ c :: rest = t' ++ c :: rest') : t = t' ∧ rest = rest' := by
  have hle : t <+: t' := prefix_of_not_mem (h ▸ List.prefix_append t _) ht
  have hge : t' <+: t := prefix_of_not_mem (h ▸ List.prefix_append t' _) ht'
  obtain rfl := hle.eq_of_length (Nat.le_antisymm hle.length_le hge.length_le)
  exact ⟨rfl, (List.cons.inj (List.append_cancel_left h)).2⟩

/-- **Enter executes the line**: a line of less than 255 characters makes a turn, whatever the
machine finds. -/
theorem Stands.enter {line rest : List UInt8} (h : Stands b₀ j s d) (hphase : d.phase = .running)
    (hfit : Affords blockMax (j + nanoMaxLines + 2)) (x : Surroundings)
    (hkeys : s.keys = line ++ 0x0A :: rest) (hnl : 0x0A ∉ line) (hlen : line.length < 255) :
    ∃ s', ShellTurn (commandTable x) s ⟨s.keys, line ++ [0x0A]⟩ s' := by
  obtain ⟨v, hprompt, hv, _⟩ := h.prompt
  obtain ⟨y, hread, _⟩ :=
    hv.keyboardReadline (by decide) (by decide) (Nat.le_of_eq h.buffer.symm) s.keys
  rcases keyboardReadline_outcome (by decide) (by decide) hread with
    ⟨r, rfl, hout⟩ | ⟨r, left, rfl, hout⟩
  · cases hout with
    | waiting hfree =>
        refine absurd ?_ hfree
        rw [hkeys]
        exact List.mem_append_right _ List.mem_cons_self
  · have htyped : (line ++ [0x0A]) ++ left = s.keys := by
      rw [← List.append_cons, hkeys]
      cases hout with
      | newline t _ heq ht => rw [(append_cons_inj hnl ht (hkeys.symm.trans heq)).2]
      | full t _ heq ht hfull =>
          have hpre : t <+: line :=
            prefix_of_not_mem (hkeys.symm.trans heq ▸ List.prefix_append t _) ht
          have hle := length_typeChars_le [] t
          have hle' := hpre.length_le
          rw [List.length_nil, hfull] at hle
          change 255 ≤ _ at hle
          omega
    obtain ⟨s', _, _, hexec, _⟩ := h.act hphase hfit x hprompt hread htyped
    exact ⟨s', v, _, left, hprompt, hread, rfl, htyped, hexec⟩

/-- **What the line does** is what it does in the abstract shell. -/
theorem Stands.enters {line rest : List UInt8} (h : Stands b₀ j s d) (hphase : d.phase = .running)
    (hfit : Affords blockMax (j + nanoMaxLines + 2)) (x : Surroundings)
    (hkeys : s.keys = line ++ 0x0A :: rest) (hnl : 0x0A ∉ line) (hlen : line.length < 255)
    (hrm : (words isBlank (cstr (typeChars [] line))).head? ≠ some (chars "rmdir")) :
    ∃ (s' : Session Kontol) (r : Readings d.files) (d' : Desk) (display : Display),
      ShellTurn (commandTable x) s ⟨s.keys, line ++ [0x0A]⟩ s' ∧
      ¬ Wastes s ⟨s.keys, line ++ [0x0A]⟩ ∧
      Desk.execute { d with keys := rest } r (cstr (typeChars [] line)) = (d', display) ∧
      Shown s.vga (display.after (Turn.echo ⟨s.keys, line ++ [0x0A]⟩)) s'.vga ∧
      Stands b₀ j s' d' := by
  obtain ⟨s', hshell⟩ := h.enter hphase hfit x hkeys hnl hlen
  have hturn : KontolTurn s ⟨s.keys, line ++ [0x0A]⟩ s' := ⟨h.phase.trans hphase, x, hshell⟩
  have hline : Turn.line ⟨s.keys, line ++ [0x0A]⟩ = cstr (typeChars [] line) :=
    Turn.line_enter hnl
  have hfree : ¬ Wastes s ⟨s.keys, line ++ [0x0A]⟩ := by
    rw [Wastes, hline]
    exact not_wastefulLine hrm
  obtain ⟨seen, d', ⟨_, _, _, left, display, htyped, ⟨r, hexec⟩, hshow⟩, hshown, hcase⟩ :=
    h.turn hfit hturn
  rw [← h.keys, hkeys, List.append_cons] at htyped
  obtain rfl : left = rest := List.append_cancel_left htyped
  rw [hline] at hexec
  change seen = display.after _ at hshow
  rw [hshow] at hshown
  exact ⟨s', r, d', display, hshell, hfree, hexec, hshown,
    (hcase.resolve_right fun hw ↦ hfree hw.1).2⟩

/-! ## Sessions exist -/

/-- What a machine may find: no junk, no interrupt yet, and a controller that is ready. -/
def quiet : Surroundings where
  junk _ _ := 0
  shape _ := (0, 0)
  buffer := List.replicate lsBufferSize 0
  length_buffer := List.length_replicate
  timer := ⟨0, 100⟩
  ticks_lt := by decide
  frequency_eq := rfl
  status := [0]

/-- A session after the start, with any keys. -/
theorem exists_starts (keys : List UInt8) : ∃ s, Starts (fun _ ↦ 0) s ∧ s.keys = keys ∧
    s.rest.ports = [] ∧ s.rest.interrupts = true ∧ s.rest.phase = .running := by
  obtain ⟨v, _, hv⟩ := Visible.of_vgaClear (v := vgaInit fun _ ↦ 0) fun i _ ↦ rfl
  refine ⟨⟨v, List.replicate shellBufferSize 0, keys,
    ⟨(bootWorld (Clients.init fun _ ↦ 0)).sys, [], true, .running⟩⟩, ?_, rfl, rfl, rfl, rfl⟩
  exact ⟨hv, List.length_replicate, rfl, booted_bootWorld ⟨_, [], .nil _⟩⟩

end KontolOS.Shell
