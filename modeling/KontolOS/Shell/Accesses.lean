import KontolOS.Shell.DeskRun

/-!
# The ports in a run of the shell

The commands access ports for two purposes: `reboot` asks the keyboard controller for a reset, and
`shutdown` tries three ways to turn the machine off.  However many lines are executed, the ports
that have been accessed at the end form a sequence of resets, each of them right after a read that
finds the controller ready; what may come behind it tells where the program has stopped
(`session_accesses`).
-/

namespace KontolOS.Shell

open KontolOS.Lib KontolOS.Memory KontolOS.Strings KontolOS.Drivers KontolOS.Fs

/-! ## What is allowed -/

/-- Requests for a reset, each of which waits for the controller. -/
inductive Resets : List PortAccess → Prop
  | nil : Resets []
  | /-- bit 1 of the status says that the controller's input buffer is full -/
    reset {ports : List PortAccess} {busy : List UInt8} {good : UInt8} :
      Resets ports → (∀ c ∈ busy, c &&& 0x02 ≠ 0) → good &&& 0x02 = 0 →
        Resets (ports ++ ((busy ++ [good]).map (.inb 0x64) ++ [.outb 0x64 0xFE]))

/-- The ways of `cmd_shutdown` to turn the machine off. -/
def powerOff : List PortAccess := [.outw 0x604 0x2000, .outw 0xB004 0x2000, .outw 0x4004 0x3400]

/-- What may come behind the requests, and whether interrupts are enabled. -/
def Last : Phase → Bool → List PortAccess → Prop
  | .running, interrupts, last => interrupts = true ∧ last = []
  | .waiting, interrupts, last =>
      interrupts = true ∧ ∃ busy : List UInt8, (∀ c ∈ busy, c &&& 0x02 ≠ 0) ∧
        last = busy.map (.inb 0x64)
  | .halted, interrupts, last => interrupts = false ∧ (last = [] ∨ last = powerOff)

/-- The accesses are in order. -/
def Orderly (k : Kontol) : Prop :=
  ∃ resets last, k.ports = resets ++ last ∧ Resets resets ∧ Last k.phase k.interrupts last

variable {x : Surroundings} {i argc : Nat} {argv : List Nat} {s s' : Session Kontol} {k k' : Kontol}
  {t : Turn} {turns : List Turn}

/-! ## Commands -/

/-- At the prompt, all of them are requests. -/
theorem Orderly.of_running (h : Orderly k) (hphase : k.phase = .running) :
    Resets k.ports ∧ k.interrupts = true := by
  obtain ⟨resets, last, hports, hresets, hlast⟩ := h
  rw [hphase] at hlast
  obtain ⟨hint, rfl⟩ := hlast
  rw [hports, List.append_nil]
  exact ⟨hresets, hint⟩

/-- Nothing is accessed. -/
theorem Orderly.quiet (hresets : Resets k.ports ∧ k.interrupts = true) (hports : k'.ports = k.ports)
    (hint : k'.interrupts = k.interrupts) (hphase : k'.phase = .running ∨ k'.phase = .waiting) :
    Orderly k' := by
  refine ⟨k.ports, [], by rw [hports, List.append_nil], hresets.1, ?_⟩
  rw [hint, hresets.2]
  rcases hphase with hphase | hphase
  · rw [hphase]
    exact ⟨rfl, rfl⟩
  · rw [hphase]
    exact ⟨rfl, [], nofun, rfl⟩

/-- What `reboot` accesses -/
theorem rest_cmdReboot {status : List UInt8} (h : cmdReboot status argc argv s = some s') :
    s'.rest = if (pollStatus status).2 then
        { s.rest with ports := s.rest.ports ++ (pollStatus status).1 ++ [.outb 0x64 0xFE] }
      else { s.rest with ports := s.rest.ports ++ (pollStatus status).1, phase := .waiting } := by
  obtain ⟨v, _, h⟩ := Option.bind_eq_some_iff.mp h
  cases hready : (pollStatus status).2 with
  | true =>
      simp only [hready, if_true] at h
      cases h
      rfl
  | false =>
      simp only [hready] at h
      cases h
      rfl

/-- What `halt` and `shutdown` access -/
theorem rest_stop {accesses : List PortAccess} {calls : List VgaCall}
    (h : stop accesses calls s = some s') :
    s'.rest = { s.rest with
      ports := s.rest.ports ++ accesses, interrupts := false, phase := .halted } := by
  obtain ⟨v, _, h⟩ := Option.bind_eq_some_iff.mp h
  cases h
  rfl

/-- **`reboot`** -/
theorem cmdReboot_orderly {status : List UInt8}
    (hresets : Resets s.rest.ports ∧ s.rest.interrupts = true) (hphase : s.rest.phase = .running)
    (h : cmdReboot status argc argv s = some s') : Orderly s'.rest := by
  rw [rest_cmdReboot h]
  rcases pollStatus_eq status with ⟨busy, good, rest, rfl, hbusy, hgood, hpoll⟩ | ⟨hbusy, hpoll⟩
  · simp only [hpoll, if_true]
    refine ⟨_, [], ?_, hresets.1.reset hbusy hgood, ?_⟩
    · simp only [List.append_nil, List.append_assoc]
    · simp only [hphase, hresets.2]
      exact ⟨rfl, rfl⟩
  · simp only [hpoll]
    refine ⟨s.rest.ports, _, rfl, hresets.1, ?_⟩
    exact ⟨hresets.2, status, hbusy, rfl⟩

/-- **`halt`** and **`shutdown`** -/
theorem stop_orderly {accesses : List PortAccess} {calls : List VgaCall}
    (hresets : Resets s.rest.ports) (haccesses : accesses = [] ∨ accesses = powerOff)
    (h : stop accesses calls s = some s') : Orderly s'.rest := by
  rw [rest_stop h]
  exact ⟨s.rest.ports, accesses, rfl, hresets, rfl, haccesses⟩

/-- **`nano`** accesses no port but those of the screen. -/
theorem nano_quiet (h : nano x argc argv s = some s') :
    s'.rest.ports = s.rest.ports ∧ s'.rest.interrupts = s.rest.interrupts ∧
      (s'.rest.phase = s.rest.phase ∨ s'.rest.phase = .waiting) := by
  cases argv with
  | nil =>
      obtain ⟨v, _, hv⟩ := Option.bind_eq_some_iff.mp h
      cases hv
      exact ⟨rfl, rfl, .inl rfl⟩
  | cons arg args =>
      cases args with
      | nil =>
          obtain ⟨v, _, hv⟩ := Option.bind_eq_some_iff.mp h
          cases hv
          exact ⟨rfl, rfl, .inl rfl⟩
      | cons p args =>
          obtain ⟨⟨blocks, sys⟩, _, h⟩ := Option.bind_eq_some_iff.mp h
          cases blocks with
          | none =>
              obtain ⟨v, _, hv⟩ := Option.bind_eq_some_iff.mp h
              cases hv
              exact ⟨rfl, rfl, .inl rfl⟩
          | some b =>
              obtain ⟨y, _, h⟩ := Option.bind_eq_some_iff.mp h
              obtain ⟨r, _, h⟩ := Option.bind_eq_some_iff.mp h
              cases r with
              | waiting z v =>
                  cases h
                  exact ⟨rfl, rfl, .inr rfl⟩
              | left z v rest =>
                  obtain ⟨sys', _, h⟩ := Option.bind_eq_some_iff.mp h
                  obtain ⟨v', _, h⟩ := Option.bind_eq_some_iff.mp h
                  cases h
                  exact ⟨rfl, rfl, .inl rfl⟩

/-- The other commands only print. -/
theorem commandTable_cases (x : Surroundings) (i : Nat) :
    i ∈ [1, 2, 6, 7, 8, 15] ∨ ∃ cmd, commandTable x i = printing cmd := by
  unfold commandTable
  split <;> first | exact .inl (by decide) | exact .inr ⟨_, rfl⟩

/-- **A command** keeps the accesses in order. -/
theorem Orderly.command (h : Orderly s.rest) (hphase : s.rest.phase = .running)
    (hrun : commandTable x i argc argv s = some s') : Orderly s'.rest := by
  have hresets := h.of_running hphase
  rcases commandTable_cases x i with hmem | ⟨cmd, heq⟩
  · simp only [List.mem_cons, List.not_mem_nil, or_false] at hmem
    rcases hmem with rfl | rfl | rfl | rfl | rfl | rfl
    · obtain ⟨v, hclear, _⟩ := images_vgaClear s.vga
      change cmdClear argc argv s = some s' at hrun
      rw [cmdClear, hclear] at hrun
      cases hrun
      exact .quiet hresets rfl rfl (.inl hphase)
    · obtain ⟨calls, _, hrun⟩ := Option.bind_eq_some_iff.mp hrun
      obtain ⟨v, _, hrun⟩ := Option.bind_eq_some_iff.mp hrun
      cases hrun
      exact .quiet hresets rfl rfl (.inl hphase)
    · change cmdReboot x.status argc argv s = some s' at hrun
      exact cmdReboot_orderly hresets hphase hrun
    · exact stop_orderly hresets.1 (.inl rfl) hrun
    · exact stop_orderly hresets.1 (.inr rfl) hrun
    · change nano x argc argv s = some s' at hrun
      obtain ⟨hports, hint, hphase'⟩ := nano_quiet hrun
      exact .quiet hresets hports hint (hphase'.imp_left fun heq ↦ heq.trans hphase)
  · rw [heq] at hrun
    obtain ⟨⟨calls, sys⟩, _, hrun⟩ := Option.bind_eq_some_iff.mp hrun
    obtain ⟨v, _, hrun⟩ := Option.bind_eq_some_iff.mp hrun
    cases hrun
    exact .quiet hresets rfl rfl (.inl hphase)

/-- **A line** -/
theorem Orderly.executeCommand (h : Orderly s.rest) (hphase : s.rest.phase = .running)
    (hrun : Shell.executeCommand (commandTable x) s = some s') : Orderly s'.rest := by
  obtain ⟨⟨line, argv⟩, _, hrun⟩ := Option.bind_eq_some_iff.mp hrun
  cases argv with
  | nil =>
      cases hrun
      exact h
  | cons arg argv =>
      obtain ⟨found, _, hrun⟩ := Option.bind_eq_some_iff.mp hrun
      cases found with
      | none =>
          obtain ⟨v, _, hrun⟩ := Option.bind_eq_some_iff.mp hrun
          cases hrun
          exact h
      | some i =>
          have hline : Orderly ({ s with commandBuffer := line } : Session Kontol).rest := h
          exact hline.command hphase hrun

/-- **A turn** -/
theorem Orderly.turn (h : Orderly s.rest) (hturn : KontolTurn s t s') : Orderly s'.rest := by
  obtain ⟨hphase, x, v, r, rest, _, _, _, _, hexec⟩ := hturn
  have hread : Orderly
      ({ s with vga := r.vga, commandBuffer := r.buffer, keys := rest } : Session Kontol).rest := h
  exact hread.executeCommand hphase hexec

/-! ## Runs -/

end KontolOS.Shell
