import KontolOS.Drivers.Visible
import KontolOS.Shell.Command
import KontolOS.Shell.Ls
import KontolOS.Shell.Report

/-!
# The machine below the shell

What the commands of `src/kernel/shell.c` change beside the screen, the line and the keys: the
filesystem and the heap, the ports, and whether the program is still in its main loop.  The
commands `clear`, `reboot`, `halt` and `shutdown` are here; the last three are about the ports and
the processor, and two of them never return.
-/

namespace KontolOS.Shell

open KontolOS.Lib KontolOS.Memory KontolOS.Strings KontolOS.Drivers KontolOS.Fs

/-! ## State -/

/-- An instruction that accesses a port. -/
inductive PortAccess
  | /-- `inb`, and what it has read -/ inb (port : UInt16) (value : UInt8)
  | /-- `outb` -/ outb (port : UInt16) (value : UInt8)
  | /-- `outw` -/ outw (port value : UInt16)
  deriving DecidableEq

/-- Where the program is. -/
inductive Phase
  | /-- in the main loop -/ running
  | /-- in a command that waits for a key, or for a port -/ waiting
  | /-- in a command that has stopped the processor -/ halted
  deriving DecidableEq

/-- What there is beside the screen, the line and the keys. -/
structure Kontol where
  /-- the filesystem and the heap -/
  sys : Sys
  /-- the ports that were accessed, but for those of the screen -/
  ports : List PortAccess
  /-- whether interrupts are enabled -/
  interrupts : Bool
  /-- where the program is -/
  phase : Phase

/-- What a command cannot know in advance. -/
structure Surroundings where
  /-- what memory contains, first and when the keys of the editor are handled -/
  junk : Nat → Mem
  /-- what is read of the cursor's shape whenever the editor is drawn -/
  shape : Nat → UInt8 × UInt8
  /-- `char buffer[1024]`, on the stack of `cmd_ls` -/
  buffer : List UInt8
  /-- which is of this size -/
  length_buffer : buffer.length = lsBufferSize
  /-- the timer -/
  timer : Timer
  /-- `timer_ticks` is a `uint32_t` -/
  ticks_lt : timer.timerTicks < 2 ^ 32
  /-- `timer_init(100)` -/
  frequency_eq : timer.timerFrequency = 100
  /-- what the reads from port 0x64 return -/
  status : List UInt8

/-! ## Commands -/

/-- A command that only prints and works on the filesystem and the heap. -/
def printing (cmd : Command) : Handler Kontol := fun _ argv s ↦ do
  let (calls, sys) ← cmd (argv.map (s.commandBuffer.drop ·)) s.rest.sys
  return { s with vga := ← runCalls calls s.vga, rest := { s.rest with sys := sys } }

/-- `cmd_clear` -/
def cmdClear : Handler Kontol := fun _ _ s ↦ do
  return { s with vga := ← vgaClear s.vga }

/-- `while (good & 0x02) good = inb(0x64)`: the reads, and whether the loop ends. -/
def pollStatus : List UInt8 → List PortAccess × Bool
  | [] => ([], false)
  | good :: status =>
      if good &&& 0x02 ≠ 0 then
        let (reads, ready) := pollStatus status
        (.inb 0x64 good :: reads, ready)
      else ([.inb 0x64 good], true)

/-- `cmd_reboot`.  If the machine is not reset, the `hlt` at its end lasts until the next
interrupt, and it returns. -/
def cmdReboot (status : List UInt8) : Handler Kontol := fun _ _ s ↦ do
  let v ← vgaPrint (literal "Rebooting system...\n") s.vga
  let (reads, ready) := pollStatus status
  let ports := s.rest.ports ++ reads
  if ready then
    return { s with vga := v, rest := { s.rest with ports := ports ++ [.outb 0x64 0xFE] } }
  else return { s with vga := v, rest := { s.rest with ports := ports, phase := .waiting } }

/-- Disable interrupts, access ports, print, and halt for ever. -/
def stop (accesses : List PortAccess) (calls : List VgaCall) (s : Session Kontol) :
    Option (Session Kontol) := do
  return { s with
    vga := ← runCalls calls s.vga
    rest := { s.rest with
      ports := s.rest.ports ++ accesses, interrupts := false, phase := .halted } }

/-- `cmd_halt` -/
def cmdHalt : Handler Kontol := fun _ _ s ↦
  stop [] [.setColor 14 0,
    .print (literal "\nSystem halted. You may now turn off your computer.\n")] s

/-- `cmd_shutdown`.  Its delay is left out. -/
def cmdShutdown : Handler Kontol := fun _ _ s ↦
  stop [.outw 0x604 0x2000, .outw 0xB004 0x2000, .outw 0x4004 0x3400]
    [.setColor 11 0, .print (literal "\nShutting down KontolOS...\n"), .setColor 7 0,
      .print (literal "Goodbye!\n\n"), .setColor 14 0,
      .print (literal "ACPI power off not supported. System halted.\n"),
      .print (literal "You may now turn off your computer manually.\n")] s

/-! ## The protocol of `cmd_reboot` -/

variable {b₀ : Nat → UInt16} {s : Session Kontol}

/-- The reads end with the first one that finds bit 1 clear. -/
theorem pollStatus_eq (status : List UInt8) :
    (∃ busy good rest, status = busy ++ good :: rest ∧ (∀ c ∈ busy, c &&& 0x02 ≠ 0) ∧
      good &&& 0x02 = 0 ∧ pollStatus status = ((busy ++ [good]).map (.inb 0x64), true)) ∨
    (∀ c ∈ status, c &&& 0x02 ≠ 0) ∧ pollStatus status = (status.map (.inb 0x64), false) := by
  induction status with
  | nil => exact .inr ⟨nofun, rfl⟩
  | cons c status ih =>
      by_cases hc : c &&& 0x02 = 0
      · refine .inl ⟨[], c, status, rfl, nofun, hc, ?_⟩
        rw [pollStatus, if_neg (not_not_intro hc)]
        rfl
      · rw [pollStatus, if_pos hc]
        rcases ih with ⟨busy, good, rest, rfl, hbusy, hgood, heq⟩ | ⟨hbusy, heq⟩
        · refine .inl ⟨c :: busy, good, rest, rfl, List.forall_mem_cons.mpr ⟨hc, hbusy⟩, hgood, ?_⟩
          rw [heq]
          rfl
        · refine .inr ⟨List.forall_mem_cons.mpr ⟨hc, hbusy⟩, ?_⟩
          rw [heq]
          rfl

end KontolOS.Shell
