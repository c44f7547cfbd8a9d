import Mathlib.Logic.Function.Basic
import KontolOS.Lib.Memory

/-!
# The machine that the kernel boots on

What decides where an interrupt goes: the interrupt descriptor table, the two interrupt
controllers, the interrupt flag, and the handlers that `irq_handler` calls.  A program is a
list of operations, each of which is executed in one step; an interrupt may be delivered
between any two steps while the interrupt flag is set, through the gate that is in the
table at that moment.
-/

namespace KontolOS.Boot

open KontolOS.Lib Function

/-! ## Gates -/

/-- `struct idt_entry` -/
structure IdtEntry where
  /-- `uint16_t base_low` -/
  baseLow : Nat
  /-- `uint16_t sel` -/
  sel : Nat
  /-- `uint8_t always0` -/
  always0 : Nat
  /-- `uint8_t flags` -/
  flags : Nat
  /-- `uint16_t base_high` -/
  baseHigh : Nat

/-- The stores that `idt_set_gate` makes. -/
inductive GateStore
  | baseLow (x : Nat)
  | baseHigh (x : Nat)
  | sel (x : Nat)
  | always0 (x : Nat)
  | flags (x : Nat)

/-- A gate after a store. -/
def IdtEntry.store (g : IdtEntry) : GateStore → IdtEntry
  | .baseLow x => { g with baseLow := x }
  | .baseHigh x => { g with baseHigh := x }
  | .sel x => { g with sel := x }
  | .always0 x => { g with always0 := x }
  | .flags x => { g with flags := x }

/-- The address that a gate leads to. -/
def IdtEntry.base (g : IdtEntry) : Nat := g.baseHigh * 2 ^ 16 + g.baseLow

/-- The gate is present, and leads to `stub` in the code segment of the kernel. -/
def IdtEntry.LeadsTo (g : IdtEntry) (stub : UInt32) : Prop :=
  g.flags.testBit 7 = true ∧ g.sel = 0x08 ∧ g.base = stub.toNat

instance (g : IdtEntry) (stub : UInt32) : Decidable (g.LeadsTo stub) :=
  inferInstanceAs (Decidable (_ ∧ _ ∧ _))

/-! ## Interrupt controllers -/

/-- A programmable interrupt controller. -/
structure Pic where
  /-- the lines that are masked -/
  mask : Nat
  /-- the vector of its first line -/
  offset : Nat
  /-- how many initialisation words it still expects -/
  icw : Nat

/-- A write to the command port.  The first initialisation word has bit 4 set, clears the mask,
and announces three more words; the end of an interrupt leaves all this alone. -/
def Pic.command (p : Pic) (x : Nat) : Pic :=
  if x.testBit 4 then { p with mask := 0, icw := 3 } else p

/-- A write to the data port: an initialisation word, the first of which is the offset, or the
mask. -/
def Pic.data (p : Pic) (x : Nat) : Pic :=
  match p.icw with
  | 0 => { p with mask := x }
  | 3 => { p with offset := x, icw := 2 }
  | n + 1 => { p with icw := n }

/-- A request on line `n` gets through. -/
def Pic.passes (p : Pic) (n : Nat) : Bool := p.icw == 0 && !p.mask.testBit n

/-- The vector of line `n`. -/
def Pic.vector (p : Pic) (n : Nat) : Nat := p.offset / 8 * 8 + n

/-! ## State -/

/-- The functions that are registered with `irq_register_handler`. -/
inductive Handler
  | /-- `timer_handler` -/ timer
  | /-- `keyboard_handler` -/ keyboard

/-- The state of the machine. -/
structure Cpu where
  /-- `idt` -/
  idt : Nat → IdtEntry
  /-- whether `lidt` has been executed -/
  idtLoaded : Bool
  /-- the interrupt flag -/
  iflag : Bool
  /-- the master controller -/
  pic1 : Pic
  /-- the slave controller, at line 2 of the master -/
  pic2 : Pic
  /-- the local variable `mask1` of `pic_remap` -/
  mask1 : Nat
  /-- the local variable `mask2` of `pic_remap` -/
  mask2 : Nat
  /-- `irq_handlers` -/
  irqHandlers : Nat → Option Handler
  /-- `timer_ticks` -/
  timerTicks : Nat
  /-- `timer_frequency` -/
  timerFrequency : Nat
  /-- an interrupt was delivered that did not reach `irq_handler` -/
  lost : Bool

/-! ## Operations -/

/-- What the kernel executes in one step. -/
inductive Op
  | /-- a store of `idt_set_gate` to `idt[num]` -/ gate (num : Nat) (st : GateStore)
  | /-- `outb(port, value)` -/ outb (port value : Nat)
  | /-- `mask1 = inb(PIC1_DATA)` -/ inMask1
  | /-- `mask2 = inb(PIC2_DATA)` -/ inMask2
  | /-- `outb(PIC1_DATA, mask1)` -/ outMask1
  | /-- `outb(PIC2_DATA, mask2)` -/ outMask2
  | /-- `idt_load(&idtp)` -/ idtLoad
  | /-- `enable_interrupts()` -/ enableInterrupts
  | /-- `timer_frequency = frequency` -/ setFrequency (frequency : Nat)
  | /-- `timer_ticks = 0` -/ resetTicks
  | /-- `irq_register_handler(irq, handler)` -/
    irqRegisterHandler (irq : Nat) (handler : Handler)
  | /-- `timer_sleep_ms(ms)` -/ timerSleepMs (ms : Nat)
  | /-- `while (timer_ticks < stop) halt()` -/ wait (stop : Nat)
  | /-- `shell_run()` -/ shellRun
  | /-- Calls and stores that concern none of this. -/ other

/-- `outb` -/
def Cpu.outb (c : Cpu) (port value : Nat) : Cpu :=
  if port = 0x20 then { c with pic1 := c.pic1.command value }
  else if port = 0x21 then { c with pic1 := c.pic1.data value }
  else if port = 0xA0 then { c with pic2 := c.pic2.command value }
  else if port = 0xA1 then { c with pic2 := c.pic2.data value }
  else c

/-- The operations that take one step and are done. -/
def Op.exec (c : Cpu) : Op → Cpu
  | .gate num st => { c with idt := update c.idt num ((c.idt num).store st) }
  | .outb port value => c.outb port value
  | .inMask1 => { c with mask1 := c.pic1.mask }
  | .inMask2 => { c with mask2 := c.pic2.mask }
  | .outMask1 => c.outb 0x21 c.mask1
  | .outMask2 => c.outb 0xA1 c.mask2
  | .idtLoad => { c with idtLoaded := true }
  | .enableInterrupts => { c with iflag := true }
  | .setFrequency frequency => { c with timerFrequency := frequency }
  | .resetTicks => { c with timerTicks := 0 }
  | .irqRegisterHandler irq handler =>
      if irq < 16 then { c with irqHandlers := update c.irqHandlers irq (some handler) } else c
  | .timerSleepMs _ | .wait _ | .shellRun | .other => c

/-- The number of ticks that `timer_sleep_ms` waits for. -/
def sleepTicks (c : Cpu) (ms : Nat) : Nat :=
  let ticks := mul32 ms c.timerFrequency / 1000
  if ticks = 0 then 1 else ticks

/-- A machine, with what it has still to do. -/
structure Machine where
  /-- the state -/
  cpu : Cpu
  /-- the operations that are left -/
  todo : List Op

/-- The next step of the kernel itself. -/
def Machine.next (m : Machine) : Option Machine :=
  match m.todo with
  | [] => none
  | .timerSleepMs ms :: rest =>
      some { m with todo := .wait (add32 m.cpu.timerTicks (sleepTicks m.cpu ms)) :: rest }
  | .wait stop :: rest => some (if m.cpu.timerTicks < stop then m else { m with todo := rest })
  | .shellRun :: _ => some m
  | op :: rest => some ⟨op.exec m.cpu, rest⟩

/-! ## Interrupts -/

/-- Whether a request on one of the 16 lines reaches the processor. -/
def Cpu.passes (c : Cpu) (irq : Nat) : Bool :=
  if irq < 8 then c.pic1.passes irq else c.pic1.passes 2 && c.pic2.passes (irq - 8)

/-- The vector that the controllers give for a line. -/
def Cpu.vector (c : Cpu) (irq : Nat) : Nat :=
  if irq < 8 then c.pic1.vector irq else c.pic2.vector (irq - 8)

/-- `irq_handler`.  The keyboard handler changes only the state of the keyboard. -/
def irqHandler (c : Cpu) (irq : Nat) : Cpu :=
  let c :=
    match c.irqHandlers irq with
    | some .timer => { c with timerTicks := add32 c.timerTicks 1 }
    | _ => c
  let c := if 8 ≤ irq then c.outb 0xA0 0x20 else c
  c.outb 0x20 0x20

/-- The delivery of an interrupt.  The stubs of the vectors 32 to 47 call `irq_handler`; all
other gates lead astray. -/
def Cpu.deliver (stubs : Nat → UInt32) (c : Cpu) (irq : Nat) : Cpu :=
  let v := c.vector irq
  if c.idtLoaded = true ∧ (c.idt v).LeadsTo (stubs v) ∧ 32 ≤ v ∧ v < 48 then irqHandler c (v - 32)
  else { c with lost := true }

/-- What happens in a machine. -/
inductive Event
  | /-- the kernel takes a step -/ run
  | /-- a command of the shell disables interrupts for good -/ stop
  | /-- an interrupt is delivered -/ irq (n : Nat)

/-- One step of a machine, unless an interrupt was lost. -/
def Step (stubs : Nat → UInt32) (m : Machine) : Event → Machine → Prop
  | .run, m' => m.cpu.lost = false ∧ m.next = some m'
  | .stop, m' => m.cpu.lost = false ∧ m.todo.head? = some .shellRun ∧
      m' = { m with cpu := { m.cpu with iflag := false } }
  | .irq n, m' => m.cpu.lost = false ∧ n < 16 ∧ m.cpu.iflag = true ∧ m.cpu.passes n = true ∧
      m' = { m with cpu := m.cpu.deliver stubs n }

end KontolOS.Boot
