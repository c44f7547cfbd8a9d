import Mathlib.Data.List.Basic
import KontolOS.Boot.Machine

/-!
# The boot sequence

`kernel_main` and the functions that it calls, as lists of operations, and what their
straight-line parts leave behind: after the stores, port writes and registrations up to
`enable_interrupts` every gate below 48 leads to its stub, and the interrupt controllers are
remapped.
-/

namespace KontolOS.Boot

open KontolOS.Lib Function

/-! ## Programs -/

/-- `idt_set_gate` -/
def idtSetGate (num : Nat) (base : UInt32) (sel flags : Nat) : List Op :=
  [.gate num (.baseLow (base.toNat &&& 0xFFFF)),
    .gate num (.baseHigh (base.toNat >>> 16 &&& 0xFFFF)),
    .gate num (.sel sel),
    .gate num (.always0 0),
    .gate num (.flags flags)]

/-- `io_wait` -/
def ioWait : Op := .outb 0x80 0

/-- `pic_remap` -/
def picRemap : List Op :=
  [.inMask1, .inMask2,
    .outb 0x20 0x11, ioWait, .outb 0xA0 0x11, ioWait,
    .outb 0x21 0x20, ioWait, .outb 0xA1 0x28, ioWait,
    .outb 0x21 4, ioWait, .outb 0xA1 2, ioWait,
    .outb 0x21 1, ioWait, .outb 0xA1 1, ioWait,
    .outMask1, .outMask2]

/-- The loop of `idt_init` that clears the table. -/
def clearGates (nums : List Nat) : List Op := nums.flatMap fun i ↦ idtSetGate i 0 0 0

/-- The calls of `idt_init` that set gates to their stubs: `isr0` to `isr31` for the vectors
0 to 31, `irq0` to `irq15` for the vectors 32 to 47. -/
def stubGates (stubs : Nat → UInt32) (nums : List Nat) : List Op :=
  nums.flatMap fun i ↦ idtSetGate i (stubs i) 0x08 0x8E

/-- `idt_init` up to its last call. -/
def idtFill (stubs : Nat → UInt32) : List Op :=
  .other :: clearGates (List.range 256) ++ stubGates stubs (List.range 32) ++ picRemap ++
    stubGates stubs (List.range' 32 16) ++ [.idtLoad]

/-- `idt_init` -/
def idtInit (stubs : Nat → UInt32) : List Op := idtFill stubs ++ [.enableInterrupts]

/-- `timer_init` -/
def timerInit (frequency : Nat) : List Op :=
  let divisor := 1193182 / frequency
  [.setFrequency frequency, .resetTicks, .outb 0x43 0x36, .outb 0x40 (divisor &&& 0xFF),
    .outb 0x40 (divisor >>> 8 &&& 0xFF), .irqRegisterHandler 0 .timer]

/-- `keyboard_init` -/
def keyboardInit : List Op := [.other, .irqRegisterHandler 1 .keyboard]

/-- The loop of `show_splash_screen`. -/
def splashLoop (n : Nat) : List Op :=
  (List.replicate n [Op.other, .timerSleepMs (3000 / 40)]).flatten

/-- `show_splash_screen` -/
def showSplashScreen : List Op := .other :: splashLoop 40 ++ [.timerSleepMs 200, .other]

/-- `init_system` -/
def initSystem (stubs : Nat → UInt32) : List Op :=
  .other :: idtInit stubs ++ .other :: timerInit 100 ++ .other :: keyboardInit ++ [.other]

/-- `kernel_main` -/
def kernelMain (stubs : Nat → UInt32) : List Op :=
  .other :: idtInit stubs ++ timerInit 100 ++ showSplashScreen ++ initSystem stubs ++
    [.other, .shellRun]

/-! ## Straight-line code -/

/-- The operations that are done after one step. -/
def Op.Plain : Op → Prop
  | .timerSleepMs _ | .wait _ | .shellRun => False
  | _ => True

/-- The state after a list of plain operations. -/
def execs (ops : List Op) (c : Cpu) : Cpu := ops.foldl Op.exec c

theorem execs_cons (op : Op) (ops : List Op) (c : Cpu) :
    execs (op :: ops) c = execs ops (op.exec c) := rfl

theorem execs_append (ops ops' : List Op) (c : Cpu) :
    execs (ops ++ ops') c = execs ops' (execs ops c) := List.foldl_append

/-- The gate that `idt_set_gate` leaves behind. -/
def gateOf (base : UInt32) (sel flags : Nat) : IdtEntry :=
  ⟨base.toNat &&& 0xFFFF, sel, 0, flags, base.toNat >>> 16 &&& 0xFFFF⟩

/-- `idt_set_gate` sets one gate. -/
theorem execs_idtSetGate (num : Nat) (base : UInt32) (sel flags : Nat) (c : Cpu) :
    execs (idtSetGate num base sel flags) c =
      { c with idt := update c.idt num (gateOf base sel flags) } := by
  simp only [idtSetGate, execs, List.foldl_cons, List.foldl_nil, Op.exec, update_idem,
    update_self]
  rfl

/-- A loop of `idt_set_gate` sets all the gates of its list. -/
theorem execs_setGates (base : Nat → UInt32) (sel flags : Nat) (nums : List Nat) (c : Cpu) :
    execs (nums.flatMap fun i ↦ idtSetGate i (base i) sel flags) c =
      { c with idt := fun v ↦ if v ∈ nums then gateOf (base v) sel flags else c.idt v } := by
  induction nums generalizing c with
  | nil => rfl
  | cons num nums ih =>
      rw [List.flatMap_cons, execs_append, execs_idtSetGate, ih]
      congr 1
      funext v
      by_cases hv : v ∈ nums
      · rw [if_pos hv, if_pos (List.mem_cons_of_mem _ hv)]
      · rw [if_neg hv]
        by_cases hnum : v = num
        · subst hnum
          rw [if_pos List.mem_cons_self]
          exact update_self ..
        · rw [if_neg (List.not_mem_cons_of_ne_of_not_mem hnum hv)]
          exact update_of_ne hnum ..

/-- `pic_remap` sets the offsets, and leaves no controller waiting. -/
theorem execs_picRemap (c : Cpu) :
    execs picRemap c =
      { c with
        pic1 := ⟨c.pic1.mask, 0x20, 0⟩
        pic2 := ⟨c.pic2.mask, 0x28, 0⟩
        mask1 := c.pic1.mask
        mask2 := c.pic2.mask } := by
  cases c
  rfl

/-- The gate leads to the address that was given to `idt_set_gate`. -/
theorem leadsTo_gateOf (stub : UInt32) : (gateOf stub 0x08 0x8E).LeadsTo stub := by
  refine ⟨show Nat.testBit 0x8E 7 = true by decide, rfl, ?_⟩
  have hlow : stub.toNat &&& 0xFFFF = stub.toNat % 2 ^ 16 := Nat.and_two_pow_sub_one_eq_mod _ 16
  have hhigh : stub.toNat >>> 16 &&& 0xFFFF = stub.toNat / 2 ^ 16 % 2 ^ 16 := by
    rw [Nat.shiftRight_eq_div_pow]
    exact Nat.and_two_pow_sub_one_eq_mod _ 16
  have hlt := stub.toNat_lt
  simp only [IdtEntry.base, gateOf, hlow, hhigh]
  omega

/-- A cleared gate is not present. -/
theorem not_leadsTo_clear (base stub : UInt32) (sel : Nat) :
    ¬ (gateOf base sel 0).LeadsTo stub := by
  rintro ⟨hpresent, -⟩
  exact Bool.false_ne_true ((Nat.zero_testBit 7).symm.trans hpresent)

/-! ## The table is filled -/

/-- **Interrupts may be delivered**: every gate below 48 leads to its stub, the table is loaded,
and the controllers send their lines to the vectors from 32 on. -/
structure Ready (stubs : Nat → UInt32) (c : Cpu) : Prop where
  /-- every gate leads to its stub -/
  leadsTo : ∀ v < 48, (c.idt v).LeadsTo (stubs v)
  /-- the table is in use -/
  loaded : c.idtLoaded = true
  /-- the master is remapped -/
  pic1 : c.pic1.offset = 0x20 ∧ c.pic1.icw = 0
  /-- the slave is remapped -/
  pic2 : c.pic2.offset = 0x28 ∧ c.pic2.icw = 0
  /-- no interrupt was lost -/
  found : c.lost = false

/-- What `idt_init` leaves behind before it enables interrupts. -/
theorem execs_idtFill (stubs : Nat → UInt32) (c : Cpu) :
    execs (idtFill stubs) c =
      { c with
        idt := fun v ↦
          if v ∈ List.range' 32 16 then gateOf (stubs v) 0x08 0x8E
          else if v ∈ List.range 32 then gateOf (stubs v) 0x08 0x8E
          else if v ∈ List.range 256 then gateOf 0 0 0 else c.idt v
        idtLoaded := true
        pic1 := ⟨c.pic1.mask, 0x20, 0⟩
        pic2 := ⟨c.pic2.mask, 0x28, 0⟩
        mask1 := c.pic1.mask
        mask2 := c.pic2.mask } := by
  rw [idtFill, execs_append, execs_append, execs_append, execs_append, execs_cons, execs_cons,
    clearGates, execs_setGates fun _ ↦ 0, stubGates, execs_setGates, execs_picRemap, stubGates,
    execs_setGates]
  rfl

/-- `idt_init` makes the machine ready before it enables interrupts. -/
theorem ready_idtFill (stubs : Nat → UInt32) {c : Cpu} (hlost : c.lost = false) :
    Ready stubs (execs (idtFill stubs) c) := by
  rw [execs_idtFill]
  refine ⟨fun v hv ↦ ?_, rfl, ⟨rfl, rfl⟩, ⟨rfl, rfl⟩, hlost⟩
  change IdtEntry.LeadsTo (ite _ _ _) _
  by_cases hirq : v ∈ List.range' 32 16
  · rw [if_pos hirq]
    exact leadsTo_gateOf _
  · have hisr : v ∈ List.range 32 := by
      rw [List.mem_range'_1] at hirq
      exact List.mem_range.mpr (by omega)
    rw [if_neg hirq, if_pos hisr]
    exact leadsTo_gateOf _

end KontolOS.Boot
