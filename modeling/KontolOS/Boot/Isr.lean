import KontolOS.Lib.Stack

/-!
# The interrupt stubs

What `src/kernel/isr.asm` does around the handlers written in C, instruction by instruction, on
the registers of the processor and a memory of bytes.  While a stub runs, what is left of its
code stands for its instruction pointer, and `eip` keeps the address in the interrupted program.
The kernel has one privilege level, so the processor does not change the stack: it pushes
`eflags`, `cs` and `eip`, and for some vectors an error code.

A handler is a relation between the state at its first instruction and the state right after its
`ret`; nothing is said here about what it does.
-/

namespace KontolOS.Boot

open KontolOS.Lib

/-! ## The processor -/

/-- The registers. -/
structure Registers where
  /-- the general registers -/
  (eax ecx edx ebx esp ebp esi edi : BitVec 32)
  /-- the segment registers -/
  (cs ds es fs gs ss : BitVec 16)
  /-- the address of the next instruction -/
  eip : BitVec 32
  /-- the flags -/
  eflags : BitVec 32

/-- A processor with its memory. -/
structure Core where
  /-- the registers -/
  regs : Registers
  /-- the memory -/
  mem : FlatMem

namespace Core

/-- `push w` -/
def push (c : Core) (w : BitVec 32) : Core :=
  ⟨{ c.regs with esp := c.regs.esp - 4 }, c.mem.store (c.regs.esp - 4) w⟩

/-- `pusha` -/
def pusha (c : Core) : Core :=
  [c.regs.eax, c.regs.ecx, c.regs.edx, c.regs.ebx, c.regs.esp, c.regs.ebp, c.regs.esi,
    c.regs.edi].foldl push c

/-- `popa`, which skips the stack pointer that `pusha` has pushed. -/
def popa (c : Core) : Core :=
  let esp := c.regs.esp
  { c with regs := { c.regs with
      edi := c.mem.load esp
      esi := c.mem.load (esp + 4)
      ebp := c.mem.load (esp + 8)
      ebx := c.mem.load (esp + 16)
      edx := c.mem.load (esp + 20)
      ecx := c.mem.load (esp + 24)
      eax := c.mem.load (esp + 28)
      esp := esp + 32 } }

/-- `iret` -/
def iret (c : Core) : Core :=
  let esp := c.regs.esp
  { c with regs := { c.regs with
      eip := c.mem.load esp
      cs := (c.mem.load (esp + 4)).setWidth 16
      eflags := c.mem.load (esp + 8)
      esp := esp + 12 } }

/-- The register `ax` is set. -/
def setAx (c : Core) (x : BitVec 16) : Core :=
  { c with regs := { c.regs with eax := c.regs.eax.extractLsb' 16 16 ++ x } }

/-- The register `ax`. -/
def ax (c : Core) : BitVec 16 := c.regs.eax.setWidth 16

end Core

/-- The exceptions for which the processor pushes an error code. -/
def pushesErrorCode (v : Nat) : Bool := [8, 10, 11, 12, 13, 14, 17, 21, 29, 30].contains v

/-- The flags that an interrupt gate clears: TF, IF, NT, RF and VM. -/
def gateFlags : BitVec 32 := 0x34300

/-- What the processor does when the interrupt `v` is delivered through its gate. -/
def Core.interrupt (c : Core) (v : Nat) (err : BitVec 32) : Core :=
  let t := ((c.push c.regs.eflags).push (c.regs.cs.setWidth 32)).push c.regs.eip
  let t := if pushesErrorCode v then t.push err else t
  { t with regs := { t.regs with cs := 0x08, eflags := c.regs.eflags &&& ~~~gateFlags } }

/-! ## The stubs -/

/-- The handlers written in C. -/
inductive Symbol
  | isrHandler
  | irqHandler
deriving DecidableEq

/-- The labels that the stubs jump to. -/
inductive Label
  | isrCommonStub
  | irqCommonStub
deriving DecidableEq

/-- The instructions that the stubs are made of. -/
inductive Instr
  | /-- `push dword imm` -/ push (imm : BitVec 32)
  | pusha
  | popa
  | /-- `mov ax, ds` -/ movAxDs
  | /-- `mov ax, imm` -/ movAx (imm : BitVec 16)
  | /-- `mov ds, ax` -/ movDsAx
  | /-- `mov es, ax` -/ movEsAx
  | /-- `mov fs, ax` -/ movFsAx
  | /-- `mov gs, ax` -/ movGsAx
  | /-- `push eax` -/ pushEax
  | /-- `pop eax` -/ popEax
  | /-- `push esp` -/ pushEsp
  | /-- `add esp, imm` -/ addEsp (imm : BitVec 32)
  | /-- `call` of a handler -/ call (f : Symbol)
  | /-- `jmp` to a common stub -/ jmp (l : Label)
  | iret
deriving DecidableEq

/-- The common stubs, which differ in the handler they call. -/
def commonStub (f : Symbol) : List Instr :=
  [.pusha, .movAxDs, .pushEax, .movAx 0x10, .movDsAx, .movEsAx, .movFsAx, .movGsAx, .pushEsp,
    .call f, .addEsp 4, .popEax, .movDsAx, .movEsAx, .movFsAx, .movGsAx, .popa, .addEsp 8, .iret]

/-- `isr_common_stub` -/
def isrCommonStub : List Instr := commonStub .isrHandler

/-- `irq_common_stub` -/
def irqCommonStub : List Instr := commonStub .irqHandler

/-- The code at a label. -/
def Label.code : Label → List Instr
  | .isrCommonStub => Boot.isrCommonStub
  | .irqCommonStub => Boot.irqCommonStub

/-- The stub of an exception without an error code, which pushes 0 for it. -/
def isrStub (v : BitVec 32) : List Instr := [.push 0, .push v, .jmp .isrCommonStub]

/-- The stub of an exception with an error code. -/
def isrErrStub (v : BitVec 32) : List Instr := [.push v, .jmp .isrCommonStub]

/-- The stub of an interrupt request. -/
def irqStub (v : BitVec 32) : List Instr := [.push 0, .push v, .jmp .irqCommonStub]

/-! The stubs under their names -/

def isr0 : List Instr := isrStub 0
def isr1 : List Instr := isrStub 1
def isr2 : List Instr := isrStub 2
def isr3 : List Instr := isrStub 3
def isr4 : List Instr := isrStub 4
def isr5 : List Instr := isrStub 5
def isr6 : List Instr := isrStub 6
def isr7 : List Instr := isrStub 7
def isr8 : List Instr := isrErrStub 8
def isr9 : List Instr := isrStub 9
def isr10 : List Instr := isrErrStub 10
def isr11 : List Instr := isrErrStub 11
def isr12 : List Instr := isrErrStub 12
def isr13 : List Instr := isrErrStub 13
def isr14 : List Instr := isrErrStub 14
def isr15 : List Instr := isrStub 15
def isr16 : List Instr := isrStub 16
def isr17 : List Instr := isrErrStub 17
def isr18 : List Instr := isrStub 18
def isr19 : List Instr := isrStub 19
def isr20 : List Instr := isrStub 20
def isr21 : List Instr := isrErrStub 21
def isr22 : List Instr := isrStub 22
def isr23 : List Instr := isrStub 23
def isr24 : List Instr := isrStub 24
def isr25 : List Instr := isrStub 25
def isr26 : List Instr := isrStub 26
def isr27 : List Instr := isrStub 27
def isr28 : List Instr := isrStub 28
def isr29 : List Instr := isrErrStub 29
def isr30 : List Instr := isrErrStub 30
def isr31 : List Instr := isrStub 31

def irq0 : List Instr := irqStub 32
def irq1 : List Instr := irqStub 33
def irq2 : List Instr := irqStub 34
def irq3 : List Instr := irqStub 35
def irq4 : List Instr := irqStub 36
def irq5 : List Instr := irqStub 37
def irq6 : List Instr := irqStub 38
def irq7 : List Instr := irqStub 39
def irq8 : List Instr := irqStub 40
def irq9 : List Instr := irqStub 41
def irq10 : List Instr := irqStub 42
def irq11 : List Instr := irqStub 43
def irq12 : List Instr := irqStub 44
def irq13 : List Instr := irqStub 45
def irq14 : List Instr := irqStub 46
def irq15 : List Instr := irqStub 47

/-- The stubs that the gates 0 to 47 lead to. -/
def stubs : List (List Instr) :=
  [isr0, isr1, isr2, isr3, isr4, isr5, isr6, isr7, isr8, isr9, isr10, isr11, isr12, isr13,
    isr14, isr15, isr16, isr17, isr18, isr19, isr20, isr21, isr22, isr23, isr24, isr25, isr26,
    isr27, isr28, isr29, isr30, isr31,
    irq0, irq1, irq2, irq3, irq4, irq5, irq6, irq7, irq8, irq9, irq10, irq11, irq12, irq13,
    irq14, irq15]

/-- The stub of a vector. -/
def stub (v : Nat) : List Instr := stubs.getD v []

/-! ## Running them -/

/-- What the instructions do that go on to the next one. -/
def Instr.exec (c : Core) : Instr → Core
  | .push imm => c.push imm
  | .pusha => c.pusha
  | .popa => c.popa
  | .movAxDs => c.setAx c.regs.ds
  | .movAx imm => c.setAx imm
  | .movDsAx => { c with regs := { c.regs with ds := c.ax } }
  | .movEsAx => { c with regs := { c.regs with es := c.ax } }
  | .movFsAx => { c with regs := { c.regs with fs := c.ax } }
  | .movGsAx => { c with regs := { c.regs with gs := c.ax } }
  | .pushEax => c.push c.regs.eax
  | .popEax =>
      { c with regs := { c.regs with eax := c.mem.load c.regs.esp, esp := c.regs.esp + 4 } }
  | .pushEsp => c.push c.regs.esp
  | .addEsp imm => { c with regs := { c.regs with esp := c.regs.esp + imm } }
  | .call _ | .jmp _ | .iret => c

/-- Where the processor is. -/
inductive Config
  | /-- in a stub, with `code` left -/ stub (code : List Instr) (c : Core)
  | /-- at the first instruction of a handler, which is called with `code` left -/
    handler (f : Symbol) (c : Core) (code : List Instr)
  | /-- back in the interrupted program -/ done (c : Core)

/-- The next step of the processor in a stub; `ret` is the address behind the `call`. -/
def Config.next (ret : BitVec 32) : Config → Option Config
  | .stub (.call f :: code) c => some (.handler f (c.push ret) code)
  | .stub (.jmp l :: _) c => some (.stub l.code c)
  | .stub (.iret :: _) c => some (.done c.iret)
  | .stub (i :: code) c => some (.stub code (i.exec c))
  | .stub [] _ | .handler .. | .done _ => none

/-- One step, with the handlers `H`: a step of a stub, or a handler returns. -/
inductive StubStep (H : Symbol → Core → Core → Prop) (ret : BitVec 32) : Config → Config → Prop
  | /-- The next instruction of a stub. -/
    next {x y : Config} (h : x.next ret = some y) : StubStep H ret x y
  | /-- A handler is done, and returns behind its call. -/
    back {f : Symbol} {t u : Core} {code : List Instr} (h : H f t u)
      (hret : u.regs.eip = ret) : StubStep H ret (.handler f t code) (.stub code u)

/-- Any number of steps. -/
def StubSteps (H : Symbol → Core → Core → Prop) (ret : BitVec 32) : Config → Config → Prop :=
  Relation.ReflTransGen (StubStep H ret)

/-! ## What a handler gets, and what it must see to -/

/-- `struct interrupt_frame` -/
structure InterruptFrame where
  (ds edi esi ebp esp ebx edx ecx eax intNo errCode eip cs eflags useresp ss : BitVec 32)

/-- `*frame` -/
def readFrame (m : FlatMem) (frame : BitVec 32) : InterruptFrame where
  ds := m.load frame
  edi := m.load (frame + 4)
  esi := m.load (frame + 8)
  ebp := m.load (frame + 12)
  esp := m.load (frame + 16)
  ebx := m.load (frame + 20)
  edx := m.load (frame + 24)
  ecx := m.load (frame + 28)
  eax := m.load (frame + 32)
  intNo := m.load (frame + 36)
  errCode := m.load (frame + 40)
  eip := m.load (frame + 44)
  cs := m.load (frame + 48)
  eflags := m.load (frame + 52)
  useresp := m.load (frame + 56)
  ss := m.load (frame + 60)

/-- The bytes of the frame that are there: the last two words are pushed only if the privilege
level changes. -/
def frameSize : Nat := 56

/-- The argument of a handler at its first instruction: the pointer above the return address. -/
def Core.frame (t : Core) : BitVec 32 := t.mem.load (t.regs.esp + 4)

/-- A handler that is called in the state `t` and returns in the state `u` obeys cdecl. -/
structure Cdecl (t u : Core) : Prop where
  /-- it returns to its caller -/
  eip : u.regs.eip = t.mem.load t.regs.esp
  /-- which is to remove the arguments -/
  esp : u.regs.esp = t.regs.esp + 4
  /-- the other registers that belong to its caller are as before -/
  saved : u.regs.ebx = t.regs.ebx ∧ u.regs.esi = t.regs.esi ∧ u.regs.edi = t.regs.edi ∧
    u.regs.ebp = t.regs.ebp
  /-- and so are the segments of code and stack -/
  segs : u.regs.cs = t.regs.cs ∧ u.regs.ss = t.regs.ss

/-- It leaves the frame unchanged. -/
def KeepsFrame (t u : Core) : Prop :=
  ∀ i < frameSize, u.mem (t.frame + BitVec.ofNat 32 i) = t.mem (t.frame + BitVec.ofNat 32 i)

/-- The frame `f` tells of the interrupt `v` in the state `c`. -/
structure Tells (f : InterruptFrame) (c : Core) (v : Nat) (err : BitVec 32) : Prop where
  /-- the general registers but the stack pointer -/
  general : f.eax = c.regs.eax ∧ f.ecx = c.regs.ecx ∧ f.edx = c.regs.edx ∧ f.ebx = c.regs.ebx ∧
    f.ebp = c.regs.ebp ∧ f.esi = c.regs.esi ∧ f.edi = c.regs.edi
  /-- the data segment, in the low 16 bits -/
  ds : f.ds.setWidth 16 = c.regs.ds
  /-- where the program was interrupted -/
  eip : f.eip = c.regs.eip
  /-- in which segment -/
  cs : f.cs = c.regs.cs.setWidth 32
  /-- and with which flags -/
  eflags : f.eflags = c.regs.eflags
  /-- the vector -/
  intNo : f.intNo = BitVec.ofNat 32 v
  /-- the error code -/
  errCode : f.errCode = if pushesErrorCode v then err else 0

end KontolOS.Boot
