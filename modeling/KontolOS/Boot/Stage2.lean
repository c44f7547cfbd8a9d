import KontolOS.Boot.Image
import KontolOS.Lib.Geometry
import KontolOS.Lib.Loop
import KontolOS.Lib.Memory

/-!
# The second stage of the boot loader

From `stage2_start` to the call of `kernel_main`: the kernel is read from the disk sector by
sector, below 1 MB, where the BIOS can put it, and is copied in protected mode to the address that
it is linked for.  The BIOS is a parameter.  Registers that are pushed and popped again keep their
values, and the stack that they are on meanwhile, below `KERNEL_TEMP_ADDR`, is not modelled; nor
are the segments of `setup_gdt`, which start at 0 and do not change an address.
-/

namespace KontolOS.Boot

open KontolOS.Lib

/-! ## Constants -/

/-- `KERNEL_LOAD_ADDR` -/
def kernelLoadAddr : Nat := 0x100000

/-- `KERNEL_TEMP_SEG` -/
def kernelTempSeg : UInt16 := 0x2000

/-- `KERNEL_TEMP_ADDR` -/
def kernelTempAddr : Nat := 0x20000

/-- `KERNEL_SECTORS` -/
def kernelSectors : Nat := 48

/-! ## The machine -/

/-- The memory, and what else matters before the kernel runs. -/
structure Pc where
  /-- the memory, by physical address -/
  mem : Mem
  /-- the value at port `0x92` -/
  port92 : Nat
  /-- the number of calls of the BIOS so far -/
  calls : Nat

namespace Pc

/-- The physical address.  While bit 1 of port `0x92` is clear the line A20 is low, and with it
bit 20 of every address. -/
def phys (pc : Pc) (a : Nat) : Nat :=
  if pc.port92.testBit 1 then a else a / 2 ^ 21 * 2 ^ 21 + a % 2 ^ 20

/-- Load a byte. -/
def load8 (pc : Pc) (a : Nat) : UInt8 := pc.mem (pc.phys a)

/-- Store a byte. -/
def store8 (pc : Pc) (a : Nat) (v : UInt8) : Pc := { pc with mem := pc.mem.store8 (pc.phys a) v }

/-- Load a word. -/
def load32 (pc : Pc) (a : Nat) : Nat := pc.mem.load32 (pc.phys a)

/-- Store a word. -/
def store32 (pc : Pc) (a v : Nat) : Pc := { pc with mem := pc.mem.store32 (pc.phys a) v }

/-- Store some bytes, one after the other. -/
def pokes (pc : Pc) (vs : List (Nat × UInt8)) : Pc := vs.foldl (fun pc v ↦ pc.store8 v.1 v.2) pc

end Pc

/-! ## The BIOS -/

/-- The registers that `int 0x13` is given. -/
structure Regs where
  ax : UInt16
  bx : UInt16
  ch : UInt8
  cl : UInt8
  dh : UInt8
  dl : UInt8
  es : UInt16

/-- The address of the buffer, `es:bx`. -/
def Regs.buffer (r : Regs) : Nat := 16 * r.es.toNat + r.bx.toNat

/-- The sector that is asked for.  The upper two bits of `cl` belong to the cylinder. -/
def Regs.chs (r : Regs) : Chs :=
  ⟨r.ch.toNat + 256 * (r.cl.toNat / 64), r.dh.toNat, r.cl.toNat % 64⟩

/-- The services of the BIOS.  What they do may depend on how often they were called before. -/
structure Bios where
  /-- `int 0x13`, with the carry flag that it returns -/
  int13 : Nat → Regs → Mem → Bool × Mem
  /-- `int 0x10` with `ah = 0x0E`, for the character in `al` -/
  int10 : Nat → UInt8 → Mem → Mem

/-- A call of `int 0x13`. -/
def Bios.disk (b : Bios) (r : Regs) (pc : Pc) : Bool × Pc :=
  let (carry, mem) := b.int13 pc.calls r pc.mem
  (carry, { pc with mem := mem, calls := pc.calls + 1 })

/-- A call of `int 0x10`. -/
def Bios.teletype (b : Bios) (pc : Pc) (c : UInt8) : Pc :=
  { pc with mem := b.int10 pc.calls c pc.mem, calls := pc.calls + 1 }

/-! ## Real mode -/

/-- `print16` -/
def print16 (b : Bios) (msg : String) (pc : Pc) : Pc :=
  (msg.toList.map fun c ↦ c.toNat.toUInt8).foldl b.teletype pc

def msgStage2 : String := "\r\n[Stage 2] Started\r\n"
def msgA20 : String := "[Stage 2] A20 OK\r\n"
def msgLoading : String := "[Stage 2] Loading kernel...\r\n"
def msgLoaded : String := "[Stage 2] Kernel loaded\r\n"
def msgGdt : String := "[Stage 2] GDT OK\r\n"
def msgPmode : String := "[Stage 2] Entering PM...\r\n"

/-- `enable_a20` -/
def enableA20 (pc : Pc) : Pc := { pc with port92 := pc.port92 ||| 2 }

/-- `.retry`, when `di` tries are left: after an error the disk is reset. -/
def retry (b : Bios) (r : Regs) : Nat → Pc → Option Pc
  | 0, _ => none
  | di + 1, pc =>
      let (carry, pc) := b.disk r pc
      if carry then retry b r di (b.disk { r with ax := 0 } pc).2 else some pc

/-- The registers for the next sector, on this track, on the other side, or on the next cylinder. -/
def nextSector (r : Regs) : Regs :=
  let r := { r with cl := r.cl + 1 }
  if r.cl < 19 then r
  else
    let r := { r with cl := 1, dh := r.dh + 1 }
    if r.dh < 2 then r else { r with dh := 0, ch := r.ch + 1 }

/-- The registers after a sector: the buffer is 32 paragraphs further on. -/
def advance (r : Regs) : Regs :=
  let ax := r.es + 0x20
  nextSector { r with ax := ax, es := ax }

/-- One round of `.loop`. -/
def loadSector (b : Bios) (bootDrive : UInt8) (s : Regs × Pc) : Option (Regs × Pc) := do
  let r := { s.1 with ax := 0x0201, dl := bootDrive }
  let pc ← retry b r 3 s.2
  return (advance r, pc)

/-- `load_kernel`, which stops the machine when a sector cannot be read. -/
def loadKernel (b : Bios) (bootDrive : UInt8) (pc : Pc) : Option Pc := do
  let r : Regs :=
    { ax := kernelTempSeg, bx := 0, ch := 0, cl := 18, dh := 0, dl := bootDrive,
      es := kernelTempSeg }
  let (_, pc) ← forLoop (fun _ ↦ loadSector b bootDrive) 0 kernelSectors (r, pc)
  return pc

/-! ## Protected mode -/

/-- `rep movsd` -/
def repMovsd : Nat → Nat → Nat → Pc → Pc
  | 0, _, _, pc => pc
  | ecx + 1, esi, edi, pc => repMovsd ecx (esi + 4) (edi + 4) (pc.store32 edi (pc.load32 esi))

/-- `pmode_entry`, up to the jump to `KERNEL_LOAD_ADDR`. -/
def pmodeEntry (pc : Pc) : Pc :=
  let pc := pc.pokes [(0xB8000, 0x50), (0xB8001, 0x0A), (0xB8002, 0x4D), (0xB8003, 0x0A)]
  let pc := repMovsd (kernelSectors * 512 / 4) kernelTempAddr kernelLoadAddr pc
  let pc := pc.pokes [(0xB8004, 0x43), (0xB8005, 0x0A)]
  let pc := pc.pokes [(0xB8006, pc.load8 kernelTempAddr + 0x30), (0xB8007, 0x0E)]
  let pc := pc.pokes [(0xB8008, pc.load8 kernelLoadAddr + 0x30), (0xB8009, 0x0E)]
  pc.pokes [(0xB800A, 0x4A), (0xB800B, 0x0A)]

/-- `_start` of `kernel_entry.asm`, up to and with the call of `kernel_main`, which pushes the
address of the instruction behind it. -/
def start (pc : Pc) : Pc :=
  let pc := pc.pokes [(0xB8008, 0x4B), (0xB8009, 0x0E)]
  let esp := 0x90000
  let pc := pc.pokes [(0xB800A, 0x53), (0xB800B, 0x0E), (0xB800C, 0x43), (0xB800D, 0x0E)]
  pc.store32 (esp - 4) (kernelLoadAddr + 0x35)

/-- `stage2_start`, with the boot drive in `dl`, and from there to the first instruction of
`kernel_main`. -/
def handover (b : Bios) (dl : UInt8) (pc : Pc) : Option Pc := do
  let pc := print16 b msgStage2 pc
  let pc := print16 b msgA20 (enableA20 pc)
  let pc := print16 b msgLoading pc
  let pc ← loadKernel b dl pc
  let pc := print16 b msgLoaded pc
  let pc := print16 b msgGdt pc
  let pc := print16 b msgPmode pc
  return start (pmodeEntry pc)

end KontolOS.Boot
