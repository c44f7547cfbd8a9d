import KontolOS.Boot.Handover

/-!
# From the boot sector to the kernel

`stage1.asm` is what the BIOS loads.  It reads the second stage with a single call, checks the
carry flag and the number of sectors, and jumps there, or stops with a message; the second stage
reads the kernel one sector at a time and tries each of them three times (`src/boot/stage2.asm`).

Here a disk may fail: a call of `int 0x13` that reports an error has read anything or nothing.  What
is run is nevertheless complete (`boot_loads`): stage 1 jumps only to a second stage that is there,
byte for byte, and stage 2 calls `kernel_main` only with every sector of the kernel in its place.
The machine gets there if the call of stage 1 succeeds and no three reads of a sector fail one after
the other.
-/

namespace KontolOS.Boot

open KontolOS.Lib

/-! ## The BIOS -/

/-- What stage 1 uses of the BIOS besides. -/
structure BootBios extends Bios where
  /-- the number of sectors that `int 0x13` returns in `al` -/
  sectorsRead : Nat → Regs → Mem → UInt8
  /-- `int 0x10` with `ah = 0`, for the mode in `al` -/
  setMode : Nat → UInt8 → Mem → Mem

namespace Stage1

/-! ## The boot sector -/

/-- `STAGE2_LOAD_SEGMENT` -/
def stage2LoadSegment : UInt16 := 0x1000

/-- `STAGE2_LOAD_OFFSET` -/
def stage2LoadOffset : UInt16 := 0x0000

/-- `STAGE2_SECTORS` -/
def stage2Sectors : UInt8 := 16

/-- `STAGE2_START_SECTOR` -/
def stage2StartSector : UInt8 := 2

def msgWelcome : String :=
  "========================================\r\n" ++
  "       KontolOS Bootloader v1.0         \r\n" ++
  "========================================\r\n"
def msgLoading : String := "[*] Loading Stage 2...\r\n"
def msgSuccess : String := "[+] Stage 2 loaded successfully!\r\n[*] Jumping to Stage 2...\r\n"
def msgDiskError : String := "[!] DISK ERROR! System halted.\r\n"

/-- `print_string`, which is `print16` of stage 2. -/
def printString (b : BootBios) (msg : String) (pc : Pc) : Pc := print16 b.toBios msg pc

/-- `clear_screen`: mode 3 has 25 lines of 80 characters. -/
def clearScreen (b : BootBios) (pc : Pc) : Pc :=
  { pc with mem := b.setMode pc.calls 0x03 pc.mem, calls := pc.calls + 1 }

/-- The registers for the call that reads stage 2. -/
def readRegs (bootDrive : UInt8) : Regs :=
  { ax := 0x0200 + stage2Sectors.toUInt16, bx := stage2LoadOffset, ch := 0, cl := stage2StartSector
    dh := 0, dl := bootDrive, es := stage2LoadSegment }

/-- `load_stage2`, which returns, or goes to `.disk_error` and from there to `hang`. -/
def loadStage2 (b : BootBios) (bootDrive : UInt8) (r : Regs) (pc : Pc) : Except Pc Pc :=
  let diskError (pc : Pc) : Except Pc Pc := .error (printString b msgDiskError pc)
  let (carry, pc) := b.disk { r with ax := 0, dl := bootDrive } pc
  if carry then diskError pc
  else
    let al := b.sectorsRead pc.calls (readRegs bootDrive) pc.mem
    let (carry, pc) := b.disk (readRegs bootDrive) pc
    if carry then diskError pc
    else if al ≠ stage2Sectors then diskError pc
    else .ok pc

/-- `start`, with the registers that the BIOS leaves: the drive in `dl` at the jump to stage 2, and
the machine, or the machine when it hangs. -/
def start (b : BootBios) (r : Regs) (pc : Pc) : Except Pc (UInt8 × Pc) := do
  let bootDrive := r.dl
  let pc := clearScreen b pc
  let pc := printString b msgWelcome pc
  let pc := printString b msgLoading pc
  let pc ← loadStage2 b bootDrive { r with es := 0 } pc
  let pc := printString b msgSuccess pc
  return (bootDrive, pc)

end Stage1

/-- From the boot sector to the first instruction of `kernel_main`.  The BIOS comes with the stack
that it is called on, which is another one in the second stage. -/
def boot (b₁ b₂ : BootBios) (r : Regs) (pc : Pc) : Option Pc :=
  match Stage1.start b₁ r pc with
  | .error _ => none
  | .ok (dl, pc) => handover b₂.toBios dl pc

/-! ## Assumptions -/

/-- The memory that the BIOS, the stack of stage 1 and the screen may change: what is below the
second stage, and the end of the memory below 1 MB. -/
def Stage1.Reserved (a : Nat) : Prop := a < 0x10000 ∨ 0x80000 ≤ a ∧ a < 0x100000

/-- The BIOS can read `k` sectors to this address. -/
structure Unreserved (R : Nat → Prop) (a k : Nat) : Prop where
  /-- nobody else uses the memory -/
  off : ∀ i < sectorSize * k, ¬ R (a + i)
  /-- the transfer crosses no boundary of 64 KB -/
  page : a % 0x10000 + sectorSize * k ≤ 0x10000

/-- **A BIOS that may fail.**  A read of `k` sectors of one track that reports no error has read as
many sectors as it says, and one at least; whether it reports an error is open, and so is the buffer
then.  No service touches other memory. -/
structure BootBios.Faithful (b : BootBios) (R : Nat → Prop) (drive : UInt8) (disk : List UInt8) :
    Prop where
  read : ∀ n r m k, r.ax.toNat = 0x0200 + k → 1 ≤ k → k < 256 → r.dl = drive → floppy.On r.chs →
    r.chs.sector + k ≤ floppy.sectors + 1 → sectorSize * (floppy.lba r.chs + k) ≤ disk.length →
    Unreserved R r.buffer k →
    ((b.int13 n r m).1 = false → 1 ≤ (b.sectorsRead n r m).toNat ∧
      ∀ i < sectorSize * min k (b.sectorsRead n r m).toNat,
        (b.int13 n r m).2 (r.buffer + i) = disk[sectorSize * floppy.lba r.chs + i]?.getD 0) ∧
    ∀ a, ¬ R a → a < r.buffer ∨ r.buffer + sectorSize * k ≤ a → (b.int13 n r m).2 a = m a
  reset : ∀ n r m a, r.ax = 0 → ¬ R a → (b.int13 n r m).2 a = m a
  teletype : ∀ n c m a, ¬ R a → b.int10 n c m a = m a
  setMode : ∀ n mode m a, ¬ R a → b.setMode n mode m a = m a

/-- The call of stage 1 succeeds. -/
structure BootBios.Loads (b : BootBios) (drive : UInt8) : Prop where
  reset : ∀ n r m, r.ax = 0 → (b.int13 n r m).1 = false
  read : ∀ n m, (b.int13 n (Stage1.readRegs drive) m).1 = false ∧
    b.sectorsRead n (Stage1.readRegs drive) m = Stage1.stage2Sectors

/-- No three reads of a sector, with a reset after each, fail one after the other. -/
def Bios.Recovers (b : Bios) : Prop :=
  ∀ n r m m' m'', r.ax = 0x0201 → ¬ ((b.int13 n r m).1 = true ∧
    (b.int13 (n + 2) r m').1 = true ∧ (b.int13 (n + 4) r m'').1 = true)

variable {R : Nat → Prop} {b b₁ b₂ : BootBios} {drive : UInt8} {disk : List UInt8} {r : Regs}
  {pc pc' : Pc} {v : Build} {bin : Binaries}

/-! ## The image -/

/-- The bytes in front are the old ones. -/
theorem getElem?_patch_lt {image input : List UInt8} {off i : Nat} (h : off ≤ image.length)
    (hi : i < off) : (patch image off input)[i]? = image[i]? := by
  have hlen : i < (image.take off).length := by rwa [List.length_take, Nat.min_eq_left h]
  rw [patch, List.append_assoc, List.getElem?_append_left hlen, List.getElem?_take_of_lt hi]

/-- Stage 2 in an image that the kernel is then written to, behind it. -/
theorem getElem?_patch_stage2 {image : List UInt8} (hlen : sectorSize * 17 ≤ image.length)
    (kernel : List UInt8) {i : Nat} (hi : i < 8192) :
    (patch image (sectorSize * 17) kernel)[sectorSize + i]? = image[sectorSize + i]? := by
  refine getElem?_patch_lt hlen ?_
  unfold sectorSize
  omega

/-- **From sector 1 on the image is the second stage.** -/
theorem Build.image_stage2 (v : Build) (bin : Binaries) {i : Nat} (hi : i < 8192) :
    (v.image bin)[sectorSize + i]? = bin.stage2[i]? := by
  have hstage2 : i < bin.stage2.length := by rwa [bin.length_stage2]
  have hempty : emptyImage.length = sectorSize * 2880 := List.length_replicate
  generalize himage₁ : patch emptyImage 0 (bin.stage1.take sectorSize) = image₁
  have hlen₁ : sectorSize * 2880 ≤ image₁.length := by
    rw [← himage₁, length_patch (Nat.zero_le _), hempty]
    exact Nat.le_max_left ..
  have hin : sectorSize ≤ image₁.length := Nat.le_trans (by decide) hlen₁
  generalize himage₂ : patch image₁ sectorSize bin.stage2 = image₂
  have hlen₂ : sectorSize * 2880 ≤ image₂.length := by
    rw [← himage₂, length_patch hin]
    exact Nat.le_trans hlen₁ (Nat.le_max_left ..)
  have hin₂ : sectorSize * 17 ≤ image₂.length := Nat.le_trans (by decide) hlen₂
  have hat : image₂[sectorSize + i]? = bin.stage2[i]? := by
    rw [← himage₂]
    exact getElem?_patch hin hstage2
  cases v with
  | make =>
      change (dd (dd (dd emptyImage (bin.stage1.take sectorSize) 0) bin.stage2 1) bin.kernel.bin
        17)[sectorSize + i]? = _
      have hfits₀ : sectorSize * 0 ≤ emptyImage.length := Nat.zero_le _
      have hfits₁ : sectorSize * 1 ≤ image₁.length := hin
      rw [dd_eq_patch hfits₀, Nat.mul_zero, himage₁, dd_eq_patch hfits₁, Nat.mul_one, himage₂,
        dd_eq_patch hin₂, getElem?_patch_stage2 hin₂ _ hi, hat]
  | powershell =>
      have hpatch : patch image₁ 512 bin.stage2 = image₂ := himage₂
      simp only [Build.image, createImage, bin.take_stage1, bin.take_stage2, himage₁, hpatch]
      split
      next =>
        -- the larger image begins with this one
        have hlt : sectorSize + i < image₂.length := by
          unfold sectorSize at *
          omega
        generalize List.replicate (512 * 17 + bin.kernel.bin.length + 512) (0 : UInt8) = zeros
        have hfront := getElem?_patch (Nat.zero_le zeros.length) hlt
        have hlong : sectorSize * 17 ≤ (patch zeros 0 image₂).length := by
          rw [length_patch (Nat.zero_le _)]
          exact Nat.le_trans (Nat.le_trans hin₂ (Nat.le_add_left _ 0)) (Nat.le_max_right ..)
        rw [Nat.zero_add] at hfront
        exact (getElem?_patch_stage2 hlong _ hi).trans (hfront.trans hat)
      next => exact (getElem?_patch_stage2 hin₂ _ hi).trans hat

/-! ## Frames -/

namespace BootBios.Faithful

/-- A message is only printed. -/
theorem print16 (h : b.Faithful R drive disk) (msg : String) (pc : Pc) :
    Keeps (fun a ↦ ¬ R a) pc (print16 b.toBios msg pc) := print16_keeps h.teletype msg pc

/-- A reset -/
theorem disk_reset (h : b.Faithful R drive disk) (hax : r.ax = 0) (pc : Pc) :
    Keeps (fun a ↦ ¬ R a) pc (b.disk r pc).2 := by
  constructor
  · intro a ha
    exact h.reset pc.calls r pc.mem a hax ha
  · rfl

end BootBios.Faithful

/-! ## The second stage is loaded -/

namespace Stage1

/-- Where stage 2 is loaded to. -/
def stage2LoadAddr : Nat := 16 * stage2LoadSegment.toNat + stage2LoadOffset.toNat

/-- The memory from 1 MB on is not reserved. -/
theorem not_reserved_of_le {a : Nat} (ha : kernelLoadAddr ≤ a) : ¬ Reserved a := by
  unfold Reserved
  unfold kernelLoadAddr at ha
  omega

/-- Nor is the memory for stage 2. -/
theorem unreserved_stage2 (drive : UInt8) : Unreserved Reserved (readRegs drive).buffer 16 := by
  have hbuffer : (readRegs drive).buffer = 0x10000 := rfl
  rw [hbuffer]
  refine ⟨fun i hi ↦ ?_, by decide⟩
  unfold sectorSize at hi
  unfold Reserved
  omega

/-- What the call that reads stage 2 does. -/
theorem read_stage2 (h : b.Faithful Reserved drive disk) (hdisk : sectorSize * 2880 ≤ disk.length)
    (n : Nat) (m : Mem) :
    ((b.int13 n (readRegs drive) m).1 = false →
      b.sectorsRead n (readRegs drive) m = stage2Sectors →
      ∀ i < 8192, (b.int13 n (readRegs drive) m).2 (stage2LoadAddr + i) =
        disk[sectorSize + i]?.getD 0) ∧
    ∀ a, kernelLoadAddr ≤ a → (b.int13 n (readRegs drive) m).2 a = m a := by
  have hchs : (readRegs drive).chs = ⟨0, 0, 2⟩ := Regs.chs_eq (show 2 ≤ 18 by decide)
  have hlba : floppy.lba (readRegs drive).chs = 1 := by
    rw [hchs]
    rfl
  have hin : sectorSize * (floppy.lba (readRegs drive).chs + 16) ≤ disk.length := by
    rw [hlba]
    exact Nat.le_trans (by decide) hdisk
  have hon : floppy.On (readRegs drive).chs := by
    rw [hchs]
    exact ⟨by decide, by decide, by decide⟩
  obtain ⟨hdata, hoff⟩ := h.read n (readRegs drive) m 16 rfl (by decide) (by decide) rfl hon
    (by rw [hchs]; decide) hin (unreserved_stage2 drive)
  constructor
  · intro hcarry hal
    obtain ⟨_, hsectors⟩ := hdata hcarry
    have hlen : sectorSize * min 16 stage2Sectors.toNat = 8192 := by decide
    rw [hal, hlba, hlen, Nat.mul_one] at hsectors
    exact hsectors
  · intro a ha
    have hbehind : (readRegs drive).buffer + sectorSize * 16 ≤ a := by
      have hstart : (readRegs drive).buffer = 0x10000 := rfl
      have hend : 0x10000 + sectorSize * 16 ≤ kernelLoadAddr := by decide
      rw [hstart]
      exact Nat.le_trans hend ha
    exact hoff a (not_reserved_of_le ha) (.inr hbehind)

/-- If `load_stage2` returns, both calls have succeeded. -/
theorem loadStage2_cases (hload : loadStage2 b drive r pc = .ok pc') :
    ∃ pc₁, (b.disk { r with ax := 0, dl := drive } pc).2 = pc₁ ∧
      (b.int13 pc₁.calls (readRegs drive) pc₁.mem).1 = false ∧
      b.sectorsRead pc₁.calls (readRegs drive) pc₁.mem = stage2Sectors ∧
      pc' = (b.disk (readRegs drive) pc₁).2 := by
  simp only [loadStage2] at hload
  split at hload
  · cases hload
  split at hload
  · cases hload
  next hcarry =>
    split at hload
    · cases hload
    next hal =>
      cases hload
      exact ⟨_, rfl, Bool.eq_false_of_not_eq_true hcarry, not_not.mp hal, rfl⟩

/-- **`load_stage2` returns with stage 2 in memory**, or does not return. -/
theorem loadStage2_spec (h : b.Faithful Reserved drive disk)
    (hdisk : sectorSize * 2880 ≤ disk.length) (hload : loadStage2 b drive r pc = .ok pc') :
    (∀ i < 8192, pc'.mem (stage2LoadAddr + i) = disk[sectorSize + i]?.getD 0) ∧
      Keeps (fun a ↦ kernelLoadAddr ≤ a) pc pc' := by
  obtain ⟨pc₁, hpc₁, hcarry, hal, rfl⟩ := loadStage2_cases hload
  have hreset : Keeps (fun a ↦ ¬ Reserved a) pc pc₁ := hpc₁ ▸ h.disk_reset rfl pc
  obtain ⟨hdata, hoff⟩ := read_stage2 h hdisk pc₁.calls pc₁.mem
  refine ⟨hdata hcarry hal, ?_, hreset.port92⟩
  intro a ha
  exact (hoff a ha).trans (hreset.mem a (not_reserved_of_le ha))

/-- It returns if the calls of the BIOS succeed. -/
theorem loadStage2_ok (h : b.Loads drive) (r : Regs) (pc : Pc) :
    ∃ pc', loadStage2 b drive r pc = .ok pc' := by
  have hreset : (b.disk { r with ax := 0, dl := drive } pc).1 = false := h.reset _ _ _ rfl
  obtain ⟨hread, hal⟩ := h.read (b.disk { r with ax := 0, dl := drive } pc).2.calls
    (b.disk { r with ax := 0, dl := drive } pc).2.mem
  generalize hdone : b.disk { r with ax := 0, dl := drive } pc = done at hreset hread hal
  obtain ⟨carry, pc₁⟩ := done
  obtain rfl : carry = false := hreset
  generalize hpc₂ : (b.disk (readRegs drive) pc₁).2 = pc₂
  have hdisk : b.disk (readRegs drive) pc₁ = (false, pc₂) := Prod.ext hread hpc₂
  refine ⟨pc₂, ?_⟩
  simp only [loadStage2, hdone, hdisk, hal, Bool.false_eq_true, if_false, ne_eq, not_true_eq_false]

/-- **Stage 1 jumps to stage 2**, if it jumps, and nothing from 1 MB on has changed. -/
theorem start_spec {dl : UInt8} (h : b.Faithful Reserved r.dl disk)
    (hdisk : sectorSize * 2880 ≤ disk.length) (hstart : start b r pc = .ok (dl, pc')) :
    dl = r.dl ∧ (∀ i < 8192, pc'.mem (stage2LoadAddr + i) = disk[sectorSize + i]?.getD 0) ∧
      Keeps (fun a ↦ kernelLoadAddr ≤ a) pc pc' := by
  have hmega : ∀ a, kernelLoadAddr ≤ a → ¬ Reserved a := fun _ ↦ not_reserved_of_le
  have hclear : Keeps (fun a ↦ ¬ Reserved a) pc (clearScreen b pc) := by
    constructor
    · intro a ha
      exact h.setMode pc.calls 0x03 pc.mem a ha
    · rfl
  have hmessages := (hclear.trans (h.print16 msgWelcome _)).trans (h.print16 msgLoading _)
  rw [start] at hstart
  generalize hpc₁ : printString b msgLoading _ = pc₁ at hstart
  have hpc₁' : Boot.print16 b.toBios msgLoading (Boot.print16 b.toBios msgWelcome
    (clearScreen b pc)) = pc₁ := hpc₁
  rw [hpc₁'] at hmessages
  cases hload : loadStage2 b r.dl { r with es := 0 } pc₁ with
  | error pc₂ =>
      rw [hload] at hstart
      cases hstart
  | ok pc₂ =>
      rw [hload] at hstart
      cases hstart
      obtain ⟨hsectors, hkeeps⟩ := loadStage2_spec h hdisk hload
      have hsuccess : Keeps (fun a ↦ ¬ Reserved a) pc₂ (printString b msgSuccess pc₂) :=
        h.print16 msgSuccess pc₂
      refine ⟨rfl, fun i hi ↦ ?_, ?_⟩
      · have hfree : ¬ Reserved (stage2LoadAddr + i) := (unreserved_stage2 r.dl).off i hi
        rw [hsuccess.mem _ hfree, hsectors i hi]
      · exact ((hmessages.mono hmega).trans hkeeps).trans (hsuccess.mono hmega)

/-- It jumps if the calls of the BIOS succeed. -/
theorem start_ok (h : b.Loads r.dl) (pc : Pc) : ∃ pc', start b r pc = .ok (r.dl, pc') := by
  obtain ⟨pc', hload⟩ := loadStage2_ok h { r with es := 0 }
    (printString b msgLoading (printString b msgWelcome (clearScreen b pc)))
  refine ⟨printString b msgSuccess pc', ?_⟩
  rw [start, hload]
  rfl

end Stage1

/-! ## The kernel is loaded -/

/-- A read that fails, and the reset after it. -/
theorem retry_eq {b : Bios} (r : Regs) (di : Nat) (pc : Pc) : retry b r (di + 1) pc =
    if (b.disk r pc).1 then retry b r di (b.disk { r with ax := 0 } (b.disk r pc).2).2
    else some (b.disk r pc).2 := rfl

/-- **A sector that is read is right**, however often it was tried. -/
theorem BootBios.Faithful.retry (h : b.Faithful R drive disk) (hax : r.ax = 0x0201)
    (hdl : r.dl = drive) (hon : floppy.On r.chs)
    (hin : sectorSize * (floppy.lba r.chs + 1) ≤ disk.length) (hfree : Unreserved R r.buffer 1)
    {di : Nat} (hretry : retry b.toBios r di pc = some pc') :
    (∀ i < sectorSize, pc'.mem (r.buffer + i) = disk[sectorSize * floppy.lba r.chs + i]?.getD 0) ∧
      Keeps (fun a ↦ ¬ R a ∧ (a < r.buffer ∨ r.buffer + sectorSize ≤ a)) pc pc' := by
  induction di generalizing pc with
  | zero => cases hretry
  | succ di ih =>
      have hlast : r.chs.sector + 1 ≤ floppy.sectors + 1 := Nat.succ_le_succ hon.sector_le
      have hcount : r.ax.toNat = 0x0200 + 1 := congrArg UInt16.toNat hax
      obtain ⟨hdata, hoff⟩ := h.read pc.calls r pc.mem 1 hcount (Nat.le_refl 1) (by decide) hdl
        hon hlast hin hfree
      rw [Nat.mul_one] at hoff
      have hread : Keeps (fun a ↦ ¬ R a ∧ (a < r.buffer ∨ r.buffer + sectorSize ≤ a)) pc
          (b.disk r pc).2 := by
        constructor
        · exact fun a ha ↦ hoff a ha.1 ha.2
        · rfl
      rw [retry_eq] at hretry
      cases hcarry : (b.disk r pc).1 with
      | true =>
          rw [hcarry, if_pos rfl] at hretry
          have hreset := h.disk_reset (r := { r with ax := 0 }) rfl (b.disk r pc).2
          obtain ⟨hsector, hkeeps⟩ := ih hretry
          exact ⟨hsector, (hread.trans (hreset.mono fun a ha ↦ ha.1)).trans hkeeps⟩
      | false =>
          rw [hcarry] at hretry
          cases hretry
          obtain ⟨hone, hsector⟩ := hdata hcarry
          rw [Nat.min_eq_left hone, Nat.mul_one] at hsector
          exact ⟨hsector, hread⟩

/-- It is read if no three tries fail. -/
theorem Bios.Recovers.retry {b : Bios} (h : b.Recovers) (hax : r.ax = 0x0201) (pc : Pc) :
    ∃ pc', Boot.retry b r 3 pc = some pc' := by
  generalize hpc₁ : (b.disk { r with ax := 0 } (b.disk r pc).2).2 = pc₁
  generalize hpc₂ : (b.disk { r with ax := 0 } (b.disk r pc₁).2).2 = pc₂
  have hcalls₁ : pc₁.calls = pc.calls + 2 := hpc₁ ▸ rfl
  have hcalls₂ : pc₂.calls = pc.calls + 4 := by
    rw [← hpc₂, show (b.disk _ (b.disk r pc₁).2).2.calls = pc₁.calls + 2 from rfl, hcalls₁]
  have hnot := h pc.calls r pc.mem pc₁.mem pc₂.mem hax
  rw [← hcalls₁, ← hcalls₂] at hnot
  rw [retry_eq, hpc₁, retry_eq, hpc₂, retry_eq]
  by_cases h₀ : (b.disk r pc).1 = true
  · rw [if_pos h₀]
    by_cases h₁ : (b.disk r pc₁).1 = true
    · have h₂ : ¬ (b.disk r pc₂).1 = true := fun h₂ ↦ hnot ⟨h₀, h₁, h₂⟩
      rw [if_pos h₁, if_neg h₂]
      exact ⟨_, rfl⟩
    · rw [if_neg h₁]
      exact ⟨_, rfl⟩
  · rw [if_neg h₀]
    exact ⟨_, rfl⟩

/-- **A round of the loop that returns has loaded a sector.** -/
theorem Loaded.round {pc₀ : Pc} {k : Nat} {s s' : Regs × Pc}
    (hb : b.Faithful Reserved drive disk) (hdisk : sectorSize * 2880 ≤ disk.length)
    (h : Loaded disk pc₀ k s) (hk : k < kernelSectors)
    (hs : loadSector b.toBios drive s = some s') : Loaded disk pc₀ (k + 1) s' := by
  obtain ⟨pc', hretry, hs⟩ := Option.bind_eq_some_iff.mp hs
  cases hs
  generalize hr : ({ s.1 with ax := 0x0201, dl := drive } : Regs) = r at hretry
  have hon : floppy.On r.chs := hr ▸ h.on
  have hlba : floppy.lba r.chs = 17 + k := hr ▸ h.lba
  have hbuffer : r.buffer = kernelTempAddr + sectorSize * k := hr ▸ h.buffer_eq
  have hin : sectorSize * (floppy.lba r.chs + 1) ≤ disk.length := hr ▸ h.in_disk hk hdisk
  have hpage : r.buffer % 0x10000 + sectorSize ≤ 0x10000 := hr ▸ (h.free hk).page
  have hfree : Unreserved Reserved r.buffer 1 := by
    refine ⟨fun i hi ↦ ?_, by rwa [Nat.mul_one]⟩
    rw [hbuffer, Nat.add_assoc]
    refine not_reserved_buffer ?_
    unfold sectorSize kernelSectors at *
    omega
  obtain ⟨hsector, hkeeps⟩ := hb.retry (hr ▸ rfl) (hr ▸ rfl) hon hin hfree hretry
  rw [hlba, hbuffer] at hsector
  rw [hbuffer] at hkeeps
  exact hr ▸ h.next hk drive hsector hkeeps

/-- **The sectors of the kernel are in the buffer** if `load_kernel` returns. -/
theorem BootBios.Faithful.loadKernel (hb : b.Faithful Reserved drive disk)
    (hdisk : sectorSize * 2880 ≤ disk.length) (hload : loadKernel b.toBios drive pc = some pc') :
    (∀ i < sectorSize * kernelSectors,
      pc'.mem (kernelTempAddr + i) = disk[sectorSize * 17 + i]?.getD 0) ∧
      Keeps (fun a ↦ kernelLoadAddr ≤ a) pc pc' := by
  obtain ⟨⟨r', pc₁⟩, hloop, hend⟩ := Option.bind_eq_some_iff.mp hload
  cases hend
  have hround : ∀ k s s', 0 ≤ k → k < 0 + kernelSectors → Loaded disk pc k s →
      loadSector b.toBios drive s = some s' → Loaded disk pc (k + 1) s' := fun k s s' _ hk h hs ↦
    h.round hb hdisk (Nat.zero_add kernelSectors ▸ hk) hs
  have hloaded := forLoop_keeps hround (.init disk drive pc) hloop
  rw [Nat.zero_add] at hloaded
  exact ⟨hloaded.sectors, hloaded.keeps⟩

/-- It returns if no three reads fail one after the other. -/
theorem Bios.Recovers.loadKernel {b : Bios} (h : b.Recovers) (drive : UInt8) (pc : Pc) :
    ∃ pc', Boot.loadKernel b drive pc = some pc' := by
  have hround : ∀ k (s : Regs × Pc), 0 ≤ k → k < 0 + kernelSectors → True →
      ∃ s', loadSector b drive s = some s' ∧ True := by
    intro k s _ _ _
    obtain ⟨pc', hretry⟩ := h.retry (r := { s.1 with ax := 0x0201, dl := drive }) rfl s.2
    refine ⟨(advance { s.1 with ax := 0x0201, dl := drive }, pc'), ?_, trivial⟩
    rw [loadSector, hretry]
    rfl
  obtain ⟨s', hloop, _⟩ := forLoop_invariant hround trivial
  refine ⟨s'.2, ?_⟩
  rw [Boot.loadKernel, hloop]
  rfl

/-- **What is in memory when `kernel_main` is called**, if it is. -/
theorem BootBios.Faithful.handover (hb : b.Faithful Reserved drive disk)
    (hdisk : sectorSize * 2880 ≤ disk.length) (hrun : handover b.toBios drive pc = some pc') :
    (∀ i < sectorSize * kernelSectors,
      pc'.mem (kernelLoadAddr + i) = disk[sectorSize * 17 + i]?.getD 0) ∧
      ∀ a, kernelLoadAddr + sectorSize * kernelSectors ≤ a → pc'.mem a = pc.mem a :=
  handover_of_loadKernel hb.teletype (fun _ _ hload ↦ hb.loadKernel hdisk hload) hrun

/-- It is called if no three reads fail one after the other. -/
theorem Bios.Recovers.handover {b : Bios} (h : b.Recovers) (drive : UInt8) (pc : Pc) :
    ∃ pc', Boot.handover b drive pc = some pc' :=
  exists_handover (h.loadKernel drive) pc

/-! ## From the boot sector to the kernel -/

/-- **What is booted is complete**, though the disk may fail.  Stage 1 jumps only to the second
stage of the image, whole and in its place, with the boot drive in `dl`.  When `kernel_main` is
called the kernel is in place, with its variables zero, if what of them is beyond `KERNEL_SECTORS`
sectors was in memory already.  And it is called if the reset and the read of stage 1 succeed and no
three reads of a sector fail one after the other. -/
theorem boot_loads (h₁ : b₁.Faithful Stage1.Reserved r.dl (v.image bin))
    (h₂ : b₂.Faithful Reserved r.dl (v.image bin)) (pc : Pc) :
    (∀ dl pc', Stage1.start b₁ r pc = .ok (dl, pc') →
      dl = r.dl ∧ pc'.mem.bytes Stage1.stage2LoadAddr bin.stage2.length = bin.stage2) ∧
    (∀ pc', boot b₁ b₂ r pc = some pc' → (bin.kernel.InPlace pc'.mem ↔ bin.kernel.Found pc.mem)) ∧
    (b₁.Loads r.dl → b₂.Recovers → ∃ pc', boot b₁ b₂ r pc = some pc') := by
  have hdisk := v.image_length bin
  refine ⟨fun dl pc' hstart ↦ ?_, fun pc' hboot ↦ ?_, fun hloads hrecovers ↦ ?_⟩
  · obtain ⟨hdl, hstage2, _⟩ := Stage1.start_spec h₁ hdisk hstart
    refine ⟨hdl, Mem.bytes_eq_iff.mpr ⟨rfl, fun i hi ↦ ?_⟩⟩
    have hlt : i < 8192 := bin.length_stage2 ▸ hi
    rw [hstage2 i hlt, v.image_stage2 bin hlt, List.getElem?_eq_getElem hi]
    rfl
  · rw [boot] at hboot
    cases hstart : Stage1.start b₁ r pc with
    | error pc₁ =>
        rw [hstart] at hboot
        cases hboot
    | ok out =>
        obtain ⟨dl, pc₁⟩ := out
        rw [hstart] at hboot
        obtain ⟨rfl, _, hkeeps⟩ := Stage1.start_spec h₁ hdisk hstart
        obtain ⟨hcopied, hbehind⟩ := h₂.handover hdisk hboot
        refine bin.kernel.inPlace_iff_found (fun i hi ↦ ?_) fun a ha ↦ ?_
        · rw [hcopied i hi, v.image_kernel bin i]
        · rw [hbehind a ha, hkeeps.mem a (Nat.le_of_add_right_le ha)]
  · obtain ⟨pc₁, hstart⟩ := Stage1.start_ok hloads pc
    obtain ⟨pc', hrun⟩ := hrecovers.handover r.dl pc₁
    refine ⟨pc', ?_⟩
    rw [boot, hstart]
    exact hrun

/-- A BIOS whose disk drive fails now and then: at one read of a sector in four calls. -/
def shakyBios (disk : List UInt8) : BootBios where
  int13 n r m :=
    if r.ax = 0 then (false, m)
    else if r.ax = 0x0201 ∧ n % 4 = 0 then (true, m)
    else (false, m.write r.buffer
      ((disk.drop (sectorSize * floppy.lba r.chs)).take (sectorSize * (r.ax.toNat - 0x0200))))
  int10 _ _ m := m
  sectorsRead _ r _ := UInt8.ofNat (r.ax.toNat - 0x0200)
  setMode _ _ m := m

theorem shakyBios_faithful (R : Nat → Prop) (drive : UInt8) (disk : List UInt8) :
    (shakyBios disk).Faithful R drive disk := by
  refine ⟨fun n r m k hax hpos hlt _ _ _ hin _ ↦ ?_, fun n r m a hax _ ↦ ?_, fun _ _ _ _ _ ↦ rfl,
    fun _ _ _ _ _ ↦ rfl⟩
  · have hne : r.ax ≠ 0 := by
      intro hzero
      rw [hzero] at hax
      change 0 = 0x0200 + k at hax
      omega
    have hk : r.ax.toNat - 0x0200 = k := by omega
    by_cases hfail : r.ax = 0x0201 ∧ n % 4 = 0
    · have hread : (shakyBios disk).int13 n r m = (true, m) :=
        (if_neg hne).trans (if_pos hfail)
      rw [hread]
      refine ⟨?_, fun _ _ _ ↦ rfl⟩
      intro hcarry
      cases hcarry
    · have hread : (shakyBios disk).int13 n r m = (false, m.write r.buffer
          ((disk.drop (sectorSize * floppy.lba r.chs)).take
            (sectorSize * (r.ax.toNat - 0x0200)))) := (if_neg hne).trans (if_neg hfail)
      have hcount : ((shakyBios disk).sectorsRead n r m).toNat = k := by
        change (UInt8.ofNat (r.ax.toNat - 0x0200)).toNat = k
        rw [hk]
        exact UInt8.toNat_ofNat_of_lt hlt
      rw [hread, hcount, hk, Nat.min_self]
      refine ⟨fun _ ↦ ⟨hpos, fun i hi ↦ ?_⟩, fun a _ ha ↦ ?_⟩
      · have hdisk : sectorSize * floppy.lba r.chs + i < disk.length := by
          rw [Nat.mul_add] at hin
          exact Nat.lt_of_lt_of_le (Nat.add_lt_add_left hi _) hin
        refine Mem.write_at ?_
        rw [List.getElem?_take_of_lt hi, List.getElem?_drop, List.getElem?_eq_getElem hdisk]
        rfl
      · refine Mem.write_off (ha.imp_right fun ha ↦ ?_)
        exact Nat.le_trans (Nat.add_le_add_left (List.length_take_le ..) _) ha
  · have hread : (shakyBios disk).int13 n r m = (false, m) := if_pos hax
    rw [hread]

theorem shakyBios_recovers (disk : List UInt8) : (shakyBios disk).Recovers := by
  rintro n r m m' m'' hax ⟨h₀, h₁, _⟩
  have hfails : ∀ {n m}, ((shakyBios disk).int13 n r m).1 = true → n % 4 = 0 := by
    intro n m hcarry
    have hne : r.ax ≠ 0 := by
      rw [hax]
      decide
    by_contra hn
    have hworks : ¬ (r.ax = 0x0201 ∧ n % 4 = 0) := fun hfail ↦ hn hfail.2
    simp only [shakyBios, hne, hworks, if_false, Bool.false_eq_true] at hcarry
  have hfirst := hfails h₀
  have hsecond := hfails h₁
  omega

theorem shakyBios_loads (drive : UInt8) (disk : List UInt8) : (shakyBios disk).Loads drive := by
  refine ⟨fun n r m hax ↦ ?_, fun n m ↦ ⟨?_, ?_⟩⟩
  · have hread : (shakyBios disk).int13 n r m = (false, m) := if_pos hax
    rw [hread]
  · have hax : (Stage1.readRegs drive).ax ≠ 0 ∧ (Stage1.readRegs drive).ax ≠ 0x0201 := by
      rw [show (Stage1.readRegs drive).ax = 0x0210 from rfl]
      decide
    have hworks : ¬ ((Stage1.readRegs drive).ax = 0x0201 ∧ n % 4 = 0) := fun h ↦ hax.2 h.1
    simp only [shakyBios, hax.1, hworks, if_false]
  · change UInt8.ofNat ((Stage1.readRegs drive).ax.toNat - 0x0200) = 16
    rw [show (Stage1.readRegs drive).ax = 0x0210 from rfl]
    decide

theorem boot_loads_shaky : ∃ pc', boot (shakyBios (makeImage (withStages haltKernel)))
      (shakyBios (makeImage (withStages haltKernel))) ⟨0, 0, 0, 0, 0, 0x80, 0⟩
      ⟨fun _ ↦ 0xFF, 0, 0⟩ = some pc' ∧ haltKernel.InPlace pc'.mem := by
  let r : Regs := ⟨0, 0, 0, 0, 0, 0x80, 0⟩
  let b : BootBios := shakyBios (makeImage (withStages haltKernel))
  have h₁ : b.Faithful Stage1.Reserved r.dl (Build.make.image (withStages haltKernel)) :=
    shakyBios_faithful _ _ _
  have h₂ : b.Faithful Reserved r.dl (Build.make.image (withStages haltKernel)) :=
    shakyBios_faithful _ _ _
  have hfound : haltKernel.Found fun _ ↦ 0xFF := (Kernel.found_iff_fits _).mpr (by decide) _
  obtain ⟨_, hinPlace, hruns⟩ := boot_loads h₁ h₂ ⟨fun _ ↦ 0xFF, 0, 0⟩
  obtain ⟨pc', hrun⟩ := hruns (shakyBios_loads _ _) (shakyBios_recovers _)
  exact ⟨pc', hrun, (hinPlace pc' hrun).mpr hfound⟩

end KontolOS.Boot
