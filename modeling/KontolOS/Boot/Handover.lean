import KontolOS.Boot.Stage2

/-!
# The hand-over to the kernel

What is in memory when `kernel_main` is called.  Stage 2 walks over the sectors of the kernel in
their order on the disk (`loadKernel_spec`), and copies the same bytes to 1 MB; whatever the size of
the kernel, these are `KERNEL_SECTORS` sectors, and nothing else above 1 MB is written
(`handover_spec`).  So the kernel arrives whole, with a `.bss` of zeros, for as long as the two
together fit into these sectors, which are zeros behind the kernel; beyond them the memory is as
stage 2 found it.
-/

namespace KontolOS.Boot

open KontolOS.Lib

/-! ## Assumptions -/

/-- The memory that the BIOS, its caller's stack and the screen may change on a call: what is below
the buffer of `load_kernel`, and the end of the memory below 1 MB. -/
def Reserved (a : Nat) : Prop := a < kernelTempAddr ∨ 0x80000 ≤ a ∧ a < 0x100000

/-- The memory from 1 MB on is not reserved. -/
theorem not_reserved_of_le {a : Nat} (ha : kernelLoadAddr ≤ a) : ¬ Reserved a := by
  unfold Reserved kernelTempAddr kernelLoadAddr at *
  omega

/-- Nor is the buffer for the kernel. -/
theorem not_reserved_buffer {i : Nat} (hi : i < sectorSize * kernelSectors) :
    ¬ Reserved (kernelTempAddr + i) := by
  unfold Reserved kernelTempAddr kernelSectors sectorSize at *
  omega

/-- A disk of 2 heads and 18 sectors a track. -/
def floppy : Geometry := ⟨2, 18, by decide, by decide⟩

/-- The BIOS can read a sector to this address: there is memory, and the transfer crosses no
boundary of 64 KB. -/
structure Free (a : Nat) : Prop where
  ge : kernelTempAddr ≤ a
  le : a + sectorSize ≤ 0x80000
  page : a % 0x10000 + sectorSize ≤ 0x10000

/-- **Every read succeeds and returns the addressed sector**, and no service touches memory that
is neither reserved nor the buffer. -/
structure Bios.Reads (b : Bios) (drive : UInt8) (disk : List UInt8) : Prop where
  read : ∀ n r m, r.ax = 0x0201 → r.dl = drive → floppy.On r.chs →
    sectorSize * (floppy.lba r.chs + 1) ≤ disk.length → Free r.buffer →
    (b.int13 n r m).1 = false ∧
    (∀ i < sectorSize, (b.int13 n r m).2 (r.buffer + i) =
      disk[sectorSize * floppy.lba r.chs + i]?.getD 0) ∧
    ∀ a, ¬ Reserved a → a < r.buffer ∨ r.buffer + sectorSize ≤ a → (b.int13 n r m).2 a = m a
  teletype : ∀ n c m a, ¬ Reserved a → b.int10 n c m a = m a

/-! ## Frames -/

/-- Nothing has changed in `S`. -/
structure Keeps (S : Nat → Prop) (pc pc' : Pc) : Prop where
  mem : ∀ a, S a → pc'.mem a = pc.mem a
  port92 : pc'.port92 = pc.port92

variable {S T : Nat → Prop} {pc pc' pc'' : Pc} {b : Bios} {drive : UInt8} {disk : List UInt8}

namespace Keeps

theorem refl (S : Nat → Prop) (pc : Pc) : Keeps S pc pc := ⟨fun _ _ ↦ rfl, rfl⟩

theorem trans (h : Keeps S pc pc') (h' : Keeps S pc' pc'') : Keeps S pc pc'' := by
  constructor
  · intro a ha
    rw [h'.mem a ha, h.mem a ha]
  · rw [h'.port92, h.port92]

theorem mono (h : Keeps T pc pc') (hS : ∀ a, S a → T a) : Keeps S pc pc' :=
  ⟨fun a ha ↦ h.mem a (hS a ha), h.port92⟩

end Keeps

/-- The line A20 is high. -/
def Pc.A20 (pc : Pc) : Prop := pc.port92.testBit 1 = true

theorem Keeps.a20 (h : Keeps S pc pc') (ha : pc.A20) : pc'.A20 := by
  rw [Pc.A20, h.port92]
  exact ha

/-- With A20 addresses are physical addresses. -/
theorem Pc.A20.phys (h : pc.A20) (a : Nat) : pc.phys a = a := if_pos h

theorem a20_enableA20 (pc : Pc) : (enableA20 pc).A20 := by
  show (pc.port92 ||| 2).testBit 1 = true
  rw [Nat.testBit_or, show Nat.testBit 2 1 = true from rfl, Bool.or_true]

/-- A message is only printed, where the BIOS keeps to its memory. -/
theorem print16_keeps (h : ∀ n c m a, S a → b.int10 n c m a = m a) (msg : String) (pc : Pc) :
    Keeps S pc (print16 b msg pc) := by
  unfold print16
  induction msg.toList.map (fun c ↦ c.toNat.toUInt8) generalizing pc with
  | nil => exact .refl _ pc
  | cons c cs ih =>
      have hchar : Keeps S pc (b.teletype pc c) := by
        constructor
        · exact h pc.calls c pc.mem
        · rfl
      exact hchar.trans (ih _)

/-- Stores to the screen are stores to reserved memory. -/
theorem Keeps.pokes {vs : List (Nat × UInt8)} (h : Keeps (fun a ↦ ¬ Reserved a) pc pc')
    (hA : pc.A20) (hvs : ∀ v ∈ vs, Reserved v.1) :
    Keeps (fun a ↦ ¬ Reserved a) pc (pc'.pokes vs) := by
  induction vs generalizing pc' with
  | nil => exact h
  | cons v vs ih =>
      obtain ⟨hv, hrest⟩ := List.forall_mem_cons.mp hvs
      have hstore : Keeps (fun a ↦ ¬ Reserved a) pc' (pc'.store8 v.1 v.2) := by
        constructor
        · intro a ha
          show pc'.mem.store8 (pc'.phys v.1) v.2 a = pc'.mem a
          rw [(h.a20 hA).phys]
          apply Mem.store8_of_ne
          rintro rfl
          exact ha hv
        · rfl
      exact ih (h.trans hstore) hrest

/-! ## Loading -/

theorem toNat_succ {x : UInt8} (h : x.toNat < 255) : (x + 1).toNat = x.toNat + 1 := by
  rw [UInt8.toNat_add]
  exact Nat.mod_eq_of_lt (Nat.succ_lt_succ h)

/-- With the upper bits of `cl` clear, the registers are the address. -/
theorem Regs.chs_eq {r : Regs} (h : r.cl.toNat ≤ 18) :
    r.chs = ⟨r.ch.toNat, r.dh.toNat, r.cl.toNat⟩ := by
  have hdiv : r.cl.toNat / 64 = 0 := Nat.div_eq_of_lt (by omega)
  have hmod : r.cl.toNat % 64 = r.cl.toNat := Nat.mod_eq_of_lt (by omega)
  rw [Regs.chs, hdiv, hmod, Nat.mul_zero, Nat.add_zero]

theorem floppy_next (c h s : Nat) : floppy.next ⟨c, h, s⟩ =
    if s < 18 then ⟨c, h, s + 1⟩ else if h + 1 < 2 then ⟨c, h + 1, 1⟩ else ⟨c + 1, 0, 1⟩ := rfl

/-- **The registers go to the next sector of the disk.** -/
theorem nextSector_chs {r : Regs} (hon : floppy.On r.chs) (hcl : r.cl.toNat ≤ 18)
    (hch : r.ch.toNat < 255) :
    (nextSector r).chs = floppy.next r.chs ∧ (nextSector r).cl.toNat ≤ 18 := by
  have hdh : r.dh.toNat < 2 := hon.head_lt
  have hcl' : (r.cl + 1).toNat = r.cl.toNat + 1 := toNat_succ (by omega)
  have hdh' : (r.dh + 1).toNat = r.dh.toNat + 1 := toNat_succ (by omega)
  have hch' : (r.ch + 1).toNat = r.ch.toNat + 1 := toNat_succ hch
  have hlt_cl : r.cl + 1 < 19 ↔ r.cl.toNat < 18 := by
    rw [UInt8.lt_iff_toNat_lt, hcl']
    exact Nat.succ_lt_succ_iff
  have hlt_dh : r.dh + 1 < 2 ↔ r.dh.toNat + 1 < 2 := by
    rw [UInt8.lt_iff_toNat_lt, hdh']
    rfl
  rw [Regs.chs_eq hcl]
  by_cases hsector : r.cl.toNat < 18
  · have hnext : nextSector r = { r with cl := r.cl + 1 } := if_pos (hlt_cl.mpr hsector)
    have hle : (nextSector r).cl.toNat ≤ 18 := by
      rw [hnext]
      exact hcl'.trans_le hsector
    refine ⟨?_, hle⟩
    rw [Regs.chs_eq hle, floppy_next, if_pos hsector, hnext]
    exact congrArg (Chs.mk _ _) hcl'
  · have hnext : nextSector r = if r.dh + 1 < 2 then { r with cl := 1, dh := r.dh + 1 }
        else { r with cl := 1, dh := 0, ch := r.ch + 1 } := if_neg (mt hlt_cl.mp hsector)
    have hle : (nextSector r).cl.toNat ≤ 18 := by
      rw [hnext]
      split <;> exact Nat.le_add_left 1 17
    refine ⟨?_, hle⟩
    rw [Regs.chs_eq hle, floppy_next, if_neg hsector, hnext]
    by_cases hhead : r.dh.toNat + 1 < 2
    · rw [if_pos (hlt_dh.mpr hhead), if_pos hhead]
      exact congrArg (fun n ↦ Chs.mk _ n 1) hdh'
    · rw [if_neg (mt hlt_dh.mp hhead), if_neg hhead]
      exact congrArg (fun n ↦ Chs.mk n 0 1) hch'

/-- A round takes the registers to the next sector and the buffer behind this one. -/
theorem advance_spec {r : Regs} (hon : floppy.On r.chs) (hcl : r.cl.toNat ≤ 18)
    (hch : r.ch.toNat < 255) (hes : r.es.toNat + 0x20 < 2 ^ 16) :
    (advance r).chs = floppy.next r.chs ∧ (advance r).cl.toNat ≤ 18 ∧
      (advance r).es.toNat = r.es.toNat + 0x20 ∧ (advance r).bx = r.bx := by
  have hkeep : ∀ r : Regs, (nextSector r).es = r.es ∧ (nextSector r).bx = r.bx := by
    intro r
    simp only [nextSector]
    split
    · exact ⟨rfl, rfl⟩
    · split <;> exact ⟨rfl, rfl⟩
  have hnext := nextSector_chs (r := { r with ax := r.es + 0x20, es := r.es + 0x20 }) hon hcl hch
  refine ⟨hnext.1, hnext.2, ?_, (hkeep _).2⟩
  rw [advance, (hkeep _).1]
  exact (UInt16.toNat_add ..).trans (Nat.mod_eq_of_lt hes)

/-- A read that succeeds is not repeated. -/
theorem retry_succ {r : Regs} {mem : Mem} (di : Nat)
    (h : b.int13 pc.calls r pc.mem = (false, mem)) :
    retry b r (di + 1) pc = some { pc with mem := mem, calls := pc.calls + 1 } := by
  have hdisk : b.disk r pc = (false, { pc with mem := mem, calls := pc.calls + 1 }) := by
    rw [Bios.disk, h]
  rw [retry, hdisk]
  rfl

/-- **The invariant of the load loop**, before sector `k` of the kernel: the registers address this
sector and the part of the buffer that it belongs to, and the earlier sectors are loaded. -/
structure Loaded (disk : List UInt8) (pc₀ : Pc) (k : Nat) (s : Regs × Pc) : Prop where
  on : floppy.On s.1.chs
  cl_le : s.1.cl.toNat ≤ 18
  lba : floppy.lba s.1.chs = 17 + k
  es : s.1.es.toNat = 0x2000 + 0x20 * k
  bx : s.1.bx = 0
  sectors : ∀ i < sectorSize * k, s.2.mem (kernelTempAddr + i) = disk[sectorSize * 17 + i]?.getD 0
  keeps : Keeps (fun a ↦ kernelLoadAddr ≤ a) pc₀ s.2

namespace Loaded

variable {pc₀ : Pc} {k : Nat} {s : Regs × Pc}

theorem buffer_eq (h : Loaded disk pc₀ k s) : s.1.buffer = kernelTempAddr + sectorSize * k := by
  rw [Regs.buffer, h.es, h.bx, kernelTempAddr, sectorSize]
  show _ + 0 = _
  ring

/-- The BIOS can read to the buffer. -/
theorem free (h : Loaded disk pc₀ k s) (hk : k < kernelSectors) : Free s.1.buffer := by
  rw [h.buffer_eq]
  unfold kernelSectors at hk
  constructor
  · exact Nat.le_add_right ..
  · unfold kernelTempAddr sectorSize
    omega
  · unfold kernelTempAddr sectorSize
    omega

theorem ch_lt (h : Loaded disk pc₀ k s) (hk : k < kernelSectors) : s.1.ch.toNat < 255 := by
  have hcylinder := floppy.cylinder_le s.1.chs
  rw [h.lba, Regs.chs_eq h.cl_le] at hcylinder
  have hle : s.1.ch.toNat * (2 * 18) ≤ 17 + k := hcylinder
  unfold kernelSectors at hk
  omega

/-- The image holds the sector that is to be read. -/
theorem in_disk (h : Loaded disk pc₀ k s) (hk : k < kernelSectors)
    (hdisk : sectorSize * 2880 ≤ disk.length) :
    sectorSize * (floppy.lba s.1.chs + 1) ≤ disk.length := by
  have hlast : 17 + k + 1 ≤ 17 + kernelSectors := Nat.add_lt_add_left hk 17
  rw [h.lba]
  exact Nat.le_trans (Nat.mul_le_mul_left _ (Nat.le_trans hlast (by decide))) hdisk

/-- The invariant holds before the first round. -/
theorem init (disk : List UInt8) (drive : UInt8) (pc : Pc) :
    Loaded disk pc 0 (⟨kernelTempSeg, 0, 0, 18, 0, drive, kernelTempSeg⟩, pc) := by
  have hchs : Regs.chs ⟨kernelTempSeg, 0, 0, 18, 0, drive, kernelTempSeg⟩ = ⟨0, 0, 18⟩ :=
    Regs.chs_eq (Nat.le_refl 18)
  constructor
  · rw [hchs]
    constructor <;> decide
  · exact Nat.le_refl 18
  · rw [hchs]
    rfl
  · rfl
  · rfl
  · intro i hi
    exact absurd hi (Nat.not_lt_zero i)
  · exact .refl _ pc

/-- **The registers go on** when sector `k` of the kernel is in its part of the buffer. -/
theorem next {pc' : Pc} (h : Loaded disk pc₀ k s) (hk : k < kernelSectors) (drive : UInt8)
    (hdata : ∀ i < sectorSize, pc'.mem (kernelTempAddr + sectorSize * k + i) =
      disk[sectorSize * (17 + k) + i]?.getD 0)
    (hkeeps : Keeps (fun a ↦ ¬ Reserved a ∧ (a < kernelTempAddr + sectorSize * k ∨
      kernelTempAddr + sectorSize * k + sectorSize ≤ a)) s.2 pc') :
    Loaded disk pc₀ (k + 1) (advance { s.1 with ax := 0x0201, dl := drive }, pc') := by
  have hes : s.1.es.toNat + 0x20 < 2 ^ 16 := by
    rw [h.es]
    unfold kernelSectors at hk
    omega
  obtain ⟨hchs', hcl', hes', hbx'⟩ :=
    advance_spec (r := { s.1 with ax := 0x0201, dl := drive }) h.on h.cl_le (h.ch_lt hk) hes
  constructor
  · show floppy.On (advance _).chs
    rw [hchs']
    exact h.on.next
  · exact hcl'
  · show floppy.lba (advance _).chs = _
    rw [hchs']
    exact h.on.lba_next.trans (congrArg (· + 1) h.lba)
  · show (advance _).es.toNat = _
    rw [hes', h.es, Nat.mul_succ, Nat.add_assoc]
  · exact hbx'.trans h.bx
  · intro i hi
    by_cases hold : i < sectorSize * k
    · -- this sector leaves the earlier ones alone
      have hin : i < sectorSize * kernelSectors :=
        Nat.lt_of_lt_of_le hold (Nat.mul_le_mul_left _ (Nat.le_of_lt hk))
      have hbefore := Nat.add_lt_add_left hold kernelTempAddr
      exact (hkeeps.mem _ ⟨not_reserved_buffer hin, .inl hbefore⟩).trans (h.sectors i hold)
    · obtain ⟨j, rfl⟩ := Nat.exists_eq_add_of_le (Nat.le_of_not_lt hold)
      rw [Nat.mul_succ] at hi
      rw [← Nat.add_assoc, hdata j (Nat.lt_of_add_lt_add_left hi), Nat.mul_add, Nat.add_assoc]
  · apply h.keeps.trans
    apply hkeeps.mono
    intro a ha
    refine ⟨not_reserved_of_le ha, .inr ?_⟩
    unfold kernelTempAddr kernelLoadAddr kernelSectors sectorSize at *
    omega

/-- The BIOS reads sector `k` of the kernel into its part of the buffer. -/
theorem read (hb : b.Reads drive disk) (hdisk : sectorSize * 2880 ≤ disk.length)
    (h : Loaded disk pc₀ k s) (hk : k < kernelSectors) :
    ∃ mem, retry b { s.1 with ax := 0x0201, dl := drive } 3 s.2 =
        some { s.2 with mem := mem, calls := s.2.calls + 1 } ∧
      (∀ i < sectorSize, mem (kernelTempAddr + sectorSize * k + i) =
        disk[sectorSize * (17 + k) + i]?.getD 0) ∧
      ∀ a, ¬ Reserved a →
        a < kernelTempAddr + sectorSize * k ∨ kernelTempAddr + sectorSize * k + sectorSize ≤ a →
        mem a = s.2.mem a := by
  obtain ⟨hcarry, hdata, hoff⟩ := hb.read s.2.calls { s.1 with ax := 0x0201, dl := drive } s.2.mem
    rfl rfl h.on (h.in_disk hk hdisk) (h.free hk)
  have hbuffer : Regs.buffer { s.1 with ax := 0x0201, dl := drive } =
    kernelTempAddr + sectorSize * k := h.buffer_eq
  have hlba : floppy.lba (Regs.chs { s.1 with ax := 0x0201, dl := drive }) = 17 + k := h.lba
  rw [hbuffer, hlba] at hdata
  rw [hbuffer] at hoff
  exact ⟨_, retry_succ 2 (Prod.ext hcarry rfl), hdata, hoff⟩

/-- **A round of the loop loads a sector.** -/
theorem step (hb : b.Reads drive disk) (hdisk : sectorSize * 2880 ≤ disk.length)
    (h : Loaded disk pc₀ k s) (hk : k < kernelSectors) :
    ∃ s', loadSector b drive s = some s' ∧ Loaded disk pc₀ (k + 1) s' := by
  obtain ⟨mem, hread, hdata, hoff⟩ := h.read hb hdisk hk
  refine ⟨(advance { s.1 with ax := 0x0201, dl := drive },
    { s.2 with mem := mem, calls := s.2.calls + 1 }), ?_, h.next hk drive hdata ?_⟩
  · rw [loadSector, hread]
    rfl
  · constructor
    · exact fun a ha ↦ hoff a ha.1 ha.2
    · rfl

end Loaded

/-- **The sectors of the kernel are in the buffer.** -/
theorem loadKernel_spec (hb : b.Reads drive disk) (hdisk : sectorSize * 2880 ≤ disk.length)
    (pc : Pc) :
    ∃ pc', loadKernel b drive pc = some pc' ∧
      (∀ i < sectorSize * kernelSectors,
        pc'.mem (kernelTempAddr + i) = disk[sectorSize * 17 + i]?.getD 0) ∧
      Keeps (fun a ↦ kernelLoadAddr ≤ a) pc pc' := by
  have hround : ∀ k s, 0 ≤ k → k < 0 + kernelSectors → Loaded disk pc k s →
      ∃ s', loadSector b drive s = some s' ∧ Loaded disk pc (k + 1) s' := fun k s _ hk h ↦
    h.step hb hdisk (Nat.zero_add kernelSectors ▸ hk)
  obtain ⟨s', hloop, hend⟩ := forLoop_invariant hround (.init disk drive pc)
  rw [Nat.zero_add] at hend
  refine ⟨s'.2, ?_, hend.sectors, hend.keeps⟩
  rw [loadKernel, hloop]
  rfl

/-! ## Copying -/

/-- `rep movsd` copies the words between disjoint ranges. -/
theorem repMovsd_eq (hA : pc.A20) {n esi edi : Nat} (h : esi + 4 * n ≤ edi) :
    repMovsd n esi edi pc = { pc with mem := pc.mem.write edi (pc.mem.bytes esi (4 * n)) } := by
  induction n generalizing pc esi edi with
  | zero =>
      rw [repMovsd, Nat.mul_zero, show pc.mem.bytes esi 0 = [] from rfl, Mem.write_nil]
  | succ n ih =>
      have hword : pc.store32 edi (pc.load32 esi) =
          { pc with mem := pc.mem.write edi (pc.mem.bytes esi 4) } := by
        rw [Pc.store32, Pc.load32, hA.phys, hA.phys, Mem.store32_load32]
      have hsource : (pc.mem.write edi (pc.mem.bytes esi 4)).bytes (esi + 4) (4 * n) =
          pc.mem.bytes (esi + 4) (4 * n) :=
        Mem.bytes_congr fun i hi ↦ Mem.write_off (.inl (by omega))
      have hA' : Pc.A20 { pc with mem := pc.mem.write edi (pc.mem.bytes esi 4) } := hA
      rw [repMovsd, hword, ih hA' (by omega), hsource, Nat.mul_succ, Nat.add_comm (4 * n) 4,
        Mem.bytes_append, Mem.write_append, Mem.length_bytes]

/-- **`pmode_entry` copies the buffer to 1 MB.** -/
theorem pmodeEntry_spec (hA : pc.A20) :
    (∀ i < sectorSize * kernelSectors,
      (pmodeEntry pc).mem (kernelLoadAddr + i) = pc.mem (kernelTempAddr + i)) ∧
    Keeps (fun a ↦ kernelLoadAddr + sectorSize * kernelSectors ≤ a) pc (pmodeEntry pc) := by
  have hbefore : Keeps (fun a ↦ ¬ Reserved a) pc
      (pc.pokes [(0xB8000, 0x50), (0xB8001, 0x0A), (0xB8002, 0x4D), (0xB8003, 0x0A)]) :=
    (Keeps.refl _ pc).pokes hA (by simp [Reserved])
  have hlen : 4 * (kernelSectors * 512 / 4) = sectorSize * kernelSectors := by decide
  have hcopy := repMovsd_eq (hbefore.a20 hA)
    (show kernelTempAddr + 4 * (kernelSectors * 512 / 4) ≤ kernelLoadAddr by decide)
  rw [hlen] at hcopy
  generalize hpc₁ : pc.pokes _ = pc₁ at hbefore hcopy
  generalize hpc₂ : repMovsd _ _ _ pc₁ = pc₂ at hcopy
  have hafter : Keeps (fun a ↦ ¬ Reserved a) pc₂ (pmodeEntry pc) := by
    have hA₂ : pc₂.A20 := by
      rw [hcopy]
      exact hbefore.a20 hA
    rw [pmodeEntry, hpc₁, hpc₂]
    apply Keeps.pokes _ hA₂ (by simp [Reserved])
    apply Keeps.pokes _ hA₂ (by simp [Reserved])
    apply Keeps.pokes _ hA₂ (by simp [Reserved])
    apply Keeps.pokes _ hA₂ (by simp [Reserved])
    exact .refl _ pc₂
  refine ⟨fun i hi ↦ ?_, ?_, ?_⟩
  · rw [hafter.mem _ (not_reserved_of_le (Nat.le_add_right ..)), hcopy]
    show pc₁.mem.write _ _ _ = _
    rw [Mem.write_at (Mem.getElem?_bytes hi), hbefore.mem _ (not_reserved_buffer hi)]
  · intro a ha
    have hres : ¬ Reserved a := not_reserved_of_le (Nat.le_of_add_right_le ha)
    rw [hafter.mem a hres, hcopy]
    show pc₁.mem.write _ _ _ = _
    rw [Mem.write_off (.inr (by rw [Mem.length_bytes]; exact ha)), hbefore.mem a hres]
  · rw [hafter.port92, hcopy]
    exact hbefore.port92

/-- `_start` leaves the kernel alone. -/
theorem start_keeps (hA : pc.A20) : Keeps (fun a ↦ kernelLoadAddr ≤ a) pc (start pc) := by
  have hpokes : Keeps (fun a ↦ ¬ Reserved a) pc
      ((pc.pokes [(0xB8008, 0x4B), (0xB8009, 0x0E)]).pokes
        [(0xB800A, 0x53), (0xB800B, 0x0E), (0xB800C, 0x43), (0xB800D, 0x0E)]) := by
    apply Keeps.pokes _ hA (by simp [Reserved])
    apply Keeps.pokes _ hA (by simp [Reserved])
    exact .refl _ pc
  apply (hpokes.mono fun _ ↦ not_reserved_of_le).trans
  constructor
  · intro a ha
    show Mem.store32 _ (Pc.phys _ _) _ a = _
    rw [(hpokes.a20 hA).phys]
    exact Mem.store32_off (.inr (Nat.le_trans (by decide) ha))
  · rfl

/-! ## A BIOS -/

/-- A BIOS that reads from the image at once, and keeps nothing in memory. -/
def imageBios (disk : List UInt8) : Bios where
  int13 _ r m :=
    if r.ax = 0x0201 then
      (false, m.write r.buffer ((disk.drop (sectorSize * floppy.lba r.chs)).take sectorSize))
    else (false, m)
  int10 _ _ m := m

theorem imageBios_reads (drive : UInt8) (disk : List UInt8) :
    (imageBios disk).Reads drive disk := by
  constructor
  · intro n r m hax _ _ hin _
    have hread : (imageBios disk).int13 n r m = (false, m.write r.buffer
        ((disk.drop (sectorSize * floppy.lba r.chs)).take sectorSize)) := if_pos hax
    rw [hread]
    refine ⟨rfl, fun i hi ↦ ?_, fun a _ ha ↦ ?_⟩
    · have hlt : sectorSize * floppy.lba r.chs + i < disk.length := by
        rw [Nat.mul_succ] at hin
        exact Nat.lt_of_lt_of_le (Nat.add_lt_add_left hi _) hin
      apply Mem.write_at
      rw [List.getElem?_take_of_lt hi, List.getElem?_drop, List.getElem?_eq_getElem hlt]
      rfl
    · apply Mem.write_off
      apply ha.imp_right
      intro ha
      exact Nat.le_trans (Nat.add_le_add_left (List.length_take_le ..) _) ha
  · intro n c m a _
    rfl

/-- A kernel behind two stages that are not looked at. -/
def withStages (k : Kernel) : Binaries where
  stage1 := List.replicate 512 0
  stage2 := List.replicate 8192 0
  kernel := k
  length_stage1 := List.length_replicate
  length_stage2 := List.length_replicate

/-! ## The hand-over -/

/-- `kernel_main` is called if `load_kernel` returns. -/
theorem exists_handover (hload : ∀ pc, ∃ pc', loadKernel b drive pc = some pc') (pc : Pc) :
    ∃ pc', handover b drive pc = some pc' := by
  obtain ⟨pc₁, hpc₁⟩ :=
    hload (print16 b msgLoading (print16 b msgA20 (enableA20 (print16 b msgStage2 pc))))
  rw [handover, hpc₁]
  exact ⟨_, rfl⟩

/-- If `load_kernel` leaves the sectors of the kernel in the buffer, then `kernel_main` is called
with them from 1 MB on, and behind them is what was there before. -/
theorem handover_of_loadKernel (hchar : ∀ n c m a, ¬ Reserved a → b.int10 n c m a = m a)
    (hload : ∀ pc pc', loadKernel b drive pc = some pc' → (∀ i < sectorSize * kernelSectors,
      pc'.mem (kernelTempAddr + i) = disk[sectorSize * 17 + i]?.getD 0) ∧
      Keeps (fun a ↦ kernelLoadAddr ≤ a) pc pc')
    (hrun : handover b drive pc = some pc') :
    (∀ i < sectorSize * kernelSectors,
      pc'.mem (kernelLoadAddr + i) = disk[sectorSize * 17 + i]?.getD 0) ∧
      ∀ a, kernelLoadAddr + sectorSize * kernelSectors ≤ a → pc'.mem a = pc.mem a := by
  have hprint (msg : String) (pc : Pc) := print16_keeps hchar msg pc
  have hbanner := hprint msgStage2 pc
  rw [handover] at hrun
  generalize print16 b msgStage2 pc = pc₁ at hbanner hrun
  have hmessages := (hprint msgA20 (enableA20 pc₁)).trans (hprint msgLoading _)
  generalize print16 b msgLoading _ = pc₂ at hmessages hrun
  obtain ⟨pc₃, hpc₃, hrun⟩ := Option.bind_eq_some_iff.mp hrun
  obtain ⟨hsectors, hloaded⟩ := hload pc₂ pc₃ hpc₃
  have hreport := ((hprint msgLoaded pc₃).trans (hprint msgGdt _)).trans (hprint msgPmode _)
  cases hrun
  generalize print16 b msgPmode _ = pc₄ at hreport ⊢
  have hA : pc₄.A20 := hreport.a20 (hloaded.a20 (hmessages.a20 (a20_enableA20 pc₁)))
  obtain ⟨hcopied, hbehind⟩ := pmodeEntry_spec hA
  have hstart := start_keeps (hbehind.a20 hA)
  constructor
  · intro i hi
    rw [hstart.mem _ (Nat.le_add_right ..), hcopied i hi,
      hreport.mem _ (not_reserved_buffer hi), hsectors i hi]
  · intro a ha
    have hmega : kernelLoadAddr ≤ a := Nat.le_of_add_right_le ha
    have hfree := not_reserved_of_le hmega
    rw [hstart.mem a hmega, hbehind.mem a ha, hreport.mem a hfree, hloaded.mem a hmega,
      hmessages.mem a hfree]
    exact hbanner.mem a hfree

/-- **What is in memory when `kernel_main` is called**: `KERNEL_SECTORS` sectors from 1 MB on, and
behind them what was there before. -/
theorem handover_spec (hb : b.Reads drive disk) (hdisk : sectorSize * 2880 ≤ disk.length)
    (pc : Pc) :
    ∃ pc', handover b drive pc = some pc' ∧
      (∀ i < sectorSize * kernelSectors,
        pc'.mem (kernelLoadAddr + i) = disk[sectorSize * 17 + i]?.getD 0) ∧
      ∀ a, kernelLoadAddr + sectorSize * kernelSectors ≤ a → pc'.mem a = pc.mem a := by
  have hloads (pc : Pc) : ∃ pc', loadKernel b drive pc = some pc' := by
    obtain ⟨pc', hload, _⟩ := loadKernel_spec hb hdisk pc
    exact ⟨pc', hload⟩
  obtain ⟨pc', hrun⟩ := exists_handover hloads pc
  refine ⟨pc', hrun, handover_of_loadKernel hb.teletype ?_ hrun⟩
  intro pc₁ pc₂ hload
  obtain ⟨pc₃, hload', hloaded⟩ := loadKernel_spec hb hdisk pc₁
  obtain rfl := Option.some.inj (hload'.symm.trans hload)
  exact hloaded

namespace Kernel

/-- The kernel is in memory, and its variables without an initialiser are zero. -/
def InPlace (k : Kernel) (m : Mem) : Prop :=
  m.bytes kernelLoadAddr k.bin.length = k.bin ∧ ∀ a, k.bssStart ≤ a → a < k.bssEnd → m a = 0

/-- The kernel and its variables fit into `KERNEL_SECTORS` sectors. -/
def Fits (k : Kernel) : Prop :=
  k.bin.length ≤ sectorSize * kernelSectors ∧
    (k.bssStart < k.bssEnd → k.bssEnd ≤ kernelLoadAddr + sectorSize * kernelSectors)

instance (k : Kernel) : Decidable k.Fits := inferInstanceAs (Decidable (_ ∧ _))

/-- What does not fit is in memory already. -/
def Found (k : Kernel) (ram : Mem) : Prop :=
  (∀ i, sectorSize * kernelSectors ≤ i → i < k.bin.length →
    k.bin[i]? = some (ram (kernelLoadAddr + i))) ∧
  ∀ a, k.bssStart ≤ a → a < k.bssEnd → kernelLoadAddr + sectorSize * kernelSectors ≤ a → ram a = 0

/-- What fits does not depend on the memory. -/
theorem found_iff_fits (k : Kernel) : (∀ ram, k.Found ram) ↔ k.Fits := by
  constructor
  · intro h
    constructor
    · by_contra hlong
      have hlast := fun x : UInt8 ↦
        (h fun _ ↦ x).1 _ (Nat.le_refl (sectorSize * kernelSectors)) (Nat.lt_of_not_le hlong)
      have hbit : some (0 : UInt8) = some 1 := (hlast 0).symm.trans (hlast 1)
      exact absurd hbit (by decide)
    · intro hbss
      by_contra hlong
      have hlast : (1 : UInt8) = 0 :=
        (h fun _ ↦ 1).2 (k.bssEnd - 1) (by omega) (by omega) (by omega)
      exact absurd hlast (by decide)
  · rintro ⟨hbin, hbss⟩ ram
    constructor
    · intro i hi hlt
      exact absurd (Nat.lt_of_lt_of_le hlt hbin) (Nat.not_lt_of_le hi)
    · intro a hstart hend ha
      have hle := hbss (Nat.lt_of_le_of_lt hstart hend)
      exact absurd (Nat.lt_of_lt_of_le hend hle) (Nat.not_lt_of_le ha)

/-- When the sectors are copied and nothing else is written, the kernel is in place if the rest was
found there. -/
theorem inPlace_iff_found (k : Kernel) {m ram : Mem}
    (hcopied : ∀ i < sectorSize * kernelSectors, m (kernelLoadAddr + i) = k.bin[i]?.getD 0)
    (hbehind : ∀ a, kernelLoadAddr + sectorSize * kernelSectors ≤ a → m a = ram a) :
    k.InPlace m ↔ k.Found ram := by
  constructor
  · rintro ⟨hbin, hbss⟩
    constructor
    · intro i hi hlt
      rw [← hbehind _ (Nat.add_le_add_left hi _)]
      exact (Mem.bytes_eq_iff.mp hbin).2 i hlt
    · intro a hstart hend ha
      rw [← hbehind a ha]
      exact hbss a hstart hend
  · rintro ⟨hbin, hbss⟩
    constructor
    · refine Mem.bytes_eq_iff.mpr ⟨rfl, fun i hlt ↦ ?_⟩
      by_cases hi : i < sectorSize * kernelSectors
      · rw [hcopied i hi, List.getElem?_eq_getElem hlt]
        rfl
      · have hle := Nat.le_of_not_lt hi
        rw [hbehind _ (Nat.add_le_add_left hle _)]
        exact hbin i hle hlt
    · intro a hstart hend
      by_cases ha : kernelLoadAddr + sectorSize * kernelSectors ≤ a
      · rw [hbehind a ha]
        exact hbss a hstart hend ha
      · -- the image is zero behind the kernel
        have hload : kernelLoadAddr + k.bin.length ≤ a := Nat.le_trans k.bin_le hstart
        obtain ⟨i, rfl⟩ := Nat.exists_eq_add_of_le (Nat.le_of_add_right_le hload)
        rw [hcopied i (by omega), List.getElem?_eq_none (by omega)]
        rfl

end Kernel

variable {v : Build} {bin : Binaries}

/-- **The hand-over is in order** for just the kernels that fit, if the memory may hold anything
before, and otherwise if the memory happens to hold what does not fit. -/
theorem handover_inPlace_iff (hb : b.Reads drive (v.image bin)) :
    ((∀ pc, ∃ pc', handover b drive pc = some pc' ∧ bin.kernel.InPlace pc'.mem) ↔
      bin.kernel.Fits) ∧
    ∀ pc, (∃ pc', handover b drive pc = some pc' ∧ bin.kernel.InPlace pc'.mem) ↔
      bin.kernel.Found pc.mem := by
  have hfound : ∀ pc, (∃ pc', handover b drive pc = some pc' ∧ bin.kernel.InPlace pc'.mem) ↔
      bin.kernel.Found pc.mem := by
    intro pc
    obtain ⟨pc', hrun, hcopied, hbehind⟩ := handover_spec hb (v.image_length bin) pc
    have hiff : bin.kernel.InPlace pc'.mem ↔ bin.kernel.Found pc.mem := by
      refine bin.kernel.inPlace_iff_found (fun i hi ↦ ?_) hbehind
      rw [hcopied i hi, v.image_kernel bin i]
    constructor
    · rintro ⟨pc'', hrun', hin⟩
      obtain rfl : pc' = pc'' := Option.some.inj (hrun.symm.trans hrun')
      exact hiff.mp hin
    · intro h
      exact ⟨pc', hrun, hiff.mpr h⟩
  refine ⟨?_, hfound⟩
  rw [← bin.kernel.found_iff_fits]
  constructor
  · intro h ram
    exact (hfound ⟨ram, 0, 0⟩).mp (h ⟨ram, 0, 0⟩)
  · intro h pc
    exact (hfound pc).mpr (h pc.mem)

/-- The code of `_start`, which calls what is right behind it. -/
def startCode : List UInt8 :=
  [0xC6, 0x05, 0x08, 0x80, 0x0B, 0x00, 0x4B, 0xC6, 0x05, 0x09, 0x80, 0x0B, 0x00, 0x0E] ++
    -- `mov esp, 0x90000`
    [0xBC, 0x00, 0x00, 0x09, 0x00] ++
    [0xC6, 0x05, 0x0A, 0x80, 0x0B, 0x00, 0x53, 0xC6, 0x05, 0x0B, 0x80, 0x0B, 0x00, 0x0E, 0xFC] ++
    [0xC6, 0x05, 0x0C, 0x80, 0x0B, 0x00, 0x43, 0xC6, 0x05, 0x0D, 0x80, 0x0B, 0x00, 0x0E] ++
    -- `call kernel_main`
    [0xE8, 0x12, 0x00, 0x00, 0x00] ++
    [0xC6, 0x05, 0x0E, 0x80, 0x0B, 0x00, 0x52, 0xC6, 0x05, 0x0F, 0x80, 0x0B, 0x00, 0x0E] ++
    [0xFA, 0xF4, 0xEB, 0xFC]

/-- A kernel the `kernel_main` of which only halts, with 16 bytes of variables. -/
def haltKernel : Kernel := ⟨startCode ++ [0xF4], 0x100050, 0x100060, by decide⟩

theorem handover_inPlace_iff_halt :
    ∃ pc', handover (imageBios (makeImage (withStages haltKernel))) 0 ⟨fun _ ↦ 0xFF, 0, 0⟩ =
      some pc' ∧ haltKernel.InPlace pc'.mem := by
  have hb : (imageBios (makeImage (withStages haltKernel))).Reads 0
    (Build.make.image (withStages haltKernel)) := imageBios_reads 0 _
  have hfits : haltKernel.Fits := by decide
  exact (handover_inPlace_iff hb).1.mpr hfits _

/-- A kernel with one byte more than `KERNEL_SECTORS` sectors hold. -/
def longKernel : Kernel where
  bin := startCode ++ List.replicate (sectorSize * kernelSectors - 70) 0x90
  bssStart := 0x106010
  bssEnd := 0x106010
  bin_le := by rw [List.length_append, List.length_replicate]; decide

theorem length_longKernel : longKernel.bin.length = sectorSize * kernelSectors + 1 := by
  rw [longKernel, List.length_append, List.length_replicate]
  decide

/-- A small kernel, the variables of which end behind the last sector. -/
def wideKernel : Kernel := ⟨startCode ++ [0xF4], 0x100050, 0x106010, by decide⟩

/-- **The last byte of a kernel that is too long is not there**, and **variables behind the last
sector are not zero.** -/
theorem handover_cuts_off :
    ((imageBios (makeImage (withStages longKernel))).Reads 0 (makeImage (withStages longKernel)) ∧
      ¬ ∃ pc', handover (imageBios (makeImage (withStages longKernel))) 0 ⟨fun _ ↦ 0, 0, 0⟩ =
        some pc' ∧ longKernel.InPlace pc'.mem) ∧
    ((imageBios (makeImage (withStages wideKernel))).Reads 0 (makeImage (withStages wideKernel)) ∧
      ¬ ∃ pc', handover (imageBios (makeImage (withStages wideKernel))) 0 ⟨fun _ ↦ 0xFF, 0, 0⟩ =
        some pc' ∧ wideKernel.InPlace pc'.mem) := by
  have hkeeps : ∀ k ram pc', handover (imageBios (makeImage (withStages k))) 0 ⟨ram, 0, 0⟩ =
      some pc' → ∀ a, kernelLoadAddr + sectorSize * kernelSectors ≤ a → pc'.mem a = ram a := by
    intro k ram pc' hrun a ha
    obtain ⟨pc'', hrun', _, hbehind⟩ := handover_spec (imageBios_reads 0 _)
      (Build.image_length .make (withStages k)) ⟨ram, 0, 0⟩
    obtain rfl : pc'' = pc' := Option.some.inj (hrun'.symm.trans hrun)
    exact hbehind a ha
  refine ⟨⟨imageBios_reads 0 _, ?_⟩, imageBios_reads 0 _, ?_⟩
  · rintro ⟨pc', hrun, hbin, _⟩
    have hlast := (Mem.bytes_eq_iff.mp hbin).2 (sectorSize * kernelSectors)
      (length_longKernel ▸ Nat.lt_succ_self _)
    rw [hkeeps _ _ _ hrun _ (Nat.le_refl _), longKernel, List.getElem?_append_right (by decide),
      List.getElem?_replicate, if_pos (by decide)] at hlast
    exact absurd hlast (by decide)
  · rintro ⟨pc', hrun, _, hbss⟩
    have hlast := hbss (kernelLoadAddr + sectorSize * kernelSectors) (by decide) (by decide)
    rw [hkeeps _ _ _ hrun _ (Nat.le_refl _)] at hlast
    exact absurd hlast (by decide)

end KontolOS.Boot
