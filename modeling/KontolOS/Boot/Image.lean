import Mathlib.Data.List.Basic

/-!
# The disk image

The floppy image as the build puts it together, from the boot sector, the second stage and the
kernel: with `dd` in the `Makefile`, with byte arrays in `create_image.ps1`.  Neither limits the
size of the kernel, and both extend the image when the kernel does not fit on the floppy.  The
image was zeros before, so that it reads as the kernel with zeros behind it, from sector 17 on,
whichever way it was built.
-/

namespace KontolOS.Boot

/-! ## Bytes in place -/

/-- The bytes `input` in place of those of `image` from `off` on. -/
def patch (image : List UInt8) (off : Nat) (input : List UInt8) : List UInt8 :=
  image.take off ++ input ++ image.drop (off + input.length)

section

variable {image input : List UInt8} {off i : Nat}

theorem length_patch (h : off ≤ image.length) :
    (patch image off input).length = max image.length (off + input.length) := by
  simp only [patch, List.length_append, List.length_take, List.length_drop]
  omega

/-- The new bytes are in place. -/
theorem getElem?_patch (h : off ≤ image.length) (hi : i < input.length) :
    (patch image off input)[off + i]? = input[i]? := by
  have hoff : (image.take off).length = off := by rw [List.length_take, Nat.min_eq_left h]
  rw [patch, List.append_assoc, List.getElem?_append_right (by omega), hoff,
    Nat.add_sub_cancel_left, List.getElem?_append_left hi]

/-- The bytes behind are the old ones. -/
theorem getElem?_patch_of_le (h : off ≤ image.length) (hi : off + input.length ≤ i) :
    (patch image off input)[i]? = image[i]? := by
  have hlen : (image.take off ++ input).length = off + input.length := by
    rw [List.length_append, List.length_take, Nat.min_eq_left h]
  rw [patch, List.getElem?_append_right (by omega), hlen, List.getElem?_drop]
  congr 1
  omega

end

/-! ## The build -/

/-- The kernel, as it is linked. -/
structure Kernel where
  /-- `kernel.bin` -/
  bin : List UInt8
  /-- `__bss_start` -/
  bssStart : Nat
  /-- `__bss_end` -/
  bssEnd : Nat
  /-- `.bss` comes behind the sections that are in the file, and these start at 1 MB. -/
  bin_le : 0x100000 + bin.length ≤ bssStart

/-- What the image is made of. -/
structure Binaries where
  /-- `stage1.bin` -/
  stage1 : List UInt8
  /-- `stage2.bin` -/
  stage2 : List UInt8
  /-- the kernel -/
  kernel : Kernel
  /-- `times 510 - ($ - $$) db 0`, and two bytes more -/
  length_stage1 : stage1.length = 512
  /-- `times 8192 - ($ - $$) db 0` -/
  length_stage2 : stage2.length = 8192

/-- The size of a sector. -/
def sectorSize : Nat := 512

/-- `dd if=… of=… bs=512 seek=… conv=notrunc` -/
def dd (image input : List UInt8) (seek : Nat) : List UInt8 :=
  patch (image ++ List.replicate (sectorSize * seek - image.length) 0) (sectorSize * seek) input

/-- The empty image, `2880` sectors of zeros. -/
def emptyImage : List UInt8 := List.replicate (sectorSize * 2880) 0

/-- The rule for `$(OS_IMAGE)`. -/
def makeImage (bin : Binaries) : List UInt8 :=
  let image := dd emptyImage (bin.stage1.take sectorSize) 0
  let image := dd image bin.stage2 1
  dd image bin.kernel.bin 17

/-- `create_image.ps1` -/
def createImage (bin : Binaries) : List UInt8 :=
  let image := patch emptyImage 0 (bin.stage1.take (min bin.stage1.length 512))
  let image := patch image 512 (bin.stage2.take (min bin.stage2.length 8192))
  let kernelOffset := 512 * 17
  let image :=
    if kernelOffset + bin.kernel.bin.length > sectorSize * 2880 then
      patch (List.replicate (kernelOffset + bin.kernel.bin.length + 512) 0) 0 image
    else image
  patch image kernelOffset bin.kernel.bin

/-- The two ways to build the image. -/
inductive Build
  | make
  | powershell

/-- The image. -/
def Build.image : Build → Binaries → List UInt8
  | .make => makeImage
  | .powershell => createImage

/-! ## Where the kernel is -/

variable {image input : List UInt8} {off : Nat}

/-- An image that has room for a sector more than the two stages take, and has zeros there. -/
structure Blank (image : List UInt8) : Prop where
  length_ge : sectorSize * 2880 ≤ image.length
  zeros : ∀ i, sectorSize * 17 ≤ i → image[i]?.getD 0 = 0

/-- A patch below sector 17 leaves the rest blank. -/
theorem Blank.patch (h : Blank image) (hoff : off + input.length ≤ sectorSize * 17) :
    Blank (patch image off input) := by
  have hlen := h.length_ge
  have hin : off ≤ image.length := by unfold sectorSize at *; omega
  constructor
  · rw [length_patch hin]
    exact Nat.le_trans hlen (Nat.le_max_left ..)
  · intro i hi
    rw [getElem?_patch_of_le hin (Nat.le_trans hoff hi)]
    exact h.zeros i hi

theorem getD_replicate_zero (n i : Nat) : (List.replicate n (0 : UInt8))[i]?.getD 0 = 0 := by
  rw [List.getElem?_replicate]
  split <;> rfl

theorem blank_emptyImage : Blank emptyImage := by
  constructor
  · exact Nat.le_of_eq (List.length_replicate ..).symm
  · intro i _
    exact getD_replicate_zero _ i

/-- Within the image `dd` is a patch. -/
theorem dd_eq_patch {seek : Nat} (h : sectorSize * seek ≤ image.length) :
    dd image input seek = Boot.patch image (sectorSize * seek) input := by
  rw [dd, Nat.sub_eq_zero_of_le h, List.replicate_zero, List.append_nil]

/-- The larger image of `create_image.ps1` is blank, too. -/
theorem Blank.extend (h : Blank image) {n : Nat} (hn : sectorSize * 2880 ≤ n) :
    Blank (Boot.patch (List.replicate n 0) 0 image) := by
  constructor
  · rw [length_patch (Nat.zero_le _), List.length_replicate]
    exact Nat.le_trans hn (Nat.le_max_left ..)
  · intro i hi
    by_cases hin : i < image.length
    · have hat : (Boot.patch (List.replicate n 0) 0 image)[0 + i]? = image[i]? :=
        getElem?_patch (Nat.zero_le _) hin
      rw [Nat.zero_add] at hat
      rw [hat]
      exact h.zeros i hi
    · have hbehind : 0 + image.length ≤ i := by
        rw [Nat.zero_add]
        exact Nat.le_of_not_lt hin
      rw [getElem?_patch_of_le (Nat.zero_le _) hbehind]
      exact getD_replicate_zero n i

/-- The kernel, written over a blank. -/
theorem Blank.kernel (h : Blank image) (kernel : List UInt8) (i : Nat) :
    (Boot.patch image (sectorSize * 17) kernel)[sectorSize * 17 + i]?.getD 0 =
      kernel[i]?.getD 0 := by
  have hin : sectorSize * 17 ≤ image.length :=
    Nat.le_trans (Nat.mul_le_mul_left _ (by omega)) h.length_ge
  by_cases hi : i < kernel.length
  · rw [getElem?_patch hin hi]
  · rw [getElem?_patch_of_le hin (by omega), h.zeros _ (Nat.le_add_right ..),
      List.getElem?_eq_none (Nat.le_of_not_lt hi)]
    rfl

/-- `Math.Min` gives the whole of the first sector. -/
theorem Binaries.take_stage1 (bin : Binaries) :
    bin.stage1.take (min bin.stage1.length 512) = bin.stage1.take sectorSize := by
  rw [bin.length_stage1]
  rfl

/-- It gives the whole of the second stage. -/
theorem Binaries.take_stage2 (bin : Binaries) :
    bin.stage2.take (min bin.stage2.length 8192) = bin.stage2 := by
  rw [bin.length_stage2, ← bin.length_stage2, Nat.min_self, List.take_length]

/-- The image is the kernel in place of a blank, whichever way it is built. -/
theorem Build.image_eq (v : Build) (bin : Binaries) :
    ∃ image, Blank image ∧ v.image bin = Boot.patch image (sectorSize * 17) bin.kernel.bin := by
  have hstage1 : (bin.stage1.take sectorSize).length = 512 := by
    rw [List.length_take, bin.length_stage1]
    rfl
  have hstage2 := bin.length_stage2
  have h₁ : Blank (Boot.patch emptyImage 0 (bin.stage1.take sectorSize)) :=
    blank_emptyImage.patch (by unfold sectorSize at *; omega)
  have h₂ : Blank (Boot.patch (Boot.patch emptyImage 0 (bin.stage1.take sectorSize)) 512
      bin.stage2) := h₁.patch (by unfold sectorSize; omega)
  have hlt : ∀ {image : List UInt8} {n : Nat}, Blank image → n ≤ 2880 →
      sectorSize * n ≤ image.length := fun h hn ↦
    Nat.le_trans (Nat.mul_le_mul_left _ hn) h.length_ge
  cases v with
  | make =>
      refine ⟨_, h₂, ?_⟩
      show dd (dd (dd emptyImage (bin.stage1.take sectorSize) 0) bin.stage2 1) bin.kernel.bin 17 = _
      rw [dd_eq_patch (hlt blank_emptyImage (by omega)), Nat.mul_zero,
        dd_eq_patch (hlt h₁ (by omega)), Nat.mul_one]
      exact dd_eq_patch (hlt h₂ (by omega))
  | powershell =>
      simp only [Build.image, createImage, bin.take_stage1, bin.take_stage2]
      split
      next hlarge => exact ⟨_, h₂.extend (by unfold sectorSize at *; omega), rfl⟩
      · exact ⟨_, h₂, rfl⟩

/-- **From sector 17 on the image is the kernel, with zeros behind it.** -/
theorem Build.image_kernel (v : Build) (bin : Binaries) (i : Nat) :
    (v.image bin)[sectorSize * 17 + i]?.getD 0 = bin.kernel.bin[i]?.getD 0 := by
  obtain ⟨image, hblank, himage⟩ := v.image_eq bin
  rw [himage]
  exact hblank.kernel bin.kernel.bin i

/-- The image fills a floppy. -/
theorem Build.image_length (v : Build) (bin : Binaries) :
    sectorSize * 2880 ≤ (v.image bin).length := by
  obtain ⟨image, hblank, himage⟩ := v.image_eq bin
  rw [himage, length_patch (Nat.le_trans (Nat.mul_le_mul_left _ (by omega)) hblank.length_ge)]
  exact Nat.le_trans hblank.length_ge (Nat.le_max_left ..)

end KontolOS.Boot
