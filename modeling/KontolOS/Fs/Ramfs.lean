import Mathlib.Data.List.FinRange
import KontolOS.Memory.Clients
import KontolOS.Strings

/-!
# The RAM filesystem

A transcription of `src/fs/ramfs.c`.  A slot of the file table is an index below
`FS_MAX_FILES`, and `fs_file_t *` is such an index or `NULL`.  File contents live in the
heap of the memory manager, so the state is the heap together with the static variables
of the filesystem.

Names and data passed by callers are buffers; `NULL` is `none`.  They lie outside the
blocks that the table points to.  As in `Memory/Heap.lean`, a function that faults or
does not return gives `none`.

`fs_write` and `fs_append` take the allocator they call as a parameter: it is `kmalloc`,
or `outOfMemory` for a call of `kmalloc` that fails.
-/

namespace KontolOS.Fs

open KontolOS.Lib KontolOS.Memory KontolOS.Strings

/-! ## Constants and state -/

/-- `FS_MAX_FILES` -/
def fsMaxFiles : Nat := 64

/-- `FS_MAX_FILENAME` -/
def fsMaxFilename : Nat := 32

/-- `FS_MAX_FILESIZE`: 64 KB. -/
def fsMaxFilesize : Nat := 64 * 1024

/-- `FS_FLAG_FREE` -/
def fsFlagFree : UInt8 := 0x00

/-- `FS_FLAG_USED` -/
def fsFlagUsed : UInt8 := 0x01

/-- `FS_FLAG_DIRECTORY` -/
def fsFlagDirectory : UInt8 := 0x04

/-- `fs_file_t` -/
structure FsFile where
  /-- `char name[FS_MAX_FILENAME]` -/
  name : List UInt8
  /-- `uint8_t *data` -/
  data : Nat
  /-- `size_t size` -/
  size : Nat
  /-- `uint8_t flags` -/
  flags : UInt8

/-- `flags & FS_FLAG_USED` -/
def FsFile.used (f : FsFile) : Bool := f.flags &&& fsFlagUsed != 0

/-- `flags & FS_FLAG_DIRECTORY` -/
def FsFile.directory (f : FsFile) : Bool := f.flags &&& fsFlagDirectory != 0

/-- A slot of the file table. -/
abbrev Slot : Type := Fin fsMaxFiles

/-- The heap and the static variables of `ramfs.c`. -/
structure Sys where
  /-- the heap -/
  heap : Heap
  /-- `file_table` -/
  fileTable : Slot → FsFile
  /-- `char current_dir[FS_MAX_FILENAME]` -/
  currentDir : List UInt8

/-- `file_table[i] = f` -/
def Sys.setFile (s : Sys) (i : Slot) (f : FsFile) : Sys :=
  { s with fileTable := Function.update s.fileTable i f }

/-- What `fs_write` and `fs_append` call for memory. -/
abbrev Allocator : Type := Heap → Nat → Option (Nat × Heap)

/-- An allocator that has nothing to give. -/
def outOfMemory : Allocator := fun h _ ↦ some (null, h)

/-- The conversion of a `size_t` to `int`. -/
def toInt (n : Nat) : Int := Int.bmod n (2 ^ 32)

theorem toInt_of_lt {n : Nat} (h : n < 2 ^ 31) : toInt n = n := by
  apply Int.bmod_eq_of_le
  · omega
  · omega

/-! ## Moving bytes in and out of the heap -/

/-- `memcpy` from a caller's buffer to memory. -/
def copyIn (m : Mem) (dest : Nat) : List UInt8 → Nat → Option Mem
  | _, 0 => some m
  | b :: src, n + 1 => copyIn (m.store8 dest b) (dest + 1) src n
  | [], _ + 1 => none

/-- `memcpy` from memory to a caller's buffer. -/
def copyOut (m : Mem) (src : Nat) : List UInt8 → Nat → Option (List UInt8)
  | dest, 0 => some dest
  | _ :: dest, n + 1 => (copyOut m (src + 1) dest n).map (m src :: ·)
  | [], _ + 1 => none

/-! ## The file table -/

/-- An entry after the four assignments that clear it. -/
def FsFile.clear (f : FsFile) : FsFile :=
  { name := f.name.set 0 0, data := null, size := 0, flags := fsFlagFree }

/-- `fs_init` -/
def fsInit (s : Sys) : Sys := { s with fileTable := fun i ↦ (s.fileTable i).clear }

/-- The loop of `fs_find` over the slots that are left. -/
def fsFindIn (s : Sys) (name : List UInt8) : List Slot → Option (Option Slot)
  | [] => some none
  | i :: rest =>
      if (s.fileTable i).used then do
        let order ← strcmp (s.fileTable i).name name
        if order = 0 then return some i else fsFindIn s name rest
      else fsFindIn s name rest

/-- `fs_find` -/
def fsFind (s : Sys) (name : List UInt8) : Option (Option Slot) :=
  fsFindIn s name (List.finRange fsMaxFiles)

/-- `fs_find_free` -/
def fsFindFree (s : Sys) : Option Slot :=
  (List.finRange fsMaxFiles).find? fun i ↦ !(s.fileTable i).used

/-- `fs_exists` -/
def fsExists (s : Sys) (name : List UInt8) : Option Int := do
  let found ← fsFind s name
  return if found.isSome then 1 else 0

/-- `fs_count` -/
def fsCount (s : Sys) : Nat := (List.finRange fsMaxFiles).countP fun i ↦ (s.fileTable i).used

/-! ## Creating and removing entries -/

/-- The common body of `fs_create` and `fs_mkdir`, which differ in the flags they set. -/
def fsNew (flags : UInt8) (s : Sys) : Option (List UInt8) → Option (Int × Sys)
  | none => some (-1, s)
  | some name => do
      let len ← strlen name
      if len = 0 ∨ fsMaxFilename ≤ len then return (-1, s)
      let found ← fsFind s name
      if found.isSome then return (-2, s)
      match fsFindFree s with
      | none => return (-3, s)
      | some slot =>
          let copied ← strncpy (s.fileTable slot).name name (fsMaxFilename - 1)
          return (0, s.setFile slot
            { name := copied.set (fsMaxFilename - 1) 0, data := null, size := 0, flags := flags })

/-- `fs_create` -/
def fsCreate (s : Sys) (name : Option (List UInt8)) : Option (Int × Sys) :=
  fsNew fsFlagUsed s name

/-- `fs_mkdir` -/
def fsMkdir (s : Sys) (name : Option (List UInt8)) : Option (Int × Sys) :=
  fsNew (fsFlagUsed ||| fsFlagDirectory) s name

/-- `if (data != NULL) kfree(data)` -/
def freeData (h : Heap) (data : Nat) : Option Heap :=
  if data = null then some h else kfree h data

/-- `fs_delete` -/
def fsDelete (s : Sys) (name : List UInt8) : Option (Int × Sys) := do
  match ← fsFind s name with
  | none => return (-1, s)
  | some idx =>
      let heap ← freeData s.heap (s.fileTable idx).data
      return (0, { s with heap }.setFile idx (s.fileTable idx).clear)

/-- `fs_rmdir`.  Unlike `fs_delete` it does not free the data of the entry. -/
def fsRmdir (s : Sys) (name : List UInt8) : Option (Int × Sys) := do
  match ← fsFind s name with
  | none => return (-1, s)
  | some idx =>
      if (s.fileTable idx).directory then return (0, s.setFile idx (s.fileTable idx).clear)
      else return (-2, s)

/-- `fs_open` -/
def fsOpen (s : Sys) (name : List UInt8) : Option (Option Slot) := fsFind s name

/-! ## File contents -/

/-- `fs_read`: the code it returns, and the caller's buffer afterwards. -/
def fsRead (s : Sys) (file : Option Slot) (buffer : Option (List UInt8)) (size offset : Nat) :
    Option (Int × Option (List UInt8)) :=
  match file, buffer with
  | some i, some dest => do
      let f := s.fileTable i
      if f.size ≤ offset then return (0, some dest)
      let available := sub32 f.size offset
      let toRead := if size < available then size else available
      if f.data = null then return (toInt toRead, some dest)
      let dest ← copyOut s.heap.mem (f.data + offset) dest toRead
      return (toInt toRead, some dest)
  | _, _ => some (-1, buffer)

/-- `fs_write` -/
def fsWrite (malloc : Allocator) (s : Sys) (file : Option Slot) (data : Option (List UInt8))
    (size : Nat) : Option (Int × Sys) :=
  match file, data with
  | some i, some src => do
      if fsMaxFilesize < size then return (-2, s)
      -- the old contents are given up before there is room for the new ones
      let heap ← freeData s.heap (s.fileTable i).data
      let f := { s.fileTable i with data := null }
      if size = 0 then return (toInt size, { s with heap }.setFile i { f with size := size })
      let (ptr, heap) ← malloc heap size
      if ptr = null then return (-3, { s with heap }.setFile i f)
      let mem ← copyIn heap.mem ptr src size
      return (toInt size, { s with heap := { heap with mem } }.setFile i
        { f with data := ptr, size := size })
  | _, _ => some (-1, s)

/-- `fs_append` -/
def fsAppend (malloc : Allocator) (s : Sys) (file : Option Slot) (data : Option (List UInt8))
    (size : Nat) : Option (Int × Sys) :=
  match file, data with
  | some i, some src => do
      if size = 0 then return (-1, s)
      let f := s.fileTable i
      let newSize := add32 f.size size
      if fsMaxFilesize < newSize then return (-2, s)
      let (newData, heap) ← malloc s.heap newSize
      if newData = null then return (-3, { s with heap })
      let mem :=
        if f.data ≠ null ∧ 0 < f.size then memcpy heap.mem newData f.data f.size else heap.mem
      let mem ← copyIn mem (newData + f.size) src size
      let heap ← freeData { heap with mem } f.data
      return (toInt size, { s with heap }.setFile i { f with data := newData, size := newSize })
  | _, _ => some (-1, s)

/-- `fs_truncate` -/
def fsTruncate (s : Sys) : Option Slot → Option (Int × Sys)
  | none => some (-1, s)
  | some i => do
      let heap ← freeData s.heap (s.fileTable i).data
      return (0, { s with heap }.setFile i { s.fileTable i with data := null, size := 0 })

/-- `fs_get_size` -/
def fsGetSize (s : Sys) (file : Option Slot) : Nat := file.elim 0 fun i ↦ (s.fileTable i).size

/-- `fs_is_dir` -/
def fsIsDir (s : Sys) (file : Option Slot) : Int :=
  file.elim 0 fun i ↦ if (s.fileTable i).directory then 1 else 0

/-! ## The current directory -/

/-- The string literal `"/"`. -/
def rootName : List UInt8 := [0x2F, 0]

/-- The string literal `".."`. -/
def parentName : List UInt8 := [0x2E, 0x2E, 0]

/-- `fs_chdir` -/
def fsChdir (s : Sys) : Option (List UInt8) → Option (Int × Sys)
  | none => some (-1, s)
  | some name => do
      let order ← strcmp name rootName
      if order = 0 then return (0, { s with currentDir := ← strcpy s.currentDir rootName })
      let order ← strcmp name parentName
      if order = 0 then return (0, { s with currentDir := ← strcpy s.currentDir rootName })
      match ← fsFind s name with
      | none => return (-1, s)
      | some idx =>
          if (s.fileTable idx).directory then
            let copied ← strncpy s.currentDir name (fsMaxFilename - 1)
            return (0, { s with currentDir := copied.set (fsMaxFilename - 1) 0 })
          else return (-2, s)

/-- `fs_getcwd` -/
def fsGetcwd (s : Sys) : List UInt8 := s.currentDir

end KontolOS.Fs
