import KontolOS.Fs.Ramfs
import KontolOS.Memory.Room

/-!
# The filesystem in use

The calls of the filesystem as one step relation, on a heap that other parts of the
kernel may use at the same time.  A `World` is the state of the filesystem together with
a record of what the others hold; a step is a call of the filesystem, or a call that one
of the others makes of the memory manager.

A call names the file it works on by a handle (`FsCall (Option Slot)`), or by a name that
is opened first (`FsCall (List UInt8)`).
-/

namespace KontolOS.Fs

open KontolOS.Lib KontolOS.Memory KontolOS.Strings

/-! ## Calls -/

/-- The calls of the filesystem.  `F` is what stands for a file. -/
inductive FsCall (F : Type)
  | /-- `fs_create(name)` -/ create (name : Option (List UInt8))
  | /-- `fs_mkdir(name)` -/ mkdir (name : Option (List UInt8))
  | /-- `fs_delete(name)` -/ delete (name : List UInt8)
  | /-- `fs_rmdir(name)` -/ rmdir (name : List UInt8)
  | /-- `fs_chdir(name)` -/ chdir (name : Option (List UInt8))
  | /-- `fs_exists(name)` -/ exist (name : List UInt8)
  | /-- `fs_count()` -/ count
  | /-- `fs_write(file, data, size)` -/
    write (file : F) (data : Option (List UInt8)) (size : Nat)
  | /-- `fs_append(file, data, size)` -/
    append (file : F) (data : Option (List UInt8)) (size : Nat)
  | /-- `fs_truncate(file)` -/ truncate (file : F)
  | /-- `fs_read(file, buffer, size, offset)` -/
    read (file : F) (buffer : Option (List UInt8)) (size offset : Nat)
  | /-- `fs_get_size(file)` -/ getSize (file : F)
  | /-- `fs_is_dir(file)` -/ isDir (file : F)

/-- What a caller sees of a call. -/
structure Outcome where
  /-- the value returned -/
  code : Int
  /-- the buffer passed, as the call leaves it -/
  buffer : Option (List UInt8)

/-- The outcome of a call that was passed no buffer. -/
def Outcome.ofCode (code : Int) : Outcome := ⟨code, none⟩

/-- A call of the filesystem, with the allocator it uses. -/
def FsCall.exec (malloc : Allocator) (s : Sys) : FsCall (Option Slot) → Option (Outcome × Sys)
  | .create name => (fsCreate s name).map (Prod.map .ofCode id)
  | .mkdir name => (fsMkdir s name).map (Prod.map .ofCode id)
  | .delete name => (fsDelete s name).map (Prod.map .ofCode id)
  | .rmdir name => (fsRmdir s name).map (Prod.map .ofCode id)
  | .chdir name => (fsChdir s name).map (Prod.map .ofCode id)
  | .exist name => (fsExists s name).map fun code ↦ (.ofCode code, s)
  | .count => some (.ofCode (fsCount s), s)
  | .write file data size => (fsWrite malloc s file data size).map (Prod.map .ofCode id)
  | .append file data size => (fsAppend malloc s file data size).map (Prod.map .ofCode id)
  | .truncate file => (fsTruncate s file).map (Prod.map .ofCode id)
  | .read file buffer size offset =>
      (fsRead s file buffer size offset).map fun r ↦ (⟨r.1, r.2⟩, s)
  | .getSize file => some (.ofCode (fsGetSize s file), s)
  | .isDir file => some (.ofCode (fsIsDir s file), s)

/-- The same call, with what stands for its file looked up by `f`. -/
def FsCall.traverse {F G : Type} (f : F → Option G) : FsCall F → Option (FsCall G)
  | .create name => some (.create name)
  | .mkdir name => some (.mkdir name)
  | .delete name => some (.delete name)
  | .rmdir name => some (.rmdir name)
  | .chdir name => some (.chdir name)
  | .exist name => some (.exist name)
  | .count => some .count
  | .write file data size => (f file).map (.write · data size)
  | .append file data size => (f file).map (.append · data size)
  | .truncate file => (f file).map .truncate
  | .read file buffer size offset => (f file).map (.read · buffer size offset)
  | .getSize file => (f file).map .getSize
  | .isDir file => (f file).map .isDir

/-- Open the file of a call by its name. -/
def FsCall.open (s : Sys) (c : FsCall (List UInt8)) : Option (FsCall (Option Slot)) :=
  c.traverse (fsOpen s)

/-- What a caller must see to: names are C strings, and buffers are as large as it says, which is
a `size_t`. -/
def FsCall.Legal {F : Type} (okFile : F → Prop) : FsCall F → Prop
  | .create name | .mkdir name | .chdir name => ∀ buf, name = some buf → ∃ n, Holds buf n
  | .delete name | .rmdir name | .exist name => ∃ n, Holds name n
  | .count => True
  | .write file data size | .append file data size =>
      okFile file ∧ size < 2 ^ 32 ∧ ∀ src, data = some src → size ≤ src.length
  | .read file buffer size _ =>
      okFile file ∧ size < 2 ^ 32 ∧ ∀ dest, buffer = some dest → size ≤ dest.length
  | .truncate file | .getSize file | .isDir file => okFile file

/-- A handle may be used while its entry exists. -/
def ValidHandle (s : Sys) (file : Option Slot) : Prop :=
  ∀ i, file = some i → (s.fileTable i).used = true

/-- The sum of the sizes wraps around, and `fs_append` gets a block for what is left of it.  What it
copies is larger than the block, and overwrites the heap behind it. -/
def Overruns (fails : Bool) (s : Sys) : FsCall (Option Slot) → Prop
  | .append (some i) (some _) size => fails = false ∧ 2 ^ 32 < (s.fileTable i).size + size ∧
      Room s.heap null (totalSize ((s.fileTable i).size + size - 2 ^ 32))
  | _ => False

/-! ## Worlds and runs -/

/-- The filesystem, and what the other clients of the heap hold. -/
structure World where
  /-- the filesystem and the heap -/
  sys : Sys
  /-- the allocations of the others -/
  others : Live

/-- What happens in a world. -/
inductive Act (F : Type)
  | /-- A call of the filesystem and its outcome; its `kmalloc` may be made to fail. -/
    fs (fails : Bool) (c : FsCall F) (o : Outcome)
  | /-- A call of the memory manager by one of the others. -/
    other (c : Call)

/-- The allocator of a call: `kmalloc`, unless it is made to fail. -/
def allocator (fails : Bool) : Allocator := if fails then outOfMemory else kmalloc

/-- One step of a world, in which nothing is overwritten. -/
def WorldStep (w : World) : Act (Option Slot) → World → Prop
  | .fs fails c o, w' => c.Legal (ValidHandle w.sys) ∧ ¬ Overruns fails w.sys c ∧
      w'.others = w.others ∧ c.exec (allocator fails) w.sys = some (o, w'.sys)
  | .other c, w' => Careful ⟨w.sys.heap, w.others⟩ c ∧
      w'.sys = { w.sys with heap := w'.sys.heap } ∧
      ∃ ptr, exec ⟨w.sys.heap, w.others⟩ c = some (ptr, ⟨w'.sys.heap, w'.others⟩)

/-- One step in which files are opened by name at once before they are used. -/
def NamedStep (w : World) : Act (List UInt8) → World → Prop
  | .fs fails c o, w' => c.Legal (fun name ↦ ∃ n, Holds name n) ∧
      ∃ c', c.open w.sys = some c' ∧ WorldStep w (.fs fails c' o) w'
  | .other c, w' => WorldStep w (.other c) w'

/-- `current_dir` as it is initialised. -/
def rootDir : List UInt8 := 0x2F :: List.replicate (fsMaxFilename - 1) 0

/-- A world right after `fs_init`: any heap the others have reached so far, an empty table,
and `"/"` as the current directory. -/
def Booted (w : World) : Prop :=
  Reachable Careful ⟨w.sys.heap, w.others⟩ ∧ ∃ s : Sys,
    (∀ i, (s.fileTable i).name.length = fsMaxFilename) ∧ s.currentDir = rootDir ∧
      w.sys = fsInit s

end KontolOS.Fs
