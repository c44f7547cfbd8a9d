import KontolOS.Lib.Memory

/-!
# The kernel memory manager

A transcription of `src/kernel/memory.c`.  The heap is one stretch of the byte memory;
each block begins with a `struct mem_block` stored in those same bytes:

| offset | field | bytes |
|---|---|---|
| 0 | `size_t size` | 4 |
| 4 | `bool used` | 1, then 3 of padding |
| 8 | `struct mem_block *next` | 4 |

Pointers are addresses, and `NULL` is `0`.  Every `size_t` operation is taken modulo
`2 ^ 32`, as the code takes it.  The two `while` loops over the block list follow `next`
pointers read from memory, which need not form a finite list; they are given
`walkFuel` rounds and return `none` if these do not suffice.
-/

namespace KontolOS.Memory

open KontolOS.Lib

/-! ## Constants and state -/

/-- The null pointer. -/
def null : Nat := 0

/-- `HEAP_START`: the heap begins at 2 MB. -/
def heapStart : Nat := 0x200000

/-- `HEAP_SIZE`: the heap has 4 MB. -/
def heapSize : Nat := 0x400000

/-- `HEAP_END`. -/
def heapEnd : Nat := heapStart + heapSize

/-- `sizeof(struct mem_block)` on i386. -/
def sizeofBlock : Nat := 12

/-- Rounds granted to a walk along the block list. -/
def walkFuel : Nat := heapSize

/-- The memory and the static variables of `memory.c`. -/
structure Heap where
  /-- The byte memory, the heap included. -/
  mem : Mem
  /-- `heap_start` -/
  heapStart : Nat
  /-- `total_memory` -/
  totalMemory : Nat
  /-- `used_memory` -/
  usedMemory : Nat

/-! ## The fields of a block header -/

/-- `block->size` -/
def blockSize (m : Mem) (block : Nat) : Nat := m.load32 block

/-- `block->used` -/
def blockUsed (m : Mem) (block : Nat) : Bool := m (block + 4) != 0

/-- `block->next` -/
def blockNext (m : Mem) (block : Nat) : Nat := m.load32 (block + 8)

/-- `block->size = size` -/
def setSize (m : Mem) (block size : Nat) : Mem := m.store32 block size

/-- `block->used = used` -/
def setUsed (m : Mem) (block : Nat) (used : Bool) : Mem :=
  m.store8 (block + 4) (if used then 1 else 0)

/-- `block->next = next` -/
def setNext (m : Mem) (block next : Nat) : Mem := m.store32 (block + 8) next

/-! ## Moving bytes -/

/-- `memcpy` within one memory: `while (n--) *d++ = *s++`. -/
def memcpy (m : Mem) (dest src : Nat) : Nat → Mem
  | 0 => m
  | n + 1 => memcpy (m.store8 dest (m src)) (dest + 1) (src + 1) n

/-- `memset`: `while (n--) *p++ = c`. -/
def memset (m : Mem) (s : Nat) (c : UInt8) : Nat → Mem
  | 0 => m
  | n + 1 => memset (m.store8 s c) (s + 1) c n

/-! ## Initialisation and statistics -/

/-- `memory_init`: one free block that is the whole heap. -/
def memoryInit (m : Mem) : Heap :=
  { mem := setNext (setUsed (setSize m heapStart heapSize) heapStart false) heapStart null
    heapStart := heapStart
    totalMemory := heapSize
    usedMemory := 0 }

/-- `memory_get_total` -/
def memoryGetTotal (h : Heap) : Nat := h.totalMemory

/-- `memory_get_used` -/
def memoryGetUsed (h : Heap) : Nat := h.usedMemory

/-- `memory_get_free` -/
def memoryGetFree (h : Heap) : Nat := sub32 h.totalMemory h.usedMemory

/-! ## Allocation -/

/-- `(size + 7) & ~7` -/
def alignUp (size : Nat) : Nat := add32 size 7 &&& 0xFFFFFFF8

/-- The size a request is charged: aligned, and with its header. -/
def totalSize (size : Nat) : Nat := add32 (alignUp size) sizeofBlock

/-- The body of the `if` in the search of `kmalloc`: split `block` if it is much larger
than needed, mark it used, count it, and return the address after its header. -/
def kmallocTake (h : Heap) (totalSize block : Nat) : Nat × Heap :=
  let m := h.mem
  let m :=
    if add32 (add32 totalSize sizeofBlock) 16 ≤ blockSize m block then
      let newBlock := block + totalSize
      let m := setSize m newBlock (sub32 (blockSize m block) totalSize)
      let m := setUsed m newBlock false
      let m := setNext m newBlock (blockNext m block)
      let m := setSize m block totalSize
      setNext m block newBlock
    else m
  let m := setUsed m block true
  (block + sizeofBlock,
    { h with mem := m, usedMemory := add32 h.usedMemory (blockSize m block) })

/-- The search of `kmalloc` for the first free block that fits, from `block` on. -/
def kmallocWalk (h : Heap) (totalSize : Nat) : Nat → Nat → Option (Nat × Heap)
  | 0, _ => none
  | fuel + 1, block =>
      if block = null then some (null, h)
      else if !blockUsed h.mem block && decide (totalSize ≤ blockSize h.mem block) then
        some (kmallocTake h totalSize block)
      else kmallocWalk h totalSize fuel (blockNext h.mem block)

/-- `kmalloc` -/
def kmalloc (h : Heap) (size : Nat) : Option (Nat × Heap) :=
  if size = 0 then some (null, h)
  else kmallocWalk h (totalSize size) walkFuel h.heapStart

/-- `kcalloc` -/
def kcalloc (h : Heap) (num size : Nat) : Option (Nat × Heap) := do
  let total := mul32 num size
  let (ptr, h) ← kmalloc h total
  if ptr = null then return (ptr, h)
  return (ptr, { h with mem := memset h.mem ptr 0 total })

/-! ## Release -/

/-- `b->size += c->size; b->next = c->next;`, the two coalescing steps of `kfree`. -/
def absorb (m : Mem) (b c : Nat) : Mem :=
  let m := setSize m b (add32 (blockSize m b) (blockSize m c))
  setNext m b (blockNext m c)

/-- Coalesce `block` with the next block if that is free. -/
def coalesceNext (m : Mem) (block : Nat) : Mem :=
  let next := blockNext m block
  if next ≠ null ∧ blockUsed m next = false then absorb m block next else m

/-- Coalesce `block` with the block `prev` in front of it if that is free. -/
def coalescePrev (m : Mem) (block prev : Nat) : Mem :=
  if prev ≠ null ∧ blockUsed m prev = false then absorb m prev block else m

/-- The search of `kfree` for the block in front of `block`, from `prev` on. -/
def prevWalk (m : Mem) (block : Nat) : Nat → Nat → Option Nat
  | 0, _ => none
  | fuel + 1, prev =>
      if prev ≠ null ∧ blockNext m prev ≠ block then prevWalk m block fuel (blockNext m prev)
      else some prev

/-- `kfree` -/
def kfree (h : Heap) (ptr : Nat) : Option Heap :=
  if ptr = null then some h
  else
    let block := sub32 ptr sizeofBlock
    -- double free
    if !blockUsed h.mem block then some h
    else do
      let m := setUsed h.mem block false
      let usedMemory := sub32 h.usedMemory (blockSize m block)
      let m := coalesceNext m block
      let prev ← prevWalk m block walkFuel h.heapStart
      return { h with mem := coalescePrev m block prev, usedMemory := usedMemory }

/-- `krealloc` -/
def krealloc (h : Heap) (ptr size : Nat) : Option (Nat × Heap) :=
  if ptr = null then kmalloc h size
  else if size = 0 then (kfree h ptr).map fun h ↦ (null, h)
  else
    let oldBlock := sub32 ptr sizeofBlock
    let oldSize := sub32 (blockSize h.mem oldBlock) sizeofBlock
    if size ≤ oldSize then some (ptr, h)
    else do
      let (newPtr, h) ← kmalloc h size
      if newPtr = null then return (null, h)
      let h := { h with mem := memcpy h.mem newPtr ptr oldSize }
      let h ← kfree h ptr
      return (newPtr, h)

end KontolOS.Memory
