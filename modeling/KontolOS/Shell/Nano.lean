import KontolOS.Fs.Ramfs

/-!
# The text editor

A transcription of `cmd_nano` in `src/kernel/shell.c`: opening a file, handling a key, saving,
and leaving.  The lines are buffers of `NANO_LINE_LEN` bytes, or `NULL` where their allocation
failed; an access outside a buffer, or through `NULL`, gives `none`.  The heap decides
which allocations succeed and where they lie; what they contain at first is up to the
argument `junk`.  Drawing the screen does not change the state and is left out.

A `for` loop is a function of the variables that its body changes and of the number of
iterations that are left.
-/

namespace KontolOS.Shell

open KontolOS.Lib KontolOS.Memory KontolOS.Strings KontolOS.Fs

/-! ## State -/

/-- `NANO_MAX_LINES` -/
def nanoMaxLines : Nat := 100

/-- `NANO_LINE_LEN` -/
def nanoLineLen : Nat := 80

/-- `sizeof(char *)` -/
def sizeofPtr : Nat := 4

/-- `char **lines` -/
abbrev Lines : Type := List (Option (List UInt8))

/-- The variables of the editor's loop. -/
structure Nano where
  /-- `lines` -/
  lines : Lines
  /-- `int num_lines` -/
  numLines : Int
  /-- `int cur_line` -/
  curLine : Int
  /-- `int cur_col` -/
  curCol : Int
  /-- `int modified` -/
  modified : Bool
  /-- `int running` -/
  running : Bool

/-- The conversion of an `int` to `size_t`. -/
def sizeT (i : Int) : Nat := (i % 2 ^ 32).toNat

/-! ## Access to lines -/

/-- `lines[i]`, for reading from it. -/
def lineAt (ls : Lines) (i : Int) : Option (List UInt8) :=
  if 0 ≤ i then ls[i.toNat]?.join else none

/-- Change the bytes of `lines[i]`. -/
def modifyLine (ls : Lines) (i : Int) (f : List UInt8 → Option (List UInt8)) : Option Lines := do
  let buf ← f (← lineAt ls i)
  return ls.set i.toNat (some buf)

/-- `buf[i] = c` -/
def store (buf : List UInt8) (i : Nat) (c : UInt8) : Option (List UInt8) :=
  if i < buf.length then some (buf.set i c) else none

/-- `strcpy(lines[i], lines[j])` -/
def copyLine (ls : Lines) (i j : Int) : Option Lines := do
  let src ← lineAt ls j
  modifyLine ls i (strcpy · src)

/-! ## Editing -/

/-- `for (; i < len; i++) line[i] = line[i + 1]` -/
def closeGap (buf : List UInt8) (i : Nat) : Nat → Option (List UInt8)
  | 0 => some buf
  | n + 1 => do
      let c ← buf[i + 1]?
      let buf ← store buf i c
      closeGap buf (i + 1) n

/-- `for (; i > col; i--) line[i] = line[i - 1]` -/
def openGap (col : Nat) : Nat → List UInt8 → Option (List UInt8)
  | 0, buf => some buf
  | i + 1, buf =>
      if col < i + 1 then do
        let c ← buf[i]?
        let buf ← store buf (i + 1) c
        openGap col i buf
      else some buf

/-- `for (; i < num_lines - 1; i++) strcpy(lines[i], lines[i + 1])` -/
def shiftUp (ls : Lines) (i : Int) : Nat → Option Lines
  | 0 => some ls
  | n + 1 => do
      let ls ← copyLine ls i (i + 1)
      shiftUp ls (i + 1) n

/-- `for (; i > cur_line + 1; i--) strcpy(lines[i], lines[i - 1])` -/
def shiftDown (ls : Lines) (i : Int) : Nat → Option Lines
  | 0 => some ls
  | n + 1 => do
      let ls ← copyLine ls i (i - 1)
      shiftDown ls (i - 1) n

/-- Backspace -/
def nanoBackspace (e : Nano) : Option Nano :=
  if 0 < e.curCol then do
    let col := e.curCol - 1
    let len ← strlen (← lineAt e.lines e.curLine)
    let lines ← modifyLine e.lines e.curLine (closeGap · (sizeT col) (len - sizeT col))
    return { e with lines := lines, curCol := col, modified := true }
  else if 0 < e.curLine then do
    let line := e.curLine - 1
    let col ← strlen (← lineAt e.lines line)
    let next ← lineAt e.lines (line + 1)
    -- nothing checks that the joined line fits
    let lines ← modifyLine e.lines line (strcat · next)
    let lines ← shiftUp lines (line + 1) (e.numLines - 1 - (line + 1)).toNat
    let lines ← modifyLine lines (e.numLines - 1) (store · 0 0)
    return { e with
      lines := lines, numLines := e.numLines - 1, curLine := line, curCol := toInt col,
      modified := true }
  else some e

/-- Enter -/
def nanoEnter (e : Nano) : Option Nano :=
  if e.numLines < nanoMaxLines then do
    let lines ← shiftDown e.lines e.numLines (e.numLines - (e.curLine + 1)).toNat
    let cur ← lineAt lines e.curLine
    let lines ← modifyLine lines (e.curLine + 1) (strcpy · (cur.drop (sizeT e.curCol)))
    let lines ← modifyLine lines e.curLine (store · (sizeT e.curCol) 0)
    return { e with
      lines := lines, numLines := e.numLines + 1, curLine := e.curLine + 1, curCol := 0,
      modified := true }
  else some e

/-- A printable character -/
def nanoInsert (c : UInt8) (e : Nano) : Option Nano := do
  let len ← strlen (← lineAt e.lines e.curLine)
  if len < nanoLineLen - 1 then do
    let lines ← modifyLine e.lines e.curLine fun buf ↦ do
      store (← openGap (sizeT e.curCol) (len + 1) buf) (sizeT e.curCol) c
    return { e with lines := lines, curCol := e.curCol + 1, modified := true }
  else return e

/-- The bounds checks after each key -/
def nanoClamp (e : Nano) : Option Nano := do
  let line := if e.curLine < 0 then 0 else e.curLine
  let line := if e.numLines ≤ line then e.numLines - 1 else line
  let col := if e.curCol < 0 then 0 else e.curCol
  let len ← strlen (← lineAt e.lines line)
  let col := if toInt len < col then toInt len else col
  return { e with curLine := line, curCol := col }

/-! ## Saving -/

/-- `for (; i < num_lines; i++) total_size += strlen(lines[i]) + 1` -/
def nanoTotal (ls : Lines) (total : Nat) (i : Int) : Nat → Option Nat
  | 0 => some total
  | n + 1 => do
      let len ← strlen (← lineAt ls i)
      nanoTotal ls (add32 total (add32 len 1)) (i + 1) n

/-- The string literal `"\n"`. -/
def newline : List UInt8 := [0x0A, 0]

/-- `for (; i < num_lines; i++) { strcat(content, lines[i]); strcat(content, "\n"); }` -/
def nanoConcat (ls : Lines) (content : List UInt8) (i : Int) : Nat → Option (List UInt8)
  | 0 => some content
  | n + 1 => do
      let content ← strcat content (← lineAt ls i)
      let content ← strcat content newline
      nanoConcat ls content (i + 1) n

/-- Write a string to the file, if there is one; whether there is. -/
def nanoWrite (filename content : List UInt8) (s : Sys) : Option (Bool × Sys) := do
  match ← fsOpen s filename with
  | none => return (false, s)
  | some f =>
      let len ← strlen content
      let (_, s) ← fsWrite kmalloc s (some f) (some content) len
      return (true, s)

/-- Ctrl+S -/
def nanoSave (junk : Mem) (filename : List UInt8) (e : Nano) (s : Sys) : Option (Nano × Sys) := do
  let totalSize ← nanoTotal e.lines 0 0 e.numLines.toNat
  let (ptr, heap) ← kmalloc s.heap (add32 totalSize 1)
  if ptr = null then return (e, { s with heap := heap })
  let content ← store (junk.bytes ptr (add32 totalSize 1)) 0 0
  let content ← nanoConcat e.lines content 0 e.numLines.toNat
  -- the code that `fs_write` returns is not looked at
  let (found, s) ← nanoWrite filename content { s with heap := heap }
  let heap ← kfree s.heap ptr
  return ({ e with modified := if found then false else e.modified }, { s with heap := heap })

/-! ## Keys -/

/-- The branch of the loop for a key. -/
def nanoHandle (junk : Mem) (filename : List UInt8) (c : UInt8) (e : Nano) (s : Sys) :
    Option (Nano × Sys) :=
  if c = 19 then nanoSave junk filename e s
  else if c = 24 then some ({ e with running := false }, s)
  else if c = 8 then (nanoBackspace e).map (·, s)
  else if c = 10 ∨ c = 13 then (nanoEnter e).map (·, s)
  else if 32 ≤ c ∧ c < 127 then (nanoInsert c e).map (·, s)
  else some (e, s)

/-- What the loop does after it has read a key. -/
def nanoKey (junk : Mem) (filename : List UInt8) (c : UInt8) (e : Nano) (s : Sys) :
    Option (Nano × Sys) := do
  let (e, s) ← nanoHandle junk filename c e s
  return (← nanoClamp e, s)

/-! ## Opening a file -/

/-- `for (int i = 0; i < NANO_MAX_LINES; i++) lines[i] = kmalloc(NANO_LINE_LEN)` -/
def nanoAlloc (h : Heap) : Nat → Option (List Nat × Heap)
  | 0 => some ([], h)
  | n + 1 => do
      let (ptr, h) ← kmalloc h nanoLineLen
      let (ptrs, h) ← nanoAlloc h n
      return (ptr :: ptrs, h)

/-- A line right after its allocation. -/
def nanoLine (junk : Mem) (ptr : Nat) : Option (List UInt8) :=
  if ptr = null then none else some ((junk.bytes ptr nanoLineLen).set 0 0)

/-- `while (*p && *p != '\n') p++`: how far `p` is moved. -/
def lineEnd : List UInt8 → Option Nat
  | [] => none
  | c :: p => if c ≠ 0 ∧ c ≠ 0x0A then (lineEnd p).map (· + 1) else some 0

/-- The loop that parses the contents of the file into lines, of which `n` are left. -/
def nanoLoad (ls : Lines) (numLines : Int) : List UInt8 → Nat → Option (Int × Lines)
  | [], _ => none
  | _ :: _, 0 => some (numLines, ls)
  | c :: p, n + 1 =>
      if c = 0 then some (numLines, ls)
      else do
        let stop ← lineEnd (c :: p)
        let len := if nanoLineLen ≤ stop then nanoLineLen - 1 else stop
        let ls ← modifyLine ls numLines fun buf ↦ do store (← strncpy buf (c :: p) len) len 0
        let next ← ((c :: p).drop stop).head?
        let stop := if next = 0x0A then stop + 1 else stop
        nanoLoad ls (numLines + 1) ((c :: p).drop stop) n

/-- Read the file, if it is not empty, and parse it. -/
def nanoRead (junk : Mem) (filename : List UInt8) (ls : Lines) (s : Sys) :
    Option (Int × Lines × Sys) := do
  let file ← fsOpen s filename
  let size := fsGetSize s file
  if 0 < size then
    let (ptr, heap) ← kmalloc s.heap (add32 size 1)
    let s := { s with heap := heap }
    if ptr = null then return (1, ls, s)
    let (_, content) ← fsRead s file (some (junk.bytes ptr (add32 size 1))) size 0
    let content ← store (← content) size 0
    let (numLines, ls) ← nanoLoad ls 0 content nanoMaxLines
    let heap ← kfree s.heap ptr
    return (if numLines = 0 then 1 else numLines, ls, { s with heap := heap })
  else return (1, ls, s)

/-- The allocations of an editor: `lines`, and what it points to. -/
structure NanoBlocks where
  /-- `lines` -/
  table : Nat
  /-- `lines[0]` to `lines[NANO_MAX_LINES - 1]` -/
  ptrs : List Nat

/-- Create the file if there is none. -/
def nanoCreate (filename : List UInt8) (s : Sys) : Option Sys := do
  if (← fsExists s filename) = 0 then
    let (_, s) ← fsCreate s (some filename)
    return s
  else return s

/-- The beginning of `cmd_nano`: create the file, and allocate the lines.  There are no blocks
if the first allocation fails. -/
def nanoAllocate (filename : List UInt8) (s : Sys) : Option (Option NanoBlocks × Sys) := do
  let s ← nanoCreate filename s
  let (table, heap) ← kmalloc s.heap (nanoMaxLines * sizeofPtr)
  if table = null then return (none, { s with heap := heap })
  let (ptrs, heap) ← nanoAlloc heap nanoMaxLines
  return (some ⟨table, ptrs⟩, { s with heap := heap })

/-- `cmd_nano` from there to its main loop. -/
def nanoOpen (junk : Mem) (filename : List UInt8) (b : NanoBlocks) (s : Sys) :
    Option (Nano × Sys) := do
  let (numLines, lines, s) ← nanoRead junk filename (b.ptrs.map (nanoLine junk)) s
  return (⟨lines, numLines, 0, 0, false, true⟩, s)

/-! ## Leaving -/

/-- `for (int i = 0; i < NANO_MAX_LINES; i++) if (lines[i]) kfree(lines[i])` -/
def nanoFree (h : Heap) : List Nat → Option Heap
  | [] => some h
  | ptr :: ptrs => do
      let h ← if ptr = null then some h else kfree h ptr
      nanoFree h ptrs

/-- The end of `cmd_nano`: free the lines. -/
def nanoClose (b : NanoBlocks) (s : Sys) : Option Sys := do
  let heap ← nanoFree s.heap b.ptrs
  let heap ← kfree heap b.table
  return { s with heap := heap }

/-! ## The main loop -/

/-- One turn of the main loop. -/
def NanoStep (filename : List UInt8) (x : Nano × Sys) (c : UInt8) (y : Nano × Sys) : Prop :=
  x.1.running = true ∧ ∃ junk, nanoKey junk filename c x.1 x.2 = some y

end KontolOS.Shell
