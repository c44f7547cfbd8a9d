import KontolOS.Lib.Tracks
import KontolOS.Shell.NanoRun

/-!
# Why the editor fails

The functions of `cmd_nano` once more, with a reason for each failure: an access through
`lines[i]` where this is `NULL`, or something else, such as an access outside a buffer.  In all
other respects they are those of the model of the editor, which has no result where they fail
(`Tracks`).

Where a line is `NULL` (`Blanked`), what is done is what would be done if the line were allocated,
up to the first access to it.
-/

namespace KontolOS.Shell

open KontolOS.Lib KontolOS.Memory KontolOS.Strings KontolOS.Fs

/-- What goes wrong. -/
inductive Fault
  | /-- an access to `*lines[i]`, where `lines[i]` is `NULL` -/
    null (i : Nat)
  | /-- anything else -/
    other

namespace Deref

/-! ## Access to lines -/

/-- Something that does not depend on whether a line is `NULL`. -/
def check {α : Type} (x : Option α) : Except Fault α := orError .other x

/-- `lines[i]`, for an access to what it points to. -/
def lineAt (ls : Lines) (i : Int) : Except Fault (List UInt8) :=
  if 0 ≤ i then
    match ls[i.toNat]? with
    | some (some buf) => .ok buf
    | some none => .error (.null i.toNat)
    | none => .error .other
  else .error .other

/-- Change the bytes of `lines[i]`. -/
def modifyLine (ls : Lines) (i : Int) (f : List UInt8 → Option (List UInt8)) :
    Except Fault Lines := do
  let buf ← lineAt ls i
  let buf ← check (f buf)
  return ls.set i.toNat (some buf)

/-- `strcpy(lines[i], lines[j])` -/
def copyLine (ls : Lines) (i j : Int) : Except Fault Lines := do
  let src ← lineAt ls j
  modifyLine ls i (strcpy · src)

/-! ## Editing -/

/-- `for (; i < num_lines - 1; i++) strcpy(lines[i], lines[i + 1])` -/
def shiftUp (ls : Lines) (i : Int) : Nat → Except Fault Lines
  | 0 => .ok ls
  | n + 1 => do
      let ls ← copyLine ls i (i + 1)
      shiftUp ls (i + 1) n

/-- `for (; i > cur_line + 1; i--) strcpy(lines[i], lines[i - 1])` -/
def shiftDown (ls : Lines) (i : Int) : Nat → Except Fault Lines
  | 0 => .ok ls
  | n + 1 => do
      let ls ← copyLine ls i (i - 1)
      shiftDown ls (i - 1) n

/-- Backspace -/
def nanoBackspace (e : Nano) : Except Fault Nano :=
  if 0 < e.curCol then do
    let col := e.curCol - 1
    let len ← check (strlen (← lineAt e.lines e.curLine))
    let lines ← modifyLine e.lines e.curLine (closeGap · (sizeT col) (len - sizeT col))
    return { e with lines := lines, curCol := col, modified := true }
  else if 0 < e.curLine then do
    let line := e.curLine - 1
    let col ← check (strlen (← lineAt e.lines line))
    let next ← lineAt e.lines (line + 1)
    let lines ← modifyLine e.lines line (strcat · next)
    let lines ← shiftUp lines (line + 1) (e.numLines - 1 - (line + 1)).toNat
    let lines ← modifyLine lines (e.numLines - 1) (store · 0 0)
    return { e with
      lines := lines, numLines := e.numLines - 1, curLine := line, curCol := toInt col,
      modified := true }
  else .ok e

/-- Enter -/
def nanoEnter (e : Nano) : Except Fault Nano :=
  if e.numLines < nanoMaxLines then do
    let lines ← shiftDown e.lines e.numLines (e.numLines - (e.curLine + 1)).toNat
    let cur ← lineAt lines e.curLine
    let lines ← modifyLine lines (e.curLine + 1) (strcpy · (cur.drop (sizeT e.curCol)))
    let lines ← modifyLine lines e.curLine (store · (sizeT e.curCol) 0)
    return { e with
      lines := lines, numLines := e.numLines + 1, curLine := e.curLine + 1, curCol := 0,
      modified := true }
  else .ok e

/-- A printable character -/
def nanoInsert (c : UInt8) (e : Nano) : Except Fault Nano := do
  let len ← check (strlen (← lineAt e.lines e.curLine))
  if len < nanoLineLen - 1 then do
    let lines ← modifyLine e.lines e.curLine fun buf ↦ do
      store (← openGap (sizeT e.curCol) (len + 1) buf) (sizeT e.curCol) c
    return { e with lines := lines, curCol := e.curCol + 1, modified := true }
  else return e

/-- The bounds checks after each key -/
def nanoClamp (e : Nano) : Except Fault Nano := do
  let line := if e.curLine < 0 then 0 else e.curLine
  let line := if e.numLines ≤ line then e.numLines - 1 else line
  let col := if e.curCol < 0 then 0 else e.curCol
  let len ← check (strlen (← lineAt e.lines line))
  let col := if toInt len < col then toInt len else col
  return { e with curLine := line, curCol := col }

/-! ## Saving -/

/-- `for (; i < num_lines; i++) total_size += strlen(lines[i]) + 1` -/
def nanoTotal (ls : Lines) (total : Nat) (i : Int) : Nat → Except Fault Nat
  | 0 => .ok total
  | n + 1 => do
      let len ← check (strlen (← lineAt ls i))
      nanoTotal ls (add32 total (add32 len 1)) (i + 1) n

/-- `for (; i < num_lines; i++) { strcat(content, lines[i]); strcat(content, "\n"); }` -/
def nanoConcat (ls : Lines) (content : List UInt8) (i : Int) :
    Nat → Except Fault (List UInt8)
  | 0 => .ok content
  | n + 1 => do
      let content ← check (strcat content (← lineAt ls i))
      let content ← check (strcat content newline)
      nanoConcat ls content (i + 1) n

/-- Ctrl+S -/
def nanoSave (junk : Mem) (filename : List UInt8) (e : Nano) (s : Sys) :
    Except Fault (Nano × Sys) := do
  let totalSize ← nanoTotal e.lines 0 0 e.numLines.toNat
  let (ptr, heap) ← check (kmalloc s.heap (add32 totalSize 1))
  if ptr = null then return (e, { s with heap := heap })
  let content ← check (store (junk.bytes ptr (add32 totalSize 1)) 0 0)
  let content ← nanoConcat e.lines content 0 e.numLines.toNat
  let (found, s) ← check (nanoWrite filename content { s with heap := heap })
  let heap ← check (kfree s.heap ptr)
  return ({ e with modified := if found then false else e.modified }, { s with heap := heap })

/-! ## Keys -/

/-- The branch of the loop for a key. -/
def nanoHandle (junk : Mem) (filename : List UInt8) (c : UInt8) (e : Nano) (s : Sys) :
    Except Fault (Nano × Sys) :=
  if c = 19 then nanoSave junk filename e s
  else if c = 24 then .ok ({ e with running := false }, s)
  else if c = 8 then (nanoBackspace e).map (·, s)
  else if c = 10 ∨ c = 13 then (nanoEnter e).map (·, s)
  else if 32 ≤ c ∧ c < 127 then (nanoInsert c e).map (·, s)
  else .ok (e, s)

/-- What the loop does after it has read a key. -/
def nanoKey (junk : Mem) (filename : List UInt8) (c : UInt8) (e : Nano) (s : Sys) :
    Except Fault (Nano × Sys) := do
  let (e, s) ← nanoHandle junk filename c e s
  return (← nanoClamp e, s)

/-- The main loop, for some keys. -/
def nanoKeys (filename : List UInt8) :
    List (Mem × UInt8) → Nano × Sys → Except Fault (Nano × Sys)
  | [], x => .ok x
  | (junk, c) :: keys, (e, s) =>
      if e.running then do
        let x ← nanoKey junk filename c e s
        nanoKeys filename keys x
      else .ok (e, s)

/-! ## Opening a file -/

/-- The loop that parses the contents of the file into lines, of which `n` are left. -/
def nanoLoad (ls : Lines) (numLines : Int) : List UInt8 → Nat → Except Fault (Int × Lines)
  | [], _ => .error .other
  | _ :: _, 0 => .ok (numLines, ls)
  | c :: p, n + 1 =>
      if c = 0 then .ok (numLines, ls)
      else do
        let stop ← check (lineEnd (c :: p))
        let len := if nanoLineLen ≤ stop then nanoLineLen - 1 else stop
        let ls ← modifyLine ls numLines fun buf ↦ do store (← strncpy buf (c :: p) len) len 0
        let next ← check ((c :: p).drop stop).head?
        let stop := if next = 0x0A then stop + 1 else stop
        nanoLoad ls (numLines + 1) ((c :: p).drop stop) n

/-- Read the file, if it is not empty, and parse it. -/
def nanoRead (junk : Mem) (filename : List UInt8) (ls : Lines) (s : Sys) :
    Except Fault (Int × Lines × Sys) := do
  let file ← check (fsOpen s filename)
  let size := fsGetSize s file
  if 0 < size then
    let (ptr, heap) ← check (kmalloc s.heap (add32 size 1))
    let s := { s with heap := heap }
    if ptr = null then return (1, ls, s)
    let (_, content) ← check (fsRead s file (some (junk.bytes ptr (add32 size 1))) size 0)
    let content ← check content
    let content ← check (store content size 0)
    let (numLines, ls) ← nanoLoad ls 0 content nanoMaxLines
    let heap ← check (kfree s.heap ptr)
    return (if numLines = 0 then 1 else numLines, ls, { s with heap := heap })
  else return (1, ls, s)

/-- `cmd_nano` from the allocation of the lines to its main loop. -/
def nanoOpen (junk : Mem) (filename : List UInt8) (b : NanoBlocks) (s : Sys) :
    Except Fault (Nano × Sys) := do
  let (numLines, lines, s) ← nanoRead junk filename (b.ptrs.map (nanoLine junk)) s
  return (⟨lines, numLines, 0, 0, false, true⟩, s)

/-- `cmd_nano` from the allocation of the lines on, for some keys. -/
def nanoSession (junk : Mem) (filename : List UInt8) (b : NanoBlocks) (keys : List (Mem × UInt8))
    (s : Sys) : Except Fault (Nano × Sys) := do
  let x ← nanoOpen junk filename b s
  nanoKeys filename keys x

/-! ## Lines that are `NULL` -/

variable {N : Nat → Bool} {ls ls' : Lines} {e : Nano}

/-- The lines `ls'`, with `NULL` instead of those in `N`. -/
def Blanked (N : Nat → Bool) (ls ls' : Lines) : Prop :=
  ∀ j, ls[j]? = if N j then ls'[j]?.map fun _ ↦ none else ls'[j]?

/-- An access to one of the lines in `N`. -/
def AtBlank (N : Nat → Bool) : Fault → Prop
  | .null i => N i = true
  | .other => False

/-- The same editor, but for the lines in `N`. -/
def BlankedNano (N : Nat → Bool) (e e' : Nano) : Prop :=
  ∃ ls, e = { e' with lines := ls } ∧ Blanked N ls e'.lines

/-- The same editor, but for the lines in `N`, and the same state of the system. -/
def BlankedState (N : Nat → Bool) (x x' : Nano × Sys) : Prop :=
  ∃ ls, x = ({ x'.1 with lines := ls }, x'.2) ∧ Blanked N ls x'.1.lines

theorem BlankedNano.intro (h : Blanked N ls ls') (numLines curLine curCol : Int)
    (modified running : Bool) : BlankedNano N ⟨ls, numLines, curLine, curCol, modified, running⟩
      ⟨ls', numLines, curLine, curCol, modified, running⟩ := ⟨ls, rfl, h⟩

theorem BlankedState.intro (h : Blanked N ls ls') (numLines curLine curCol : Int)
    (modified running : Bool) (s : Sys) :
    BlankedState N (⟨ls, numLines, curLine, curCol, modified, running⟩, s)
      (⟨ls', numLines, curLine, curCol, modified, running⟩, s) := ⟨ls, rfl, h⟩

theorem BlankedNano.state {e e' : Nano} (h : BlankedNano N e e') (s : Sys) :
    BlankedState N (e, s) (e', s) := by
  obtain ⟨ls, rfl, hls⟩ := h
  exact ⟨ls, rfl, hls⟩

theorem tracks_check {α : Type} (x : Option α) : Tracks (AtBlank N) Eq (check x) x :=
  .orError Fault.other x

/-! ### Access to lines -/

theorem Blanked.set (h : Blanked N ls ls') {k : Nat} (hk : N k = false) (buf : List UInt8) :
    Blanked N (ls.set k (some buf)) (ls'.set k (some buf)) := by
  have hlen : k < ls.length ↔ k < ls'.length := by
    have hget := h k
    rw [hk, if_neg Bool.false_ne_true] at hget
    rw [← not_iff_not, Nat.not_lt, Nat.not_lt, ← List.getElem?_eq_none_iff,
      ← List.getElem?_eq_none_iff, hget]
  intro j
  rw [List.getElem?_set, List.getElem?_set]
  by_cases hj : k = j
  · subst hj
    simp only [hlen, hk, if_true, Bool.false_eq_true, if_false]
  · rw [if_neg hj, if_neg hj]
    exact h j

/-- A line that is read is not `NULL`. -/
theorem tracks_lineAt' (h : Blanked N ls ls') (i : Int) :
    Tracks (AtBlank N) (fun buf buf' ↦ buf = buf' ∧ N i.toNat = false) (lineAt ls i)
      (Shell.lineAt ls' i) := by
  rw [lineAt, Shell.lineAt]
  refine .ite (fun _ ↦ ?_) fun _ ↦ .fail Fault.other
  rw [h i.toNat]
  cases hN : N i.toNat with
  | true =>
      cases ls'[i.toNat]? with
      | none => exact .fail Fault.other
      | some l => exact .stopped (e := Fault.null i.toNat) hN _
  | false =>
      cases ls'[i.toNat]? with
      | none => exact .fail Fault.other
      | some l =>
          cases l with
          | none => exact .fail (Fault.null i.toNat)
          | some buf => exact .ok ⟨rfl, rfl⟩

theorem tracks_lineAt (h : Blanked N ls ls') (i : Int) :
    Tracks (AtBlank N) Eq (lineAt ls i) (Shell.lineAt ls' i) :=
  (tracks_lineAt' h i).mono fun _ _ hbuf ↦ hbuf.1

theorem tracks_modifyLine (h : Blanked N ls ls') (i : Int)
    (f : List UInt8 → Option (List UInt8)) :
    Tracks (AtBlank N) (Blanked N) (modifyLine ls i f) (Shell.modifyLine ls' i f) := by
  refine (tracks_lineAt' h i).bind ?_
  rintro buf _ ⟨rfl, hN⟩
  exact (tracks_check _).bind_eq fun buf ↦ .result (h.set hN buf)

theorem tracks_copyLine (h : Blanked N ls ls') (i j : Int) :
    Tracks (AtBlank N) (Blanked N) (copyLine ls i j) (Shell.copyLine ls' i j) :=
  (tracks_lineAt h j).bind_eq fun src ↦ tracks_modifyLine h i (strcpy · src)

/-! ### Editing -/

theorem tracks_shiftUp (h : Blanked N ls ls') (i : Int) (n : Nat) :
    Tracks (AtBlank N) (Blanked N) (shiftUp ls i n) (Shell.shiftUp ls' i n) := by
  induction n generalizing ls ls' i with
  | zero => exact .ok h
  | succ n ih => exact (tracks_copyLine h i (i + 1)).bind fun _ _ h₁ ↦ ih h₁ (i + 1)

theorem tracks_shiftDown (h : Blanked N ls ls') (i : Int) (n : Nat) :
    Tracks (AtBlank N) (Blanked N) (shiftDown ls i n) (Shell.shiftDown ls' i n) := by
  induction n generalizing ls ls' i with
  | zero => exact .ok h
  | succ n ih => exact (tracks_copyLine h i (i - 1)).bind fun _ _ h₁ ↦ ih h₁ (i - 1)

theorem tracks_nanoBackspace (h : Blanked N ls e.lines) :
    Tracks (AtBlank N) (BlankedNano N) (nanoBackspace { e with lines := ls })
      (Shell.nanoBackspace e) := by
  rw [nanoBackspace, Shell.nanoBackspace]
  refine .ite (fun _ ↦ ?_) fun _ ↦ .ite (fun _ ↦ ?_) fun _ ↦ .ok ⟨ls, rfl, h⟩
  · refine (tracks_lineAt h _).bind_eq fun buf ↦ (tracks_check _).bind_eq fun len ↦ ?_
    exact (tracks_modifyLine h _ _).bind fun ls₁ _ h₁ ↦ .result (.intro h₁ _ _ _ _ _)
  · refine (tracks_lineAt h _).bind_eq fun buf ↦ (tracks_check _).bind_eq fun col ↦ ?_
    refine (tracks_lineAt h _).bind_eq fun next ↦ ?_
    refine (tracks_modifyLine h _ _).bind fun ls₁ _ h₁ ↦ ?_
    refine (tracks_shiftUp h₁ _ _).bind fun ls₂ _ h₂ ↦ ?_
    exact (tracks_modifyLine h₂ _ _).bind fun ls₃ _ h₃ ↦ .result (.intro h₃ _ _ _ _ _)

theorem tracks_nanoEnter (h : Blanked N ls e.lines) :
    Tracks (AtBlank N) (BlankedNano N) (nanoEnter { e with lines := ls }) (Shell.nanoEnter e) := by
  rw [nanoEnter, Shell.nanoEnter]
  refine .ite (fun _ ↦ ?_) fun _ ↦ .ok ⟨ls, rfl, h⟩
  refine (tracks_shiftDown h _ _).bind fun ls₁ _ h₁ ↦ ?_
  refine (tracks_lineAt h₁ _).bind_eq fun cur ↦ ?_
  refine (tracks_modifyLine h₁ _ _).bind fun ls₂ _ h₂ ↦ ?_
  exact (tracks_modifyLine h₂ _ _).bind fun ls₃ _ h₃ ↦ .result (.intro h₃ _ _ _ _ _)

theorem tracks_nanoInsert (h : Blanked N ls e.lines) (c : UInt8) :
    Tracks (AtBlank N) (BlankedNano N) (nanoInsert c { e with lines := ls })
      (Shell.nanoInsert c e) := by
  refine (tracks_lineAt h _).bind_eq fun buf ↦ (tracks_check _).bind_eq fun len ↦ ?_
  refine .ite (fun _ ↦ ?_) fun _ ↦ .result ⟨ls, rfl, h⟩
  exact (tracks_modifyLine h _ _).bind fun ls₁ _ h₁ ↦ .result (.intro h₁ _ _ _ _ _)

theorem tracks_nanoClamp (h : Blanked N ls e.lines) :
    Tracks (AtBlank N) (BlankedNano N) (nanoClamp { e with lines := ls }) (Shell.nanoClamp e) := by
  refine (tracks_lineAt h _).bind_eq fun buf ↦ (tracks_check _).bind_eq fun len ↦ ?_
  exact .result (.intro h _ _ _ _ _)

/-! ### Saving -/

theorem tracks_nanoTotal (h : Blanked N ls ls') (total : Nat) (i : Int) (n : Nat) :
    Tracks (AtBlank N) Eq (nanoTotal ls total i n) (Shell.nanoTotal ls' total i n) := by
  induction n generalizing total i with
  | zero => exact .ok rfl
  | succ n ih =>
      refine (tracks_lineAt h i).bind_eq fun buf ↦ (tracks_check _).bind_eq fun len ↦ ?_
      exact ih _ _

theorem tracks_nanoConcat (h : Blanked N ls ls') (content : List UInt8) (i : Int) (n : Nat) :
    Tracks (AtBlank N) Eq (nanoConcat ls content i n) (Shell.nanoConcat ls' content i n) := by
  induction n generalizing content i with
  | zero => exact .ok rfl
  | succ n ih =>
      refine (tracks_lineAt h i).bind_eq fun buf ↦ (tracks_check _).bind_eq fun content ↦ ?_
      exact (tracks_check _).bind_eq fun content ↦ ih content (i + 1)

theorem tracks_nanoSave (h : Blanked N ls e.lines) (junk : Mem) (filename : List UInt8) (s : Sys) :
    Tracks (AtBlank N) (BlankedState N) (nanoSave junk filename { e with lines := ls } s)
      (Shell.nanoSave junk filename e s) := by
  refine (tracks_nanoTotal h _ _ _).bind_eq fun totalSize ↦ (tracks_check _).bind_eq fun r ↦ ?_
  refine .ite (fun _ ↦ .result (.intro h _ _ _ _ _ _)) fun _ ↦ ?_
  refine (tracks_check _).bind_eq fun content ↦ (tracks_nanoConcat h _ _ _).bind_eq fun content ↦ ?_
  refine (tracks_check _).bind_eq fun w ↦ (tracks_check _).bind_eq fun heap ↦ ?_
  exact .result (.intro h _ _ _ _ _ _)

/-! ### Keys -/

theorem tracks_nanoHandle (h : Blanked N ls e.lines) (junk : Mem) (filename : List UInt8)
    (c : UInt8) (s : Sys) :
    Tracks (AtBlank N) (BlankedState N) (nanoHandle junk filename c { e with lines := ls } s)
      (Shell.nanoHandle junk filename c e s) := by
  have hpair : ∀ e₁ e₁' : Nano, BlankedNano N e₁ e₁' → BlankedState N (e₁, s) (e₁', s) :=
    fun _ _ he ↦ he.state s
  refine .ite (fun _ ↦ tracks_nanoSave h junk filename s) fun _ ↦ ?_
  refine .ite (fun _ ↦ .ok (.intro h _ _ _ _ _ _)) fun _ ↦ ?_
  refine .ite (fun _ ↦ (tracks_nanoBackspace h).map hpair) fun _ ↦ ?_
  refine .ite (fun _ ↦ (tracks_nanoEnter h).map hpair) fun _ ↦ ?_
  exact .ite (fun _ ↦ (tracks_nanoInsert h c).map hpair) fun _ ↦ .ok (.intro h _ _ _ _ _ _)

/-- **A key** does what it would do if all lines were allocated, up to the first access to one
that is not. -/
theorem tracks_nanoKey {x x' : Nano × Sys} (h : BlankedState N x x') (junk : Mem)
    (filename : List UInt8) (c : UInt8) :
    Tracks (AtBlank N) (BlankedState N) (nanoKey junk filename c x.1 x.2)
      (Shell.nanoKey junk filename c x'.1 x'.2) := by
  obtain ⟨ls, rfl, hls⟩ := h
  refine (tracks_nanoHandle hls junk filename c x'.2).bind ?_
  rintro _ ⟨e₁, s₁⟩ ⟨ls₁, rfl, h₁⟩
  exact (tracks_nanoClamp h₁).bind fun _ _ h₂ ↦ .result (h₂.state s₁)

/-! ### Opening a file -/

theorem tracks_nanoLoad (h : Blanked N ls ls') (numLines : Int) (p : List UInt8) (n : Nat) :
    Tracks (AtBlank N) (fun r r' ↦ r.1 = r'.1 ∧ Blanked N r.2 r'.2) (nanoLoad ls numLines p n)
      (Shell.nanoLoad ls' numLines p n) := by
  induction n generalizing ls ls' numLines p with
  | zero =>
      cases p with
      | nil => exact .fail Fault.other
      | cons c p => exact .ok ⟨rfl, h⟩
  | succ n ih =>
      cases p with
      | nil => exact .fail Fault.other
      | cons c p =>
          rw [nanoLoad, Shell.nanoLoad]
          refine .ite (fun _ ↦ .ok ⟨rfl, h⟩) fun _ ↦ (tracks_check _).bind_eq fun stop ↦ ?_
          refine (tracks_modifyLine h _ _).bind fun ls₁ _ h₁ ↦ ?_
          exact (tracks_check _).bind_eq fun next ↦ ih h₁ _ _

theorem tracks_nanoRead (h : Blanked N ls ls') (junk : Mem) (filename : List UInt8) (s : Sys) :
    Tracks (AtBlank N) (fun r r' ↦ r.1 = r'.1 ∧ Blanked N r.2.1 r'.2.1 ∧ r.2.2 = r'.2.2)
      (nanoRead junk filename ls s) (Shell.nanoRead junk filename ls' s) := by
  refine (tracks_check _).bind_eq fun file ↦ ?_
  refine .ite (fun _ ↦ (tracks_check _).bind_eq fun r ↦ ?_) fun _ ↦ .result ⟨rfl, h, rfl⟩
  refine .ite (fun _ ↦ .result ⟨rfl, h, rfl⟩) fun _ ↦ (tracks_check _).bind_eq fun c ↦ ?_
  refine (tracks_check _).bind_eq fun content ↦ (tracks_check _).bind_eq fun content ↦ ?_
  refine (tracks_nanoLoad h _ _ _).bind ?_
  rintro ⟨m, ls₁⟩ ⟨_, ls₁'⟩ ⟨rfl, h₁⟩
  exact (tracks_check _).bind_eq fun heap ↦ .result ⟨rfl, h₁, rfl⟩

theorem tracks_nanoOpen {b b' : NanoBlocks} {junk : Mem}
    (h : Blanked N (b.ptrs.map (nanoLine junk)) (b'.ptrs.map (nanoLine junk)))
    (filename : List UInt8) (s : Sys) :
    Tracks (AtBlank N) (BlankedState N) (nanoOpen junk filename b s)
      (Shell.nanoOpen junk filename b' s) := by
  refine (tracks_nanoRead h junk filename s).bind ?_
  rintro ⟨m, ls₁, s₁⟩ ⟨_, ls₁', _⟩ ⟨rfl, h₁, rfl⟩
  exact .result (.intro h₁ _ _ _ _ _ _)

/-! ### The same functions -/

theorem blanked_nowhere : Blanked (fun _ ↦ false) ls ls' ↔ ls = ls' :=
  List.ext_getElem?_iff.symm

theorem BlankedState.eq {x x' : Nano × Sys} (h : BlankedState (fun _ ↦ false) x x') : x = x' := by
  obtain ⟨ls, rfl, hls⟩ := h
  obtain rfl := blanked_nowhere.mp hls
  rfl

theorem not_atBlank_nowhere (f : Fault) : ¬ AtBlank (fun _ ↦ false) f := by
  cases f with
  | null i => exact Bool.false_ne_true
  | other => exact id

/-- **The functions are those of the model**, but for the reasons of failures. -/
theorem toOption_nanoKey (junk : Mem) (filename : List UInt8) (c : UInt8) (x : Nano × Sys) :
    (nanoKey junk filename c x.1 x.2).toOption = Shell.nanoKey junk filename c x.1 x.2 := by
  have h : BlankedState (fun _ ↦ false) x x := ⟨x.1.lines, rfl, blanked_nowhere.mpr rfl⟩
  exact ((tracks_nanoKey h junk filename c).mono fun _ _ ↦ BlankedState.eq).toOption_eq
    not_atBlank_nowhere

theorem toOption_nanoOpen (junk : Mem) (filename : List UInt8) (b : NanoBlocks) (s : Sys) :
    (nanoOpen junk filename b s).toOption = Shell.nanoOpen junk filename b s :=
  ((tracks_nanoOpen (blanked_nowhere.mpr rfl) filename s).mono fun _ _ ↦
    BlankedState.eq).toOption_eq not_atBlank_nowhere

end Deref

end KontolOS.Shell
