import KontolOS.Fs.Directory
import KontolOS.Shell.Color
import KontolOS.Shell.Echo
import KontolOS.Shell.Machine
import KontolOS.Shell.NanoCapacity
import KontolOS.Shell.Prompt

/-!
# What the shell is for

An abstract shell.  It has a map from names to files and directories, the name of the current
directory, and the keys that are going to be typed.  A line makes it show a text, clear the screen,
or run the editor, which is a text with a cursor.  There is no memory that could run out, no table,
no buffer and no screen here; what the machine has to say of itself (how much memory is used, for
how long it has been running, in which order its files are) is read from it.
-/

namespace KontolOS.Shell

open KontolOS.Lib KontolOS.Memory KontolOS.Strings KontolOS.Drivers KontolOS.Fs

/-! ## What is seen -/

/-- What is seen of a command. -/
inductive Display
  | /-- a text, behind what was there -/ text (t : List UInt8)
  | /-- the screen is blank -/ blank
  | /-- the editor is on the screen, with a text for the file `n`, which may be modified -/
    editor (n : List UInt8) (t : Text UInt8) (modified : Bool)

/-- A text comes first. -/
def Display.after (t : List UInt8) : Display → Display
  | .text u => .text (t ++ u)
  | .blank => .blank
  | .editor n t modified => .editor n t modified

/-- What the machine says of itself. -/
structure Readings (files : Directory) where
  /-- the names of the files, in some order -/
  order : List Name
  /-- every name once -/
  nodup : order.Nodup
  /-- and no others -/
  mem_iff : ∀ n, n ∈ order ↔ n ∈ files.entries
  /-- the bytes that are used of the heap -/
  used : Nat
  /-- which are not more than there are -/
  used_le : used ≤ heapSize
  /-- the seconds since the timer was set up -/
  uptime : Nat
  /-- which a `uint32_t` counts -/
  uptime_lt : uptime < 2 ^ 32
  /-- whether the keyboard controller accepts a command -/
  ready : Bool

/-! ## State -/

/-- The abstract shell. -/
structure Desk where
  /-- the files and directories -/
  files : Directory
  /-- the current directory -/
  cwd : List UInt8
  /-- the keys that are going to be typed -/
  keys : List UInt8
  /-- where the program is -/
  phase : Phase

/-- The text when no command has the name. -/
def unknownText (name : List UInt8) : List UInt8 :=
  chars "Unknown command: " ++ (name ++ chars "\nType 'help' for available commands.\n")

/-- The text of `color`. -/
def colorText : List (List UInt8) → List UInt8
  | [] => chars "Usage: color <0-15>\n" ++
      (chars "Colors: 0=Black, 1=Blue, 2=Green, 3=Cyan, 4=Red, 5=Magenta\n" ++
        (chars "        6=Brown, 7=LightGrey, 8=DarkGrey, 9=LightBlue\n" ++
          (chars "        10=LightGreen, 11=LightCyan, 12=LightRed\n" ++
            chars "        13=LightMagenta, 14=Yellow, 15=White\n")))
  | arg :: _ =>
      if digitsValue (arg.takeWhile isDigit) % 2 ^ 32 ≤ 15 then chars "Text color changed!\n"
      else chars "Invalid color. Use 0-15.\n"

/-- A line of `ls`. -/
def listingLine (files : Directory) (n : List UInt8) : List UInt8 :=
  chars "  " ++ n ++ chars "  (" ++
    decimal ((files.find n).elim 0 fun e ↦ e.2.data.length) ++ chars " bytes)" ++ chars "\n"

/-- The text of `ls`, which lists the names that there is room for in its buffer. -/
def listing (files : Directory) (order : List Name) : List UInt8 :=
  chars "\nFiles in filesystem:\n" ++ chars "--------------------\n" ++
    (if order = [] then chars "  (no files)\n"
      else (fitLines lsBufferSize 0 (order.map Name.chars)).flatMap (listingLine files)) ++
    (chars "\nTotal: " ++ decimal order.length ++ chars " file(s)\n\n")

/-! ## The editor -/

/-- The text of a file in the editor. -/
def opened (contents : List UInt8) : Text UInt8 :=
  match fileLines contents with
  | [] => .start [] []
  | l :: rest => .start l rest

/-- Ctrl+S stores the text in the file, if there is one. -/
def save (n : List UInt8) (t : Text UInt8) (files : Directory) : Directory :=
  (files.exec (.write (n ++ [0]) (some (unlines t.lines)) (unlines t.lines).length)).2

/-- What becomes of the editor. -/
inductive Editor
  | /-- it is left, with these files and keys -/ left (files : Directory) (keys : List UInt8)
  | /-- the keys do not suffice: it waits, with these files and with a text that may be modified -/
    waiting (files : Directory) (t : Text UInt8) (modified : Bool)

/-- The editor for the file `n`.  Ctrl+S takes the mark off a text that it has stored. -/
def edit (n : List UInt8) : List UInt8 → Text UInt8 → Bool → Directory → Editor
  | [], t, modified, files => .waiting files t modified
  | c :: keys, t, modified, files =>
      if c = 24 then .left files keys
      else if c = 19 then edit n keys t (modified && (files.find n).isNone) (save n t files)
      else edit n keys (typed t c) (modified || keyChanges t c) files

/-- What the editor shows at a place of the screen: the status bar in row 23, the first 22 lines in
the rows above it, and the title from the first row on, where they leave room for it. -/
def editorCell (n : List UInt8) (t : Text UInt8) (modified : Bool) (i : Nat) : UInt8 :=
  let title := typeText ⟨0, fun _ ↦ 0x20⟩ (titleText n modified)
  let line :=
    if i / vgaWidth = 23 then some (statusText t.above.length t.left.length)
    else if 1 ≤ i / vgaWidth ∧ i / vgaWidth ≤ 22 then t.lines[i / vgaWidth - 1]?
    else none
  (line.bind (·[i % vgaWidth]?)).getD (title.cell i)

/-- Where the editor has its cursor: in the text, as long as that row is on the screen. -/
def editorCursor (t : Text UInt8) : Nat :=
  if t.above.length + 1 < vgaHeight then (t.above.length + 1) * vgaWidth + t.left.length
  else 23 * vgaWidth + (statusText t.above.length t.left.length).length

/-! ## Commands -/

namespace Desk

/-- Nothing happens but that a text is shown. -/
def say (d : Desk) (t : List UInt8) : Desk × Display := (d, .text t)

/-- `touch` and `mkdir` -/
def create (t : Creation) (directory : Bool) (d : Desk) : List (List UInt8) → Desk × Display
  | [] => d.say (chars t.usage)
  | n :: _ =>
      let (code, files) := d.files.new directory (some (n ++ [0]))
      ({ d with files := files }, .text (t.text n code))

/-- `rm` -/
def rm (d : Desk) : List (List UInt8) → Desk × Display
  | [] => d.say (chars "Usage: rm <filename>\n")
  | n :: _ =>
      let (o, files) := d.files.exec (.delete (n ++ [0]))
      ({ d with files := files }, .text (rmText n o.code))

/-- `rmdir` -/
def rmdir (d : Desk) : List (List UInt8) → Desk × Display
  | [] => d.say (chars "Usage: rmdir <dirname>\n")
  | n :: _ =>
      let (o, files) := d.files.exec (.rmdir (n ++ [0]))
      ({ d with files := files }, .text (rmdirText n o.code))

/-- `cd` -/
def cd (d : Desk) (args : List (List UInt8)) : Desk × Display :=
  let n := args.headD [0x2F]
  let code := (d.files.exec (.chdir (some (n ++ [0])))).1.code
  let dir := if n = [0x2F] ∨ n = [0x2E, 0x2E] then [0x2F] else if code = 0 then n else d.cwd
  ({ d with cwd := dir }, .text (cdText n code))

/-- `cat` -/
def cat (d : Desk) : List (List UInt8) → Desk × Display
  | [] => d.say (chars "Usage: cat <filename>\n")
  | n :: _ =>
      match d.files.find n with
      | none => d.say (messageText "Error: File '" n "' not found\n")
      | some (_, e) => d.say (catText e.data)

/-- `nano` -/
def nano (d : Desk) : List (List UInt8) → Desk × Display
  | [] => d.say (chars "Usage: nano <filename>\n")
  | n :: _ =>
      let files := (d.files.new false (some (n ++ [0]))).2
      let contents := (files.find n).elim [] fun e ↦ e.2.data
      match edit n d.keys (opened contents) false files with
      | .left files keys => ({ d with files := files, keys := keys }, .blank)
      | .waiting files t modified =>
          ({ d with files := files, keys := [], phase := .waiting }, .editor n t modified)

/-- `reboot`, where the machine is not reset. -/
def reboot (d : Desk) (ready : Bool) : Desk × Display :=
  ({ d with phase := if ready then d.phase else .waiting }, .text (chars "Rebooting system...\n"))

/-- `halt` and `shutdown` -/
def halt (d : Desk) (t : List UInt8) : Desk × Display := ({ d with phase := .halted }, .text t)

/-- The command with an index in `commands`. -/
def command (d : Desk) (r : Readings d.files) (args : List (List UInt8)) : Nat → Desk × Display
  | 0 => d.say helpText
  | 1 => (d, .blank)
  | 2 => d.say (echoText args)
  | 3 => d.say (infoText r.used r.uptime)
  | 4 => d.say (uptimeText r.uptime)
  | 5 => d.say (memoryText r.used)
  | 6 => d.reboot r.ready
  | 7 => d.halt (chars "\nSystem halted. You may now turn off your computer.\n")
  | 8 => d.halt (chars "\nShutting down KontolOS...\n" ++ (chars "Goodbye!\n\n" ++
      (chars "ACPI power off not supported. System halted.\n" ++
        chars "You may now turn off your computer manually.\n")))
  | 9 => d.say versionText
  | 10 => d.say (colorText args)
  | 11 => d.say (listing d.files r.order)
  | 12 => d.cat args
  | 13 => create touch false d args
  | 14 => d.rm args
  | 15 => d.nano args
  | 16 => create mkdir true d args
  | 17 => d.rmdir args
  | 18 => d.cd args
  | _ => d.say (d.cwd ++ [0x0A])

/-- A line is executed: its first 16 words are the name of a command, and its arguments. -/
def execute (d : Desk) (r : Readings d.files) (line : List UInt8) : Desk × Display :=
  match (words isBlank line).take maxArgs with
  | [] => d.say []
  | name :: args =>
      match commands.findIdx? (fun command ↦ cstr command = name) with
      | none => d.say (unknownText name)
      | some i => d.command r args i

end Desk

/-! ## Turns -/

/-- The line that a turn executes. -/
def Turn.line (turn : Turn) : List UInt8 :=
  cstr (typeChars [] (turn.typed.takeWhile (· ≠ 0x0A)))

/-- What a turn shows first: the prompt, and the keys. -/
def Turn.echo (turn : Turn) : List UInt8 := chars "kontol> " ++ echoed [] turn.typed

/-- A turn of the abstract shell, with what is seen of it. -/
def DeskTurn (d : Desk) (a : Turn × Display) (d' : Desk) : Prop :=
  d.phase = .running ∧ a.1.keys = d.keys ∧ a.1.Outcome ∧
    ∃ rest display, a.1.typed ++ rest = d.keys ∧
      (∃ r, Desk.execute { d with keys := rest } r a.1.line = (d', display)) ∧
      a.2 = display.after a.1.echo

end KontolOS.Shell
