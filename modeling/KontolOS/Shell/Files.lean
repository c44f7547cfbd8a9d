import KontolOS.Drivers.Output
import KontolOS.Fs.Ramfs

/-!
# The commands on files and directories

The commands `touch`, `rm`, `mkdir`, `rmdir`, `cd` and `pwd` of `src/kernel/shell.c` call the
filesystem once, and print what comes of it: which text, is up to the code that the filesystem
returns.
-/

namespace KontolOS.Shell

open KontolOS.Lib KontolOS.Strings KontolOS.Drivers KontolOS.Fs

/-- A command that only prints and works on the filesystem and the heap: for `argv`, the calls of
the screen, and the filesystem and the heap afterwards. -/
abbrev Command : Type := List (List UInt8) → Sys → Option (List VgaCall × Sys)

variable {name n : List UInt8}

/-! ## Messages -/

/-- A message about the argument, in a colour of its own. -/
def message (fg : UInt8) (before : String) (arg : List UInt8) (after : String) : List VgaCall :=
  [.setColor fg 0, .print (literal before), .print arg, .print (literal after), .setColor 15 0]

/-- The text of such a message. -/
def messageText (before : String) (n : List UInt8) (after : String) : List UInt8 :=
  chars before ++ (n ++ chars after)

theorem prints_message (fg : UInt8) (before after : String) (hname : Holds name n) :
    Prints (message fg before name after) (messageText before n after) := by
  have hprints := (((Prints.nil.color 15 0).literal after).print hname).literal before |>.color fg 0
  rwa [List.append_nil] at hprints

/-! ## Creating -/

/-- What is different in `touch` and `mkdir`. -/
structure Creation where
  /-- the flags of a new entry -/
  flags : UInt8
  /-- the text without an argument -/
  usage : String
  /-- before the name that was created -/
  created : String
  /-- before a name that is there already -/
  taken : String
  /-- when it fails -/
  failed : String

namespace Creation

/-- What is printed for a code. -/
def calls (t : Creation) (name : List UInt8) (result : Int) : List VgaCall :=
  if result = 0 then message 10 t.created name "'\n"
  else if result = -2 then
    [.print (literal t.taken), .print name, .print (literal "' already exists\n")]
  else [.setColor 12 0, .print (literal t.failed), .setColor 15 0]

/-- `touch` and `mkdir`, which call `fs_create` and `fs_mkdir`. -/
def run (t : Creation) : Command
  | _ :: name :: _, s => do
      let (result, s) ← fsNew t.flags s (some name)
      return (t.calls name result, s)
  | _, s => some ([.print (literal t.usage)], s)

/-- The text for a code. -/
def text (t : Creation) (n : List UInt8) (result : Int) : List UInt8 :=
  if result = 0 then messageText t.created n "'\n"
  else if result = -2 then messageText t.taken n "' already exists\n"
  else chars t.failed

theorem prints_calls (t : Creation) (hname : Holds name n) (result : Int) :
    Prints (t.calls name result) (t.text n result) := by
  unfold calls text
  split
  · exact prints_message 10 t.created "'\n" hname
  · split
    · have hprints := ((Prints.nil.literal "' already exists\n").print hname).literal t.taken
      rwa [List.append_nil] at hprints
    · have hprints := ((Prints.nil.color 15 0).literal t.failed).color 12 0
      rwa [List.append_nil] at hprints

end Creation

/-- `touch` -/
def touch : Creation where
  flags := fsFlagUsed
  usage := "Usage: touch <filename>\n"
  created := "Created file '"
  taken := "File '"
  failed := "Error: Could not create file\n"

/-- `cmd_touch` -/
def cmdTouch : Command := touch.run

/-- `mkdir` -/
def mkdir : Creation where
  flags := fsFlagUsed ||| fsFlagDirectory
  usage := "Usage: mkdir <dirname>\n"
  created := "Created directory '"
  taken := "Directory '"
  failed := "Error: Could not create directory\n"

/-- `cmd_mkdir` -/
def cmdMkdir : Command := mkdir.run

/-! ## Removing and changing the directory -/

/-- What `rm` prints. -/
def rmCalls (name : List UInt8) (result : Int) : List VgaCall :=
  if result = 0 then message 10 "Deleted file '" name "'\n"
  else message 12 "Error: File '" name "' not found\n"

/-- `cmd_rm` -/
def cmdRm : Command
  | _ :: name :: _, s => do
      let (result, s) ← fsDelete s name
      return (rmCalls name result, s)
  | _, s => some ([.print (literal "Usage: rm <filename>\n")], s)

/-- The text of `rm`. -/
def rmText (n : List UInt8) (result : Int) : List UInt8 :=
  if result = 0 then messageText "Deleted file '" n "'\n"
  else messageText "Error: File '" n "' not found\n"

theorem prints_rmCalls (hname : Holds name n) (result : Int) :
    Prints (rmCalls name result) (rmText n result) := by
  unfold rmCalls rmText
  split
  · exact prints_message _ _ _ hname
  · exact prints_message _ _ _ hname

/-- What `rmdir` and `cd` print when there is no directory of the name. -/
def noDirectory (name : List UInt8) (result : Int) : List VgaCall :=
  if result = -2 then message 12 "Error: '" name "' is not a directory\n"
  else message 12 "Error: Directory '" name "' not found\n"

/-- Its text. -/
def noDirectoryText (n : List UInt8) (result : Int) : List UInt8 :=
  if result = -2 then messageText "Error: '" n "' is not a directory\n"
  else messageText "Error: Directory '" n "' not found\n"

theorem prints_noDirectory (hname : Holds name n) (result : Int) :
    Prints (noDirectory name result) (noDirectoryText n result) := by
  unfold noDirectory noDirectoryText
  split
  · exact prints_message _ _ _ hname
  · exact prints_message _ _ _ hname

/-- What `rmdir` prints. -/
def rmdirCalls (name : List UInt8) (result : Int) : List VgaCall :=
  if result = 0 then message 10 "Removed directory '" name "'\n" else noDirectory name result

/-- `cmd_rmdir` -/
def cmdRmdir : Command
  | _ :: name :: _, s => do
      let (result, s) ← fsRmdir s name
      return (rmdirCalls name result, s)
  | _, s => some ([.print (literal "Usage: rmdir <dirname>\n")], s)

/-- The text of `rmdir`. -/
def rmdirText (n : List UInt8) (result : Int) : List UInt8 :=
  if result = 0 then messageText "Removed directory '" n "'\n" else noDirectoryText n result

theorem prints_rmdirCalls (hname : Holds name n) (result : Int) :
    Prints (rmdirCalls name result) (rmdirText n result) := by
  unfold rmdirCalls rmdirText
  split
  · exact prints_message _ _ _ hname
  · exact prints_noDirectory hname result

/-- What `cd` prints. -/
def cdCalls (name : List UInt8) (result : Int) : List VgaCall :=
  if result = 0 then [] else noDirectory name result

/-- `cmd_cd`, which goes to the root if it has no argument. -/
def cmdCd : Command := fun argv s ↦ do
  let target := argv.getD 1 (literal "/")
  let (result, s) ← fsChdir s (some target)
  return (cdCalls target result, s)

/-- The text of `cd`. -/
def cdText (n : List UInt8) (result : Int) : List UInt8 :=
  if result = 0 then [] else noDirectoryText n result

theorem prints_cdCalls (hname : Holds name n) (result : Int) :
    Prints (cdCalls name result) (cdText n result) := by
  unfold cdCalls cdText
  split
  · exact .nil
  · exact prints_noDirectory hname result

/-- `cmd_pwd` -/
def cmdPwd : Command := fun _ s ↦ some ([.print (fsGetcwd s), .print (literal "\n")], s)

end KontolOS.Shell
