import KontolOS.Drivers.Readline

/-!
# The shell

The main loop of `src/kernel/shell.c`: it prints the prompt, reads a line, and executes it as a
command.  What the commands do is up to the argument `handlers`, the functions in the table
`commands`; they may read keys, as the editor does, and print, and change the rest of the
machine, of which nothing is said here.

`argv` holds pointers into the line, which are given as positions in it.
-/

namespace KontolOS.Shell

open KontolOS.Lib KontolOS.Strings KontolOS.Drivers

/-! ## State -/

/-- `SHELL_BUFFER_SIZE` -/
def shellBufferSize : Nat := 256

/-- `MAX_ARGS` -/
def maxArgs : Nat := 16

/-- The machine, as the shell sees it. -/
structure Session (ω : Type) where
  /-- the screen -/
  vga : Vga
  /-- `command_buffer` -/
  commandBuffer : List UInt8
  /-- the characters that `keyboard_getchar` is going to deliver -/
  keys : List UInt8
  /-- everything else -/
  rest : ω

/-- `void (*handler)(int argc, char *argv[])` -/
abbrev Handler (ω : Type) : Type := Nat → List Nat → Session ω → Option (Session ω)

/-- The names in `commands`. -/
def commands : List (List UInt8) := [
  literal "help", literal "clear", literal "echo", literal "info", literal "uptime",
  literal "memory", literal "reboot", literal "halt", literal "shutdown", literal "version",
  literal "color", literal "ls", literal "cat", literal "touch", literal "rm", literal "nano",
  literal "mkdir", literal "rmdir", literal "cd", literal "pwd"]

/-! ## Parsing a line -/

/-- A space or a tab. -/
def isBlank (c : UInt8) : Bool := c == 0x20 || c == 0x09

/-- `while (*p == ' ' || *p == '\t') p++`: how far `p` is moved. -/
def skipBlanks : List UInt8 → Option Nat
  | [] => none
  | c :: p => if isBlank c then (skipBlanks p).map (· + 1) else some 0

/-- `while (*p && *p != ' ' && *p != '\t') p++`: how far `p` is moved. -/
def skipWord : List UInt8 → Option Nat
  | [] => none
  | c :: p => if c ≠ 0 ∧ isBlank c = false then (skipWord p).map (· + 1) else some 0

/-- The loop of `parse_args`, with `n` the room that is left in `argv`. -/
def parseLoop (text : List UInt8) (p : Nat) (argv : List Nat) :
    Nat → Option (List UInt8 × List Nat)
  | 0 => do
      let _ ← text[p]?
      return (text, argv)
  | n + 1 => do
      if (← text[p]?) = 0 then return (text, argv)
      let start := p + (← skipBlanks (text.drop p))
      if (← text[start]?) = 0 then return (text, argv)
      let stop := start + (← skipWord (text.drop start))
      if (← text[stop]?) = 0 then parseLoop text stop (argv ++ [start]) n
      else parseLoop (text.set stop 0) (stop + 1) (argv ++ [start]) n

/-- `parse_args`: the line afterwards, and `argv`, whose length is `argc`. -/
def parseArgs (text : List UInt8) (maxArgs : Nat) : Option (List UInt8 × List Nat) :=
  parseLoop text 0 [] maxArgs

/-! ## Executing a command -/

/-- The loop over `commands`: the index of the command with the name `arg`, if there is one. -/
def findCommand (arg : List UInt8) : List (List UInt8) → Nat → Option (Option Nat)
  | [], _ => some none
  | name :: names, i => do
      if (← strcmp arg name) = 0 then return some i
      findCommand arg names (i + 1)

/-- "Command not found" -/
def unknownCommand (arg : List UInt8) (v : Vga) : Option Vga := do
  let v ← vgaPrint (literal "Unknown command: ") (vgaSetColor 12 0 v)
  let v ← vgaPrint arg v
  let v ← vgaPrint (literal "\nType 'help' for available commands.\n") v
  return vgaSetColor 15 0 v

/-- `execute_command` for the line in `command_buffer`. -/
def executeCommand {ω : Type} (handlers : Nat → Handler ω) (s : Session ω) :
    Option (Session ω) := do
  let (line, argv) ← parseArgs s.commandBuffer maxArgs
  let s := { s with commandBuffer := line }
  match argv with
  | [] => return s
  | arg :: _ =>
      match ← findCommand (line.drop arg) commands 0 with
      | some i => handlers i argv.length argv s
      | none => return { s with vga := ← unknownCommand (line.drop arg) s.vga }

/-! ## The main loop -/

/-- "Print prompt" -/
def printPrompt (v : Vga) : Option Vga := do
  let v ← vgaPrint (literal "kontol> ") (vgaSetColor 10 0 v)
  return vgaSetColor 15 0 v

/-- A turn of the main loop. -/
structure Turn where
  /-- the characters to come when `keyboard_readline` is called -/
  keys : List UInt8
  /-- those of them that it takes -/
  typed : List UInt8

/-- A turn of the loop of `shell_run`, which ends when `execute_command` returns. -/
def ShellTurn {ω : Type} (handlers : Nat → Handler ω) (s : Session ω) (turn : Turn)
    (s' : Session ω) : Prop :=
  ∃ v r rest, printPrompt s.vga = some v ∧
    keyboardReadline s.commandBuffer shellBufferSize v s.keys = some (.returned r rest) ∧
    turn.keys = s.keys ∧ turn.typed ++ rest = s.keys ∧
    executeCommand handlers { s with vga := r.vga, commandBuffer := r.buffer, keys := rest } =
      some s'

end KontolOS.Shell
