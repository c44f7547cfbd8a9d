import KontolOS.Lib.Loop
import KontolOS.Lib.Memory
import KontolOS.Strings

/-!
# The text mode driver

A transcription of `src/drivers/vga.c` (hiding and showing the hardware cursor apart).  The
screen is the memory from `VGA_BUFFER` on; an access beyond its `VGA_HEIGHT * VGA_WIDTH` entries
gives `none`.  `size_t` is computed with modulo `2 ^ 32`, as the code does it, wherever the
operands are not the counters of a loop over the screen.  The bytes sent to I/O ports are
recorded.
-/

namespace KontolOS.Drivers

open KontolOS.Lib KontolOS.Strings Function

/-! ## State -/

/-- `VGA_WIDTH` -/
def vgaWidth : Nat := 80

/-- `VGA_HEIGHT` -/
def vgaHeight : Nat := 25

/-- `VGA_CTRL_PORT` -/
def vgaCtrlPort : UInt16 := 0x3D4

/-- `VGA_DATA_PORT` -/
def vgaDataPort : UInt16 := 0x3D5

/-- The static variables of `vga.c`, the screen, and what was sent to the ports. -/
structure Vga where
  /-- `vga_row` -/
  vgaRow : Nat
  /-- `vga_col` -/
  vgaCol : Nat
  /-- `vga_color` -/
  vgaColor : UInt8
  /-- the memory at `vga_buffer` -/
  vgaBuffer : Nat → UInt16
  /-- the ports written to and the bytes, the last one first -/
  outs : List (UInt16 × UInt8)

/-- `vga_entry` -/
def vgaEntry (c color : UInt8) : UInt16 := c.toUInt16 ||| color.toUInt16 <<< 8

/-- `VGA_MAKE_COLOR` -/
def vgaMakeColor (fg bg : UInt8) : UInt8 := bg <<< 4 ||| fg

/-- `row * VGA_WIDTH + col` -/
def indexOf (row col : Nat) : Nat := add32 (mul32 row vgaWidth) col

/-- `vga_buffer[index]` -/
def peek (index : Nat) (s : Vga) : Option UInt16 :=
  if index < vgaHeight * vgaWidth then some (s.vgaBuffer index) else none

/-- `vga_buffer[index] = entry` -/
def poke (index : Nat) (entry : UInt16) (s : Vga) : Option Vga :=
  if index < vgaHeight * vgaWidth then
    some { s with vgaBuffer := update s.vgaBuffer index entry }
  else none

/-- `outb` -/
def outb (port : UInt16) (byte : UInt8) (s : Vga) : Vga :=
  { s with outs := (port, byte) :: s.outs }

/-! ## The functions -/

/-- `vga_init`, from which on the ports are recorded. -/
def vgaInit (memory : Nat → UInt16) : Vga :=
  { vgaRow := 0, vgaCol := 0, vgaColor := vgaMakeColor 7 0, vgaBuffer := memory, outs := [] }

/-- `vga_update_cursor` -/
def vgaUpdateCursor (s : Vga) : Vga :=
  let pos := UInt16.ofNat (indexOf s.vgaRow s.vgaCol)
  outb vgaDataPort (pos &&& 0xFF).toUInt8 <| outb vgaCtrlPort 15 <|
    outb vgaDataPort (pos >>> 8 &&& 0xFF).toUInt8 <| outb vgaCtrlPort 14 s

/-- `vga_buffer[index] = vga_entry(' ', vga_color)` -/
def pokeBlank (index : Nat) (s : Vga) : Option Vga := poke index (vgaEntry 0x20 s.vgaColor) s

/-- `vga_clear` -/
def vgaClear (s : Vga) : Option Vga := do
  let s ← forLoop (fun y ↦ forLoop (fun x ↦ pokeBlank (y * vgaWidth + x)) 0 vgaWidth)
    0 vgaHeight s
  return vgaUpdateCursor { s with vgaRow := 0, vgaCol := 0 }

/-- `vga_set_color` -/
def vgaSetColor (fg bg : UInt8) (s : Vga) : Vga := { s with vgaColor := vgaMakeColor fg bg }

/-- The body of the first loop of `vga_scroll`. -/
def scrollCell (y x : Nat) (s : Vga) : Option Vga := do
  let entry ← peek (y * vgaWidth + x) s
  poke ((y - 1) * vgaWidth + x) entry s

/-- `vga_scroll` -/
def vgaScroll (s : Vga) : Option Vga := do
  let s ← forLoop (fun y ↦ forLoop (scrollCell y) 0 vgaWidth) 1 (vgaHeight - 1) s
  let s ← forLoop (fun x ↦ pokeBlank ((vgaHeight - 1) * vgaWidth + x)) 0 vgaWidth s
  return { s with vgaRow := vgaHeight - 1 }

/-- What `vga_putchar` does for the character itself. -/
def putcharBranch (c : UInt8) (s : Vga) : Option Vga :=
  if c = 0x0A then some { s with vgaCol := 0, vgaRow := add32 s.vgaRow 1 }
  else if c = 0x0D then some { s with vgaCol := 0 }
  else if c = 0x09 then some { s with vgaCol := add32 s.vgaCol 4 &&& 0xFFFFFFFC }
  else if c = 0x08 then
    if 0 < s.vgaCol then
      let s := { s with vgaCol := sub32 s.vgaCol 1 }
      pokeBlank (indexOf s.vgaRow s.vgaCol) s
    else some s
  else do
    let s ← poke (indexOf s.vgaRow s.vgaCol) (vgaEntry c s.vgaColor) s
    return { s with vgaCol := add32 s.vgaCol 1 }

/-- "Handle line wrap" -/
def putcharWrap (s : Vga) : Vga :=
  if vgaWidth ≤ s.vgaCol then { s with vgaCol := 0, vgaRow := add32 s.vgaRow 1 } else s

/-- "Handle scrolling" -/
def putcharScroll (s : Vga) : Option Vga := if vgaHeight ≤ s.vgaRow then vgaScroll s else some s

/-- `vga_putchar` -/
def vgaPutchar (c : UInt8) (s : Vga) : Option Vga := do
  let s ← putcharBranch c s
  let s ← putcharScroll (putcharWrap s)
  return vgaUpdateCursor s

/-- `vga_print` -/
def vgaPrint : List UInt8 → Vga → Option Vga
  | [], _ => none
  | c :: str, s => if c = 0 then some s else (vgaPutchar c s).bind (vgaPrint str)

/-- `vga_println` -/
def vgaPrintln (str : List UInt8) (s : Vga) : Option Vga :=
  (vgaPrint str s).bind (vgaPutchar 0x0A)

/-- The first loop of `vga_print_dec`.  The digits so far are given with the last one first, and
`free` is the room that is left in `buffer`. -/
def decDigits : Nat → Int → List UInt8 → Option (List UInt8)
  | 0, num, digits => if 0 < num then none else some digits
  | free + 1, num, digits =>
      if 0 < num then decDigits free (num / 10) ((0x30 + UInt8.ofNat (num % 10).toNat) :: digits)
      else some digits

/-- The last loop of `vga_print_dec`, which takes the digits from the last to the first. -/
def putDigits : List UInt8 → Vga → Option Vga
  | [], s => some s
  | c :: digits, s => (vgaPutchar c s).bind (putDigits digits)

/-- `-num` for an `int32_t`: the least number has no negative, and stays as it is. -/
def negInt32 (num : Int) : Int := if num = -2 ^ 31 then num else -num

/-- `vga_print_dec`, whose `buffer` has 12 bytes. -/
def vgaPrintDec (num : Int) (s : Vga) : Option Vga :=
  let negative := num < 0
  let num := if negative then negInt32 num else num
  if num = 0 then vgaPutchar 0x30 s
  else do
    let digits ← decDigits 12 num []
    let s ← if negative then vgaPutchar 0x2D s else some s
    putDigits digits s

/-- `hex_chars` -/
def hexChars : Vector UInt8 16 := #v[
  0x30, 0x31, 0x32, 0x33, 0x34, 0x35, 0x36, 0x37, 0x38, 0x39, 0x41, 0x42, 0x43, 0x44, 0x45, 0x46]

/-- `hex_chars[num & 0xF]` -/
def hexChar (num : UInt32) : UInt8 :=
  hexChars.get ⟨(num &&& 0xF).toNat, Nat.and_lt_two_pow num.toNat (by decide : 0xF < 2 ^ 4)⟩

/-- The loop of `vga_print_hex` that fills `buffer` from its end. -/
def hexDigits : Nat → UInt32 → List UInt8 → List UInt8
  | 0, _, buffer => buffer
  | i + 1, num, buffer => hexDigits i (num >>> 4) (hexChar num :: buffer)

/-- "Skip leading zeros" -/
def skipZeros : List UInt8 → List UInt8
  | c :: d :: rest => if c = 0x30 ∧ d ≠ 0 then skipZeros (d :: rest) else c :: d :: rest
  | ptr => ptr

/-- `vga_print_hex` -/
def vgaPrintHex (num : UInt32) (s : Vga) : Option Vga := do
  let s ← vgaPrint [0x30, 0x78, 0] s
  vgaPrint (skipZeros (hexDigits 8 num [0])) s

/-- `vga_set_cursor` -/
def vgaSetCursor (row col : Nat) (s : Vga) : Vga :=
  if row < vgaHeight ∧ col < vgaWidth then
    vgaUpdateCursor { s with vgaRow := row, vgaCol := col }
  else s

/-- `vga_put_at` -/
def vgaPutAt (row col : Nat) (c : UInt8) (s : Vga) : Option Vga :=
  if row < vgaHeight ∧ col < vgaWidth then
    poke (indexOf row col) (vgaEntry c s.vgaColor) s
  else some s

/-- The loop of `vga_print_at`. -/
def printAtLoop (col : Nat) : List UInt8 → Vga → Option Vga
  | [], _ => none
  | c :: str, s =>
      if c ≠ 0 ∧ s.vgaCol < vgaWidth then
        if c = 0x0A then
          printAtLoop col str { s with vgaRow := add32 s.vgaRow 1, vgaCol := col }
        else do
          let s ← vgaPutAt s.vgaRow s.vgaCol c s
          printAtLoop col str { s with vgaCol := add32 s.vgaCol 1 }
      else some s

/-- `vga_print_at` -/
def vgaPrintAt (row col : Nat) (str : List UInt8) (s : Vga) : Option Vga := do
  let t ← printAtLoop col str { s with vgaRow := row, vgaCol := col }
  return { t with vgaRow := s.vgaRow, vgaCol := s.vgaCol }

/-- `vga_print_centered`, whose first loop is that of `strlen`. -/
def vgaPrintCentered (row : Nat) (str : List UInt8) (s : Vga) : Option Vga := do
  let len ← strlen str
  let col := if len < vgaWidth then (vgaWidth - len) / 2 else 0
  vgaPrintAt row col str s

/-! ## Calls -/

/-- A call of the driver. -/
inductive VgaCall
  | clear
  | setColor (fg bg : UInt8)
  | putchar (c : UInt8)
  | print (str : List UInt8)
  | println (str : List UInt8)
  | printDec (num : Int)
  | printHex (num : UInt32)
  | updateCursor
  | setCursor (row col : Nat)
  | putAt (row col : Nat) (c : UInt8)
  | printAt (row col : Nat) (str : List UInt8)
  | printCentered (row : Nat) (str : List UInt8)

/-- What a call does. -/
def VgaCall.exec : VgaCall → Vga → Option Vga
  | .clear => vgaClear
  | .setColor fg bg => fun s ↦ some (vgaSetColor fg bg s)
  | .putchar c => vgaPutchar c
  | .print str => vgaPrint str
  | .println str => vgaPrintln str
  | .printDec num => vgaPrintDec num
  | .printHex num => vgaPrintHex num
  | .updateCursor => fun s ↦ some (vgaUpdateCursor s)
  | .setCursor row col => fun s ↦ some (vgaSetCursor row col s)
  | .putAt row col c => vgaPutAt row col c
  | .printAt row col str => vgaPrintAt row col str
  | .printCentered row str => vgaPrintCentered row str

/-- The arguments are of their types: a string has a terminator, and a number is an `int32_t`. -/
def VgaCall.Legal : VgaCall → Prop
  | .print str | .println str | .printAt _ _ str | .printCentered _ str => 0 ∈ str
  | .printDec num => -2 ^ 31 ≤ num ∧ num < 2 ^ 31
  | _ => True

/-- One call. -/
def VgaStep (s : Vga) (call : VgaCall) (s' : Vga) : Prop :=
  call.Legal ∧ call.exec s = some s'

end KontolOS.Drivers
