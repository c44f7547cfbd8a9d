import KontolOS.Lib.Ring

/-!
# The keyboard driver

A transcription of `src/drivers/keyboard.c` up to `keyboard_getchar_nonblock`.  The handler of
IRQ 1 decodes a scancode and puts a character into a ring buffer, from which the main program
takes it.  The handler cannot be interrupted by the main program, but the main program can be
interrupted by the handler between any two of its steps: when it has tested whether the buffer
is empty, and when it has read a character and not yet moved `buffer_start`.

Both indices of the buffer are only ever set to zero or to a remainder modulo
`KEYBOARD_BUFFER_SIZE`, and so they are indices of the buffer by their type.
-/

namespace KontolOS.Drivers

open KontolOS.Lib Function

/-! ## State -/

/-- `KEYBOARD_BUFFER_SIZE` -/
def keyboardBufferSize : Nat := 256

/-- The static variables of `keyboard.c`. -/
structure Keyboard where
  /-- `keyboard_buffer` -/
  keyboardBuffer : Fin keyboardBufferSize → UInt8
  /-- `buffer_start` -/
  bufferStart : Fin keyboardBufferSize
  /-- `buffer_end` -/
  bufferEnd : Fin keyboardBufferSize
  /-- `shift_pressed` -/
  shiftPressed : Bool
  /-- `ctrl_pressed` -/
  ctrlPressed : Bool
  /-- `alt_pressed` -/
  altPressed : Bool
  /-- `capslock_on` -/
  capslockOn : Bool

/-! ## Scancodes -/

/-- `sizeof(scancode_to_ascii)`, which is also the size of the other table. -/
def sizeofScancodeToAscii : Nat := 59

/-- `scancode_to_ascii` -/
def scancodeToAscii : Vector UInt8 sizeofScancodeToAscii := #v[
  -- escape, the digits, minus, equals, backspace
  0, 0x1B, 0x31, 0x32, 0x33, 0x34, 0x35, 0x36, 0x37, 0x38, 0x39, 0x30, 0x2D, 0x3D, 0x08,
  0x09, 0x71, 0x77, 0x65, 0x72, 0x74, 0x79, 0x75, 0x69, 0x6F, 0x70, 0x5B, 0x5D, 0x0A,
  0, 0x61, 0x73, 0x64, 0x66, 0x67, 0x68, 0x6A, 0x6B, 0x6C, 0x3B, 0x27, 0x60,
  0, 0x5C, 0x7A, 0x78, 0x63, 0x76, 0x62, 0x6E, 0x6D, 0x2C, 0x2E, 0x2F, 0,
  0x2A, 0, 0x20, 0]

/-- `scancode_to_ascii_shift` -/
def scancodeToAsciiShift : Vector UInt8 sizeofScancodeToAscii := #v[
  0, 0x1B, 0x21, 0x40, 0x23, 0x24, 0x25, 0x5E, 0x26, 0x2A, 0x28, 0x29, 0x5F, 0x2B, 0x08,
  0x09, 0x51, 0x57, 0x45, 0x52, 0x54, 0x59, 0x55, 0x49, 0x4F, 0x50, 0x7B, 0x7D, 0x0A,
  0, 0x41, 0x53, 0x44, 0x46, 0x47, 0x48, 0x4A, 0x4B, 0x4C, 0x3A, 0x22, 0x7E,
  0, 0x7C, 0x5A, 0x58, 0x43, 0x56, 0x42, 0x4E, 0x4D, 0x3C, 0x3E, 0x3F, 0,
  0x2A, 0, 0x20, 0]

/-- `SCANCODE_LCTRL` -/
def scancodeLctrl : UInt8 := 0x1D

/-- `SCANCODE_LSHIFT` -/
def scancodeLshift : UInt8 := 0x2A

/-- `SCANCODE_RSHIFT` -/
def scancodeRshift : UInt8 := 0x36

/-- `SCANCODE_LALT` -/
def scancodeLalt : UInt8 := 0x38

/-- `SCANCODE_CAPSLOCK` -/
def scancodeCapslock : UInt8 := 0x3A

/-- `KEY_RELEASE_FLAG` -/
def keyReleaseFlag : UInt8 := 0x80

/-- The scancodes of letters, a range for each row of the keyboard. -/
def isLetter (scancode : UInt8) : Bool :=
  (0x10 ≤ scancode && scancode ≤ 0x19) || (0x1E ≤ scancode && scancode ≤ 0x26) ||
    (0x2C ≤ scancode && scancode ≤ 0x32)

/-- Ctrl turns letters into control characters. -/
def ctrlChar (ctrlPressed : Bool) (c : UInt8) : UInt8 :=
  if ctrlPressed && 0x61 ≤ c && c ≤ 0x7A then c - 0x61 + 1
  else if ctrlPressed && 0x41 ≤ c && c ≤ 0x5A then c - 0x41 + 1
  else c

/-- The character of a key that is pressed, if it has one. -/
def keyChar (k : Keyboard) (scancode : UInt8) : Option UInt8 :=
  if h : scancode.toNat < sizeofScancodeToAscii then
    let useShift := if isLetter scancode then k.shiftPressed ^^ k.capslockOn else k.shiftPressed
    let c := (if useShift then scancodeToAsciiShift else scancodeToAscii).get ⟨scancode.toNat, h⟩
    let c := ctrlChar k.ctrlPressed c
    if c ≠ 0 then some c else none
  else none

/-! ## The interrupt handler -/

/-- `buffer_put` -/
def bufferPut (k : Keyboard) (c : UInt8) : Keyboard :=
  let next := Ring.next k.bufferEnd
  if next ≠ k.bufferStart then
    { k with keyboardBuffer := update k.keyboardBuffer k.bufferEnd c, bufferEnd := next }
  else k

/-- `keyboard_handler` up to its last statement: the modifier keys, and the character that is
given to `buffer_put` if there is one. -/
def keyboardDecode (k : Keyboard) (data : UInt8) : Keyboard × Option UInt8 :=
  let released := data &&& keyReleaseFlag != 0
  let scancode := data &&& ~~~keyReleaseFlag
  if scancode = scancodeLshift ∨ scancode = scancodeRshift then
    ({ k with shiftPressed := !released }, none)
  else if scancode = scancodeLctrl then ({ k with ctrlPressed := !released }, none)
  else if scancode = scancodeLalt then ({ k with altPressed := !released }, none)
  else if scancode = scancodeCapslock then
    (if released then k else { k with capslockOn := !k.capslockOn }, none)
  else if released then (k, none)
  else (k, keyChar k scancode)

/-- `keyboard_handler`, for the byte that it reads from the data port. -/
def keyboardHandler (k : Keyboard) (data : UInt8) : Keyboard :=
  let (k, c) := keyboardDecode k data
  c.elim k (bufferPut k)

/-! ## The main program -/

/-- `keyboard_init`, which also registers the handler. -/
def keyboardInit (k : Keyboard) : Keyboard :=
  { k with bufferStart := ⟨0, by decide⟩, bufferEnd := ⟨0, by decide⟩ }

/-- `keyboard_has_key` -/
def keyboardHasKey (k : Keyboard) : Bool := k.bufferStart != k.bufferEnd

/-- Where the main program is. -/
inductive Reader
  | /-- outside of the functions below -/ idle
  | /-- about to test whether the buffer is empty: in `keyboard_getchar` if `blocking`, and
    otherwise in `keyboard_getchar_nonblock` -/ test (blocking : Bool)
  | /-- about to read a character -/ read
  | /-- about to move `buffer_start` and to return the character `c` -/ advance (c : UInt8)

/-- What a step of the main program returns. -/
inductive Returned
  | /-- nothing yet -/ running
  | /-- 0, as there is no key -/ noKey
  | /-- a character -/ char (c : UInt8)

/-- The value returned to the caller. -/
def Returned.value : Returned → Option UInt8
  | .running => none
  | .noKey => some 0
  | .char c => some c

/-- The steps of `keyboard_getchar` and `keyboard_getchar_nonblock`. -/
def getcharStep (k : Keyboard) : Reader → Option (Returned × Keyboard × Reader)
  | .idle => none
  | .test blocking =>
      if keyboardHasKey k then some (.running, k, .read)
      -- `halt`, and test again after an interrupt
      else if blocking then some (.running, k, .test blocking)
      else some (.noKey, k, .idle)
  | .read => some (.running, k, .advance (k.keyboardBuffer k.bufferStart))
  | .advance c => some (.char c, { k with bufferStart := Ring.next k.bufferStart }, .idle)

/-! ## Both together -/

/-- The keyboard, and where the main program is. -/
structure Keys where
  /-- the state of the driver -/
  keyboard : Keyboard
  /-- the main program -/
  reader : Reader

/-- What happens. -/
inductive KeyEvent
  | /-- IRQ 1 with a byte from the keyboard; `put` is the character given to `buffer_put`, if
    any, and whether it was accepted -/ irq (data : UInt8) (put : Option (UInt8 × Bool))
  | /-- `keyboard_getchar()` or `keyboard_getchar_nonblock()` is called -/
    call (blocking : Bool)
  | /-- a step of the function that was called -/ step (r : Returned)

/-- `buffer_put` accepts a character if it moves `buffer_end`. -/
def accepts (k : Keyboard) (c : UInt8) : Bool := (bufferPut k c).bufferEnd != k.bufferEnd

/-- What an interrupt gives to `buffer_put`, and whether it is accepted. -/
def offered (k : Keyboard) (data : UInt8) : Option (UInt8 × Bool) :=
  (keyboardDecode k data).2.map fun c ↦ (c, accepts (keyboardDecode k data).1 c)

/-- One step of the driver: an interrupt, or a step of the main program. -/
def KeyStep (x : Keys) : KeyEvent → Keys → Prop
  | .irq data put, y =>
      put = offered x.keyboard data ∧
        y = { x with keyboard := keyboardHandler x.keyboard data }
  | .call blocking, y => x.reader = .idle ∧ y = { x with reader := .test blocking }
  | .step r, y => getcharStep x.keyboard x.reader = some (r, y.keyboard, y.reader)

end KontolOS.Drivers
