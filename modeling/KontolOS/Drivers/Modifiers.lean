import Mathlib.Algebra.Ring.Parity
import KontolOS.Drivers.Keyboard
import KontolOS.Lib.Run

/-!
# The modifier keys

`keyboard_handler` of `src/drivers/keyboard.c` has one flag for each kind of modifier.  Beside it
the keys themselves are followed: a key goes down with the first of its make codes, which the
keyboard repeats for as long as the key is held, and up with its break code (`HeldKeys.scan`).

There is one flag for two shift keys, which the release of either of them clears, and a make code of
Caps Lock is taken for a press even if it is repeated.  The flags follow the keys exactly as long as
no shift key is released while the other one is held, and Caps Lock is not held for so long that it
is repeated (`followsKeys_iff`).
-/

namespace KontolOS.Drivers

open KontolOS.Lib Function

/-! ## The keys -/

/-- A break code. -/
def isBreak (data : UInt8) : Bool := data &&& keyReleaseFlag != 0

/-- The key that a scancode is about. -/
def keyOf (data : UInt8) : UInt8 := data &&& ~~~keyReleaseFlag

/-- The keys under the user's fingers. -/
structure HeldKeys where
  /-- the keys that are held -/
  held : UInt8 → Bool
  /-- how many times Caps Lock went from up to down -/
  capsPresses : Nat

/-- No key has been touched. -/
def HeldKeys.untouched : HeldKeys := ⟨fun _ ↦ false, 0⟩

/-- What a scancode tells of its key. -/
def HeldKeys.scan (ks : HeldKeys) (data : UInt8) : HeldKeys where
  held := update ks.held (keyOf data) (!isBreak data)
  capsPresses :=
    if keyOf data = scancodeCapslock ∧ isBreak data = false ∧ ks.held scancodeCapslock = false then
      ks.capsPresses + 1
    else ks.capsPresses

/-- The keys after some scancodes. -/
def heldAfter (codes : List UInt8) : HeldKeys := codes.foldl HeldKeys.scan .untouched

/-- The scancodes of a keyboard: only a key that is held is released. -/
def KeyStream (codes : List UInt8) : Prop :=
  ∀ p data, p ++ [data] <+: codes → isBreak data = true →
    (heldAfter p).held (keyOf data) = true

/-- The flags of the driver. -/
structure Flags where
  /-- `shift_pressed` -/
  shiftPressed : Bool
  /-- `ctrl_pressed` -/
  ctrlPressed : Bool
  /-- `alt_pressed` -/
  altPressed : Bool
  /-- `capslock_on` -/
  capslockOn : Bool

/-- The flags among the static variables. -/
def Keyboard.flags (k : Keyboard) : Flags :=
  ⟨k.shiftPressed, k.ctrlPressed, k.altPressed, k.capslockOn⟩

/-- **The flags follow the keys.** -/
@[mk_iff]
structure Follows (f : Flags) (ks : HeldKeys) : Prop where
  /-- there is one flag for both shift keys -/
  shift : f.shiftPressed = true ↔
    ks.held scancodeLshift = true ∨ ks.held scancodeRshift = true
  /-- and one for the control key -/
  ctrl : f.ctrlPressed = true ↔ ks.held scancodeLctrl = true
  /-- and one for the alternate key -/
  alt : f.altPressed = true ↔ ks.held scancodeLalt = true
  /-- Caps Lock is turned on and off again -/
  caps : f.capslockOn = true ↔ Odd ks.capsPresses

/-- The flags follow the keys after every part of a stream of scancodes. -/
def FollowsKeys (k : Keyboard) (codes : List UInt8) : Prop :=
  ∀ p, p <+: codes → Follows (p.foldl keyboardHandler k).flags (heldAfter p)

/-- A scancode that the flags can follow. -/
@[mk_iff]
structure Followed (ks : HeldKeys) (data : UInt8) : Prop where
  /-- the left shift key is not released while the right one is held -/
  left : isBreak data = true → keyOf data = scancodeLshift → ks.held scancodeRshift = false
  /-- the right shift key is not released while the left one is held -/
  right : isBreak data = true → keyOf data = scancodeRshift → ks.held scancodeLshift = false
  /-- Caps Lock is not repeated -/
  caps : isBreak data = false → keyOf data = scancodeCapslock → ks.held scancodeCapslock = false

variable {k : Keyboard} {f : Flags} {ks : HeldKeys} {data : UInt8} {codes : List UInt8}

theorem heldAfter_concat (codes : List UInt8) (data : UInt8) :
    heldAfter (codes ++ [data]) = (heldAfter codes).scan data := List.foldl_concat ..

/-! ## The handler -/

/-- What the handler does to each of the flags. -/
def Flags.scan (f : Flags) (data : UInt8) : Flags where
  shiftPressed :=
    if keyOf data = scancodeLshift ∨ keyOf data = scancodeRshift then !isBreak data
    else f.shiftPressed
  ctrlPressed := if keyOf data = scancodeLctrl then !isBreak data else f.ctrlPressed
  altPressed := if keyOf data = scancodeLalt then !isBreak data else f.altPressed
  capslockOn :=
    if keyOf data = scancodeCapslock ∧ isBreak data = false then !f.capslockOn else f.capslockOn

/-- Storing a character leaves the flags alone. -/
theorem flags_bufferPut (k : Keyboard) (c : UInt8) : (bufferPut k c).flags = k.flags := by
  rw [bufferPut]
  split
  · rfl
  · rfl

/-- The handler, by the key that the byte is for. -/
theorem keyboardDecode_eq (k : Keyboard) (data : UInt8) :
    keyboardDecode k data =
      if keyOf data = scancodeLshift ∨ keyOf data = scancodeRshift then
        ({ k with shiftPressed := !isBreak data }, none)
      else if keyOf data = scancodeLctrl then ({ k with ctrlPressed := !isBreak data }, none)
      else if keyOf data = scancodeLalt then ({ k with altPressed := !isBreak data }, none)
      else if keyOf data = scancodeCapslock then
        (if isBreak data then k else { k with capslockOn := !k.capslockOn }, none)
      else if isBreak data then (k, none)
      else (k, keyChar k (keyOf data)) := rfl

/-- The cases of the handler are for different keys. -/
theorem flags_keyboardDecode (k : Keyboard) (data : UInt8) :
    (keyboardDecode k data).1.flags = k.flags.scan data := by
  rw [keyboardDecode_eq]
  by_cases hleft : keyOf data = scancodeLshift
  · simp [Flags.scan, Keyboard.flags, hleft, scancodeLshift, scancodeLctrl, scancodeLalt,
      scancodeCapslock]
  by_cases hright : keyOf data = scancodeRshift
  · simp [Flags.scan, Keyboard.flags, hright, scancodeRshift, scancodeLctrl, scancodeLalt,
      scancodeCapslock]
  by_cases hctrl : keyOf data = scancodeLctrl
  · simp [Flags.scan, Keyboard.flags, hctrl, scancodeLshift, scancodeRshift, scancodeLctrl,
      scancodeLalt, scancodeCapslock]
  by_cases halt : keyOf data = scancodeLalt
  · simp [Flags.scan, Keyboard.flags, halt, scancodeLshift, scancodeRshift, scancodeLctrl,
      scancodeLalt, scancodeCapslock]
  -- for Caps Lock, and for a key that is no modifier, only make codes count
  by_cases hcaps : keyOf data = scancodeCapslock
  · cases hbreak : isBreak data <;>
      simp [Flags.scan, Keyboard.flags, hbreak, hcaps, scancodeLshift, scancodeRshift,
        scancodeLctrl, scancodeLalt, scancodeCapslock]
  · cases hbreak : isBreak data <;>
      simp [Flags.scan, Keyboard.flags, hbreak, hleft, hright, hctrl, halt, hcaps]

theorem flags_keyboardHandler (k : Keyboard) (data : UInt8) :
    (keyboardHandler k data).flags = k.flags.scan data := by
  rw [← flags_keyboardDecode]
  change ((keyboardDecode k data).2.elim (keyboardDecode k data).1
    (bufferPut (keyboardDecode k data).1)).flags = _
  cases (keyboardDecode k data).2 with
  | none => rfl
  | some c => exact flags_bufferPut _ c

/-! ## One scancode -/

/-- A key is held if the scancode says so, or is about another key. -/
theorem held_scan (ks : HeldKeys) (data key : UInt8) : (ks.scan data).held key =
    if keyOf data = key then !isBreak data else ks.held key := by
  change update ks.held (keyOf data) (!isBreak data) key = _
  rw [update_apply]
  exact if_congr eq_comm rfl rfl

/-- A flag for a single key follows it. -/
theorem held_scan_iff {key : UInt8} {flag : Bool} (h : flag = true ↔ ks.held key = true) :
    (if keyOf data = key then !isBreak data else flag) = true ↔
      (ks.scan data).held key = true := by
  rw [held_scan]
  split
  · exact Iff.rfl
  · exact h

/-- The flag for Caps Lock follows its presses, if these are not repeated. -/
theorem Follows.caps_iff (h : Follows f ks) (data : UInt8) :
    ((f.scan data).capslockOn = true ↔ Odd (ks.scan data).capsPresses) ↔
      (isBreak data = false → keyOf data = scancodeCapslock →
        ks.held scancodeCapslock = false) := by
  have hcaps := h.caps
  change ((if _ then _ else _) = true ↔ Odd (if _ then _ else _)) ↔ _
  by_cases hmake : keyOf data = scancodeCapslock ∧ isBreak data = false
  · obtain ⟨hkey, hbreak⟩ := hmake
    cases hheld : ks.held scancodeCapslock with
    | false => simp [hkey, hbreak, Nat.odd_add_one, ← hcaps]
    | true => simp [hkey, hbreak, ← hcaps]
  · rw [if_neg hmake, if_neg fun hpress ↦ hmake ⟨hpress.1, hpress.2.1⟩]
    exact iff_of_true hcaps fun hbreak hkey ↦ absurd ⟨hkey, hbreak⟩ hmake

/-- The flag for the shift keys follows them, if neither is released while the other one is held. -/
theorem Follows.shift_iff (h : Follows f ks) (data : UInt8) :
    ((f.scan data).shiftPressed = true ↔
      (ks.scan data).held scancodeLshift = true ∨ (ks.scan data).held scancodeRshift = true) ↔
      (isBreak data = true → keyOf data = scancodeLshift → ks.held scancodeRshift = false) ∧
      (isBreak data = true → keyOf data = scancodeRshift → ks.held scancodeLshift = false) := by
  have hne : scancodeLshift ≠ scancodeRshift := by decide
  have hshift := h.shift
  rw [held_scan, held_scan]
  change ((if _ then _ else _) = true ↔ _) ↔ _
  by_cases hleft : keyOf data = scancodeLshift
  · simp [hleft, hne]
  by_cases hright : keyOf data = scancodeRshift
  · simp [hright, hne.symm]
  simp [hleft, hright, hshift]

/-- **A scancode is followed** exactly if it is one that the flags can follow. -/
theorem Follows.scan_iff (h : Follows f ks) (data : UInt8) :
    Follows (f.scan data) (ks.scan data) ↔ Followed ks data := by
  rw [followed_iff, ← and_assoc, ← h.shift_iff, ← h.caps_iff]
  constructor
  · exact fun h' ↦ ⟨h'.shift, h'.caps⟩
  · exact fun ⟨hshift, hcaps⟩ ↦ ⟨hshift, held_scan_iff h.ctrl, held_scan_iff h.alt, hcaps⟩

/-- **The flags follow the keys exactly as long as** no shift key is released while the other one is
held, and Caps Lock is not repeated. -/
theorem followsKeys_iff (hk : Follows k.flags .untouched) (codes : List UInt8) :
    FollowsKeys k codes ↔
      ∀ p data, p ++ [data] <+: codes → Followed (heldAfter p) data := by
  refine forall_prefix_iff hk fun p data _ hp ↦ ?_
  rw [List.foldl_concat, flags_keyboardHandler, heldAfter_concat]
  exact hp.scan_iff data

theorem keyboardBufferSize_pos : 0 < keyboardBufferSize := by decide

/-- The static variables of `keyboard.c` when the system starts. -/
def keyboardStatic : Keyboard :=
  ⟨fun _ ↦ 0, ⟨0, keyboardBufferSize_pos⟩, ⟨0, keyboardBufferSize_pos⟩, false, false, false, false⟩

theorem follows_keyboardStatic : Follows keyboardStatic.flags .untouched :=
  ⟨by simp [keyboardStatic, Keyboard.flags, HeldKeys.untouched], Iff.rfl, Iff.rfl,
    iff_of_false Bool.false_ne_true Nat.not_odd_zero⟩

/-- A shift key is pressed, and released. -/
theorem followsKeys_iff_shift : FollowsKeys keyboardStatic [0x2A, 0xAA] ∧
    ∀ p data, p ++ [data] <+: [0x2A, 0xAA] → Followed (heldAfter p) data := by
  have hfollowed : ∀ p data, p ++ [data] <+: [0x2A, 0xAA] → Followed (heldAfter p) data := by
    simp only [forall_snoc_cons, forall_snoc_nil, followed_iff]
    decide
  exact ⟨(followsKeys_iff follows_keyboardStatic _).mpr hfollowed, hfollowed⟩

/-- **The flags do not follow the keys** if the left shift key is released while the right one is
held, or if Caps Lock is repeated. -/
theorem not_followsKeys :
    (KeyStream [0x2A, 0x36, 0xAA] ∧ ¬ FollowsKeys keyboardStatic [0x2A, 0x36, 0xAA]) ∧
      KeyStream [0x3A, 0x3A] ∧ ¬ FollowsKeys keyboardStatic [0x3A, 0x3A] := by
  refine ⟨⟨?_, fun h ↦ ?_⟩, ?_, fun h ↦ ?_⟩
  · simp only [KeyStream, forall_snoc_cons, forall_snoc_nil]
    decide
  · have hshift := (h _ List.prefix_rfl).shift.mpr (.inr rfl)
    revert hshift
    decide
  · simp only [KeyStream, forall_snoc_cons, forall_snoc_nil]
    decide
  · have hcaps := (h _ List.prefix_rfl).caps.mpr odd_one
    revert hcaps
    decide

end KontolOS.Drivers
