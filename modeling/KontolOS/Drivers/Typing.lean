import KontolOS.Drivers.KeyQueue
import KontolOS.Drivers.Modifiers

/-!
# Typing

Someone types a text, and the keyboard sends scancodes: a make code when a key goes down and a break
code when it goes up again.  `keyboard_handler` of `src/drivers/keyboard.c` makes characters of
them, from the tables and the flags of the modifier keys, and puts them into the buffer, from which
`keyboard_getchar` takes them.  What is got at this end is what was typed at the other one
(`run_types`), however the interrupts and the steps of the main program come, and as long as the
main program is not more than 255 characters behind, which is all that the buffer holds.
-/

namespace KontolOS.Drivers

open KontolOS.Lib Function

/-! ## How a character is typed -/

/-- The characters on the keys, with shift or without. -/
def keyTable (upper : Bool) : Vector UInt8 sizeofScancodeToAscii :=
  if upper then scancodeToAsciiShift else scancodeToAscii

/-- The make code of a key. -/
def makeCode (i : Fin sizeofScancodeToAscii) : UInt8 := UInt8.ofNat i

/-- A key goes down, and up again. -/
def tap (code : UInt8) : List UInt8 := [code, code ||| keyReleaseFlag]

/-- A key is held while others are typed. -/
def holding (key : UInt8) (codes : List UInt8) : List UInt8 :=
  key :: codes ++ [key ||| keyReleaseFlag]

/-- Whether Caps Lock changes what a key stands for. -/
def capsOf (caps : Bool) (i : Fin sizeofScancodeToAscii) : Bool := isLetter (makeCode i) && caps

/-- **The scancodes of a character**, while Caps Lock is on or off. -/
inductive Typed (caps : Bool) (c : UInt8) : List UInt8 → Prop
  | /-- a key by itself -/
    alone (i : Fin sizeofScancodeToAscii) :
      c ≠ 0 → (keyTable (capsOf caps i)).get i = c → Typed caps c (tap (makeCode i))
  | /-- a key, with one of the shift keys -/
    shifted (i : Fin sizeofScancodeToAscii) {shift : UInt8} :
      shift = scancodeLshift ∨ shift = scancodeRshift →
      c ≠ 0 → (keyTable (!capsOf caps i)).get i = c →
      Typed caps c (holding shift (tap (makeCode i)))
  | /-- a control character: the key of its letter, with the control key -/
    control (i : Fin sizeofScancodeToAscii) :
      1 ≤ c → c ≤ 26 → (keyTable false).get i = c + 0x60 →
      Typed caps c (holding scancodeLctrl (tap (makeCode i)))

/-! ## What the handler makes of it -/

/-- The characters that the handler finds in scancodes. -/
def decoded (k : Keyboard) : List UInt8 → List UInt8
  | [] => []
  | data :: codes => (keyboardDecode k data).2.toList ++ decoded (keyboardHandler k data) codes

variable {k k' : Keyboard} {f : Flags} {caps alt : Bool} {c data : UInt8} {codes : List UInt8}
  {i : Fin sizeofScancodeToAscii}

theorem decoded_append (k : Keyboard) (p q : List UInt8) :
    decoded k (p ++ q) = decoded k p ++ decoded (p.foldl keyboardHandler k) q := by
  induction p generalizing k with
  | nil => rfl
  | cons data p ih =>
      rw [List.cons_append, decoded, decoded, ih, List.append_assoc, List.foldl_cons]

theorem flags_foldl (k : Keyboard) (codes : List UInt8) :
    (codes.foldl keyboardHandler k).flags = codes.foldl Flags.scan k.flags := by
  induction codes generalizing k with
  | nil => rfl
  | cons data codes ih => rw [List.foldl_cons, List.foldl_cons, ih, flags_keyboardHandler]

/-- The flags are all that decides on the character. -/
theorem keyboardDecode_congr (h : k.flags = k'.flags) (data : UInt8) :
    (keyboardDecode k data).2 = (keyboardDecode k' data).2 := by
  have hshift : k.shiftPressed = k'.shiftPressed := congrArg Flags.shiftPressed h
  have hctrl : k.ctrlPressed = k'.ctrlPressed := congrArg Flags.ctrlPressed h
  have hcaps : k.capslockOn = k'.capslockOn := congrArg Flags.capslockOn h
  have hkey (scancode : UInt8) : keyChar k scancode = keyChar k' scancode := by
    rw [keyChar, keyChar, hshift, hctrl, hcaps]
  simp only [keyboardDecode, hkey]
  repeat' split
  all_goals rfl

theorem decoded_congr (h : k.flags = k'.flags) (codes : List UInt8) :
    decoded k codes = decoded k' codes := by
  induction codes generalizing k k' with
  | nil => rfl
  | cons data codes ih =>
      have hflags : (keyboardHandler k data).flags = (keyboardHandler k' data).flags := by
        rw [flags_keyboardHandler, flags_keyboardHandler, h]
      rw [decoded, decoded, keyboardDecode_congr h, ih hflags]

/-! ## Keys -/

/-- A key that is no modifier. -/
structure CharKey (code : UInt8) : Prop where
  /-- neither of the shift keys -/
  notShift : ¬ (code = scancodeLshift ∨ code = scancodeRshift)
  /-- not the control key -/
  notCtrl : code ≠ scancodeLctrl
  /-- not the alternate key -/
  notAlt : code ≠ scancodeLalt
  /-- not Caps Lock -/
  notCaps : code ≠ scancodeCapslock

/-- The tables have no characters for modifiers. -/
theorem charKey_of_keyTable {upper : Bool} (h : (keyTable upper).get i ≠ 0) :
    CharKey (makeCode i) := by
  have hall : ∀ i : Fin sizeofScancodeToAscii,
      (keyTable false).get i ≠ 0 ∨ (keyTable true).get i ≠ 0 →
      ¬ (makeCode i = scancodeLshift ∨ makeCode i = scancodeRshift) ∧ makeCode i ≠ scancodeLctrl ∧
        makeCode i ≠ scancodeLalt ∧ makeCode i ≠ scancodeCapslock := by decide
  have hsome : (keyTable false).get i ≠ 0 ∨ (keyTable true).get i ≠ 0 := by
    cases upper with
    | false => exact .inl h
    | true => exact .inr h
  obtain ⟨hshift, hctrl, halt, hcaps⟩ := hall i hsome
  exact ⟨hshift, hctrl, halt, hcaps⟩

/-- The make code of a key and its break code. -/
theorem codes_of_key (i : Fin sizeofScancodeToAscii) :
    (keyOf (makeCode i) = makeCode i ∧ isBreak (makeCode i) = false) ∧
      keyOf (makeCode i ||| keyReleaseFlag) = makeCode i ∧
        isBreak (makeCode i ||| keyReleaseFlag) = true := by
  revert i
  decide

/-- The two cases of a letter stand 32 apart. -/
theorem letter_keyTable (hlow : 0x61 ≤ (keyTable false).get i)
    (hhigh : (keyTable false).get i ≤ 0x7A) :
    (keyTable true).get i = (keyTable false).get i - 0x20 := by
  revert i
  decide

/-- Such a key is decoded when it goes down. -/
theorem keyboardDecode_charKey (h : CharKey (keyOf data)) : (keyboardDecode k data).2 =
    if isBreak data then none else keyChar k (keyOf data) := by
  rw [keyboardDecode_eq, if_neg h.notShift, if_neg h.notCtrl, if_neg h.notAlt, if_neg h.notCaps]
  split
  · rfl
  · rfl

/-- It leaves the flags alone. -/
theorem scan_charKey (h : CharKey (keyOf data)) (f : Flags) : f.scan data = f := by
  rw [Flags.scan, if_neg h.notShift, if_neg h.notCtrl, if_neg h.notAlt,
    if_neg fun hcaps ↦ h.notCaps hcaps.1]

/-- **A tap** is one character. -/
theorem decoded_tap (h : CharKey (makeCode i)) (k : Keyboard) :
    decoded k (tap (makeCode i)) = (keyChar k (makeCode i)).toList := by
  obtain ⟨⟨hkey, hmake⟩, hkey', hbreak⟩ := codes_of_key i
  have hdown : CharKey (keyOf (makeCode i)) := by rwa [hkey]
  have hup : CharKey (keyOf (makeCode i ||| keyReleaseFlag)) := by rwa [hkey']
  rw [tap, decoded, decoded, decoded, keyboardDecode_charKey hdown, keyboardDecode_charKey hup,
    hmake, hbreak, hkey]
  exact List.append_nil _

theorem foldl_scan_tap (h : CharKey (makeCode i)) (f : Flags) :
    (tap (makeCode i)).foldl Flags.scan f = f := by
  obtain ⟨⟨hkey, _⟩, hkey', _⟩ := codes_of_key i
  have hdown : CharKey (keyOf (makeCode i)) := by rwa [hkey]
  have hup : CharKey (keyOf (makeCode i ||| keyReleaseFlag)) := by rwa [hkey']
  rw [tap, List.foldl_cons, List.foldl_cons, List.foldl_nil, scan_charKey hdown, scan_charKey hup]

/-- Shift and control keys are not decoded. -/
theorem decoded_holding {key : UInt8} (hdown : (keyboardDecode k key).2 = none)
    (hup : ∀ k', (keyboardDecode k' (key ||| keyReleaseFlag)).2 = none) (codes : List UInt8) :
    decoded k (holding key codes) = decoded (keyboardHandler k key) codes := by
  rw [holding, List.cons_append, decoded, hdown, decoded_append, decoded, hup, decoded]
  exact List.append_nil _

/-- What a key stands for. -/
theorem keyChar_makeCode (k : Keyboard) (i : Fin sizeofScancodeToAscii) :
    keyChar k (makeCode i) =
      let upper := if isLetter (makeCode i) then k.shiftPressed ^^ k.capslockOn else k.shiftPressed
      let c := ctrlChar k.ctrlPressed ((keyTable upper).get i)
      if c ≠ 0 then some c else none := by
  have hall : ∀ i : Fin sizeofScancodeToAscii, (makeCode i).toNat = i := by decide
  have hlt : (makeCode i).toNat < sizeofScancodeToAscii := by
    rw [hall i]
    exact i.isLt
  have hindex : (⟨(makeCode i).toNat, hlt⟩ : Fin sizeofScancodeToAscii) = i := Fin.ext (hall i)
  rw [keyChar, dif_pos hlt, hindex]
  rfl

/-- The case of a character, from the shift keys and Caps Lock. -/
theorem upper_eq (shift caps : Bool) (i : Fin sizeofScancodeToAscii) :
    (if isLetter (makeCode i) then shift ^^ caps else shift) = (shift ^^ capsOf caps i) := by
  rw [capsOf]
  cases isLetter (makeCode i) with
  | true => rfl
  | false => exact (Bool.xor_false shift).symm

theorem keyChar_of_keyTable {upper : Bool}
    (hshift : (k.shiftPressed ^^ capsOf k.capslockOn i) = upper)
    (hctrl : k.ctrlPressed = false) (hc : c ≠ 0) (hget : (keyTable upper).get i = c) :
    keyChar k (makeCode i) = some c := by
  have hplain : ctrlChar false c = c := rfl
  rw [keyChar_makeCode]
  dsimp only
  rw [upper_eq, hshift, hctrl, hget, hplain, if_pos hc]

/-- The letter of a control character is not the end of a string. -/
theorem letter_ne_zero (hhigh : c ≤ 26) : c + 0x60 ≠ 0 := by
  intro hzero
  have hadd := congrArg UInt8.toNat hzero
  rw [UInt8.toNat_add] at hadd
  have hle := UInt8.le_iff_toNat_le.mp hhigh
  change (c.toNat + 96) % 256 = 0 at hadd
  change c.toNat ≤ 26 at hle
  omega

/-- With the control key a letter, in either case, is a control character. -/
theorem keyChar_control (hctrl : k.ctrlPressed = true) (hlow : 1 ≤ c) (hhigh : c ≤ 26)
    (hget : (keyTable false).get i = c + 0x60) : keyChar k (makeCode i) = some c := by
  have hall : ∀ n : Fin 27, 1 ≤ n.val →
      ctrlChar true (UInt8.ofNat n + 0x60) = UInt8.ofNat n ∧
        ctrlChar true (UInt8.ofNat n + 0x60 - 0x20) = UInt8.ofNat n ∧ UInt8.ofNat n ≠ 0 ∧
        0x61 ≤ UInt8.ofNat n + 0x60 ∧ UInt8.ofNat n + 0x60 ≤ 0x7A := by decide
  have hlt : c.toNat < 27 := Nat.lt_succ_of_le (UInt8.le_iff_toNat_le.mp hhigh)
  obtain ⟨hlower, hupper, hne, hfrom, hto⟩ := hall ⟨c.toNat, hlt⟩ (UInt8.le_iff_toNat_le.mp hlow)
  rw [UInt8.ofNat_toNat] at hlower hupper hne hfrom hto
  rw [← hget] at hfrom hto
  have hletter := letter_keyTable hfrom hto
  rw [keyChar_makeCode]
  dsimp only
  rw [upper_eq, hctrl]
  cases k.shiftPressed ^^ capsOf k.capslockOn i with
  | false => rw [hget, hlower, if_pos hne]
  | true => rw [hletter, hget, hupper, if_pos hne]

/-! ## Characters -/

/-- No modifier key is held that matters, and Caps Lock is on or off. -/
structure AtRest (caps : Bool) (k : Keyboard) : Prop where
  /-- `keyboard_shift_pressed()` is false -/
  shift : k.shiftPressed = false
  /-- `keyboard_ctrl_pressed()` is false -/
  ctrl : k.ctrlPressed = false
  /-- Caps Lock -/
  caps : k.capslockOn = caps

/-- Of the flags only the one for the alternate key is open. -/
theorem AtRest.flags_eq (h : AtRest caps k) : k.flags = ⟨false, false, k.altPressed, caps⟩ := by
  rw [Keyboard.flags, h.shift, h.ctrl, h.caps]

theorem AtRest.congr (h : AtRest caps k) (hf : k'.flags = k.flags) : AtRest caps k' :=
  ⟨(congrArg Flags.shiftPressed hf).trans h.shift, (congrArg Flags.ctrlPressed hf).trans h.ctrl,
    (congrArg Flags.capslockOn hf).trans h.caps⟩

/-- A shift key goes down. -/
theorem flags_shift (h : AtRest caps k) {shift : UInt8}
    (hshift : shift = scancodeLshift ∨ shift = scancodeRshift) :
    (keyboardHandler k shift).flags = ⟨true, false, k.altPressed, caps⟩ := by
  rw [flags_keyboardHandler, h.flags_eq]
  rcases hshift with rfl | rfl
  · rfl
  · rfl

/-- The control key goes down. -/
theorem flags_ctrl (h : AtRest caps k) :
    (keyboardHandler k scancodeLctrl).flags = ⟨false, true, k.altPressed, caps⟩ := by
  rw [flags_keyboardHandler, h.flags_eq]
  rfl

/-- A modifier key that goes down and up again while a character is typed: it is not decoded, and
at the end the flags are the old ones. -/
theorem AtRest.held {key : UInt8} (h : AtRest caps k) (hkey : CharKey (makeCode i))
    (hdown : (keyboardDecode k key).2 = none)
    (hup : ∀ k', (keyboardDecode k' (key ||| keyReleaseFlag)).2 = none)
    (hflags : (keyboardHandler k key).flags.scan (key ||| keyReleaseFlag) = k.flags)
    (hchar : keyChar (keyboardHandler k key) (makeCode i) = some c) :
    Drivers.decoded k (holding key (tap (makeCode i))) = [c] ∧
      AtRest caps ((holding key (tap (makeCode i))).foldl keyboardHandler k) := by
  refine ⟨?_, h.congr ?_⟩
  · rw [decoded_holding hdown hup, decoded_tap hkey, hchar]
    rfl
  · rw [flags_foldl, holding, List.cons_append, List.foldl_cons, List.foldl_append,
      ← flags_keyboardHandler, foldl_scan_tap hkey]
    exact hflags

/-- **A character** is what the handler makes of its scancodes, and the modifier keys are up again
after it. -/
theorem Typed.decoded (ht : Typed caps c codes) (h : AtRest caps k) :
    decoded k codes = [c] ∧ AtRest caps (codes.foldl keyboardHandler k) := by
  cases ht with
  | alone i hc hget =>
      have hkey : CharKey (makeCode i) := charKey_of_keyTable (by rwa [hget])
      have hchar : keyChar k (makeCode i) = some c :=
        keyChar_of_keyTable (by rw [h.shift, h.caps, Bool.false_xor]) h.ctrl hc hget
      refine ⟨?_, h.congr ?_⟩
      · rw [decoded_tap hkey, hchar]
        rfl
      · rw [flags_foldl, foldl_scan_tap hkey]
  | @shifted i shift hshift hc hget =>
      have hkey : CharKey (makeCode i) := charKey_of_keyTable (by rwa [hget])
      have hflags := flags_shift h hshift
      have hchar : keyChar (keyboardHandler k shift) (makeCode i) = some c := by
        refine keyChar_of_keyTable ?_ (congrArg Flags.ctrlPressed hflags) hc hget
        have hpressed : (keyboardHandler k shift).shiftPressed = true :=
          congrArg Flags.shiftPressed hflags
        have hcaps : (keyboardHandler k shift).capslockOn = caps := congrArg Flags.capslockOn hflags
        rw [hpressed, hcaps, Bool.true_xor]
      rcases hshift with rfl | rfl
      · exact h.held hkey rfl (fun _ ↦ rfl) (by rw [hflags, h.flags_eq]; rfl) hchar
      · exact h.held hkey rfl (fun _ ↦ rfl) (by rw [hflags, h.flags_eq]; rfl) hchar
  | control i hlow hhigh hget =>
      have hkey : CharKey (makeCode i) := by
        apply charKey_of_keyTable
        rw [hget]
        exact letter_ne_zero hhigh
      have hflags := flags_ctrl h
      have hchar : keyChar (keyboardHandler k scancodeLctrl) (makeCode i) = some c :=
        keyChar_control (congrArg Flags.ctrlPressed hflags) hlow hhigh hget
      exact h.held hkey rfl (fun _ ↦ rfl) (by rw [hflags, h.flags_eq]; rfl) hchar

/-- **A text** -/
theorem decoded_text {text : List UInt8} {strokes : List (List UInt8)}
    (ht : List.Forall₂ (Typed caps) text strokes) (h : AtRest caps k) :
    decoded k strokes.flatten = text := by
  induction ht generalizing k with
  | nil => rfl
  | cons hc _ ih =>
      obtain ⟨hchar, hrest⟩ := hc.decoded h
      rw [List.flatten_cons, decoded_append, hchar, ih hrest, List.singleton_append]

/-! ## Runs -/

/-- The bytes from the keyboard. -/
def scancodes (as : List KeyEvent) : List UInt8 :=
  as.filterMap fun a ↦ match a with
    | .irq data _ => some data
    | _ => none

/-- The characters that are given to `buffer_put`. -/
def given (as : List KeyEvent) : List UInt8 :=
  as.filterMap fun a ↦ match a with
    | .irq _ (some (c, _)) => some c
    | _ => none

variable {as : List KeyEvent} {x₀ x y : Keys} {a : KeyEvent}

theorem scancodes_concat (as : List KeyEvent) (a : KeyEvent) :
    scancodes (as ++ [a]) = scancodes as ++ scancodes [a] := List.filterMap_append

theorem given_concat (as : List KeyEvent) (a : KeyEvent) :
    given (as ++ [a]) = given as ++ given [a] := List.filterMap_append

/-- The main program does not touch the flags. -/
theorem flags_getcharStep {r : Returned} {reader reader' : Reader}
    (h : getcharStep k reader = some (r, k', reader')) : k'.flags = k.flags := by
  cases reader with
  | idle => cases h
  | test blocking =>
      rw [getcharStep] at h
      split at h
      · cases h
        rfl
      · split at h
        · cases h
          rfl
        · cases h
          rfl
  | read =>
      cases h
      rfl
  | advance c =>
      cases h
      rfl

/-- Whatever comes between the interrupts, the handler decodes the bytes from the keyboard one
after the other. -/
theorem given_eq_decoded (hr : Run KeyStep x₀ as x) :
    given as = decoded x₀.keyboard (scancodes as) ∧
      x.keyboard.flags = ((scancodes as).foldl keyboardHandler x₀.keyboard).flags := by
  refine hr.trace_invariant (I := fun as x ↦ given as = decoded x₀.keyboard (scancodes as) ∧
    x.keyboard.flags = ((scancodes as).foldl keyboardHandler x₀.keyboard).flags) ?_ ⟨rfl, rfl⟩
  rintro as x a y ⟨hgiven, hflags⟩ hstep
  rw [given_concat, scancodes_concat, decoded_append, List.foldl_append, ← hgiven]
  cases a with
  | irq data put =>
      obtain ⟨rfl, rfl⟩ := hstep
      change _ ++ given [.irq data (offered x.keyboard data)] = _ ++ decoded _ [data] ∧
        (keyboardHandler x.keyboard data).flags = (keyboardHandler _ data).flags
      refine ⟨?_, ?_⟩
      · rw [decoded_congr hflags.symm, decoded, decoded, List.append_nil, offered]
        cases (keyboardDecode x.keyboard data).2 with
        | none => rfl
        | some c => rfl
      · rw [flags_keyboardHandler, flags_keyboardHandler, hflags]
  | call blocking =>
      obtain ⟨_, rfl⟩ := hstep
      exact ⟨rfl, hflags⟩
  | step r => exact ⟨rfl, (flags_getcharStep hstep).trans hflags⟩

/-! ## The main program keeps up -/

/-- What a step adds to the characters that are given and to those that are accepted: the same, or
one is dropped. -/
theorem given_cases (hstep : KeyStep x a y) : accepted [a] = given [a] ∨
    (∃ c, given [a] = [c] ∧ accepted [a] = [] ∧ returned [a] = [] ∧
      x.keyboard.pending.length = keyboardBufferSize - 1) := by
  cases a with
  | irq data put =>
      obtain ⟨rfl, rfl⟩ := hstep
      rcases keyboardHandler_cases x.keyboard data with
        ⟨hoff, _⟩ | ⟨c, hoff, _⟩ | ⟨c, hoff, _, hfull⟩
      · exact .inl (by rw [hoff]; rfl)
      · exact .inl (by rw [hoff]; rfl)
      · rw [hoff]
        exact .inr ⟨c, rfl, rfl, rfl, hfull⟩
  | call blocking => exact .inl rfl
  | step r => exact .inl rfl

/-- The invariant of a run. -/
structure Accepts (as : List KeyEvent) (x : Keys) : Prop where
  /-- the buffer is a queue -/
  fifo : Fifo as x
  /-- nothing is accepted that was not given -/
  sublist : (accepted as).Sublist (given as)
  /-- and all of it if the main program has kept up -/
  all_iff : accepted as = given as ↔
    ∀ p, p <+: as → (given p).length ≤ (returned p).length + 255

theorem Fifo.length_accepted (h : Fifo as x) : (accepted as).length =
    (returned as).length + x.keyboard.pending.length := by
  rw [h.split, List.length_append]

theorem Accepts.step (h : Accepts as x) (hstep : KeyStep x a y) : Accepts (as ++ [a]) y := by
  have hfifo := h.fifo.step hstep
  have hle : (accepted (as ++ [a])).length ≤ (returned (as ++ [a])).length + 255 := by
    rw [hfifo.length_accepted]
    exact Nat.add_le_add_left (Nat.le_of_lt_succ (length_pending_lt _)) _
  have hlen := h.sublist.length_le
  have hold : (∀ p, p <+: as ++ [a] → (given p).length ≤ (returned p).length + 255) →
      accepted as = given as :=
    fun hkept ↦ h.all_iff.mpr fun p hp ↦ hkept p (hp.trans (List.prefix_append as [a]))
  rcases given_cases hstep with hsame | ⟨c, hgiven, hnone, hret, hfull⟩
  · refine ⟨hfifo, ?_, fun heq ↦ ?_, fun hkept ↦ ?_⟩
    · rw [accepted_concat, given_concat, hsame]
      exact h.sublist.append_right _
    · intro p hp
      rcases List.prefix_concat_iff.mp hp with rfl | hp
      · rwa [← heq]
      · rw [accepted_concat, given_concat, hsame] at heq
        exact h.all_iff.mp (List.append_cancel_right heq) p hp
    · rw [accepted_concat, given_concat, hold hkept, hsame]
  · -- a character is dropped: the main program is 255 characters behind those accepted
    have hbehind := h.fifo.length_accepted
    rw [hfull] at hbehind
    refine ⟨hfifo, ?_, fun heq ↦ ?_, fun hkept ↦ ?_⟩
    · rw [accepted_concat, given_concat, hnone, List.append_nil]
      exact h.sublist.trans (List.sublist_append_left _ _)
    · have hlength := congrArg List.length heq
      rw [accepted_concat, given_concat, hnone, hgiven, List.append_nil, List.length_append,
        List.length_singleton] at hlength
      omega
    · have hlast := hkept _ List.prefix_rfl
      rw [given_concat, returned_concat, hgiven, hret, List.append_nil, List.length_append,
        List.length_singleton] at hlast
      change (accepted as).length = (returned as).length + 255 at hbehind
      omega

theorem Started.accepts (h : Started x) : Accepts [] x := by
  refine ⟨h.fifo, List.Sublist.refl _, fun _ p hp ↦ ?_, fun _ ↦ rfl⟩
  rw [List.prefix_nil.mp hp]
  exact Nat.zero_le _

/-! ## From the keys to the main program -/

/-- **What is typed is read.**  In every run from `keyboard_init`, whatever comes between the
interrupts and between the steps of `keyboard_getchar`, if the keyboard has sent the scancodes of a
text, then `buffer_put` was given the text, in order.  What the main program has got and what waits
in the buffer is the text, without a loss, exactly if it was never more than 255 characters
behind. -/
theorem run_types (h₀ : Started x₀) (hrest : AtRest caps x₀.keyboard) (hr : Run KeyStep x₀ as x)
    {text : List UInt8} {strokes : List (List UInt8)}
    (htyped : List.Forall₂ (Typed caps) text strokes) (hcodes : scancodes as = strokes.flatten) :
    given as = text ∧ (returned as ++ x.keyboard.pending).Sublist text ∧
      (returned as ++ x.keyboard.pending = text ↔
        ∀ p, p <+: as → (given p).length ≤ (returned p).length + 255) := by
  have hgiven : given as = text := by
    rw [(given_eq_decoded hr).1, hcodes, decoded_text htyped hrest]
  have h : Accepts as x := hr.trace_invariant (I := Accepts) (fun h hs ↦ h.step hs) h₀.accepts
  rw [← h.fifo.split, ← hgiven]
  exact ⟨rfl, h.sublist, h.all_iff⟩

/-- `Hi` is typed, with the right shift key, and its first letter is read before the second one is
typed. -/
theorem run_types_hi : ∃ as x y, Started x ∧ Run KeyStep x as y ∧
    scancodes as = [0x36, 0x23, 0xA3, 0xB6, 0x17, 0x97] ∧ returned as = [0x48] ∧
    given as = [0x48, 0x69] := by
  let k₀ : Keyboard := keyboardInit keyboardStatic
  let k₁ : Keyboard := keyboardHandler k₀ 0x36
  let k₂ : Keyboard := keyboardHandler k₁ 0x23
  let k₃ : Keyboard := { k₂ with bufferStart := Ring.next k₂.bufferStart }
  let k₄ : Keyboard := keyboardHandler k₃ 0xA3
  let k₅ : Keyboard := keyboardHandler k₄ 0xB6
  let k₆ : Keyboard := keyboardHandler k₅ 0x17
  have hstart : Started ⟨k₀, .idle⟩ := ⟨keyboardStatic, rfl⟩
  have hirq (k : Keyboard) (r : Reader) (data : UInt8) :
      KeyStep ⟨k, r⟩ (.irq data (offered k data)) ⟨keyboardHandler k data, r⟩ := ⟨rfl, rfl⟩
  have hcall : KeyStep ⟨k₁, .idle⟩ (.call true) ⟨k₁, .test true⟩ := ⟨rfl, rfl⟩
  have htest : KeyStep ⟨k₂, .test true⟩ (.step .running) ⟨k₂, .read⟩ := rfl
  have hread : KeyStep ⟨k₂, .read⟩ (.step .running) ⟨k₂, .advance 0x48⟩ := rfl
  have hadvance : KeyStep ⟨k₂, .advance 0x48⟩ (.step (.char 0x48)) ⟨k₃, .idle⟩ := rfl
  have hrun := Run.cons (hirq k₀ _ 0x36) (.cons hcall (.cons (hirq k₁ _ 0x23) (.cons htest
    (.cons hread (.cons hadvance (.cons (hirq k₃ _ 0xA3) (.cons (hirq k₄ _ 0xB6)
      (.cons (hirq k₅ _ 0x17) (.single (hirq k₆ _ 0x97))))))))))
  have htyped : List.Forall₂ (Typed false) [0x48, 0x69]
      [holding 0x36 (tap (makeCode ⟨35, by decide⟩)), tap (makeCode ⟨23, by decide⟩)] :=
    .cons (.shifted _ (.inr rfl) (by decide) (by decide))
      (.cons (.alone _ (by decide) (by decide)) .nil)
  exact ⟨_, _, _, hstart, hrun, rfl, rfl, (run_types hstart ⟨rfl, rfl, rfl⟩ hrun htyped rfl).1⟩

end KontolOS.Drivers
