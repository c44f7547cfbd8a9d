import KontolOS.Drivers.Screen

/-!
# Reading a line

`keyboard_readline` of `src/drivers/keyboard.c`.  The characters that `keyboard_getchar` is going
to deliver are a list; at its end the function waits for more of them.

The line so far is a stack: a backspace takes the last character off, any other key is put on it
(`typeChar`).  The loop has two exits.  It is left at a newline; and it is left when the buffer is
full, with no newline read, and then the rest of what the user types on that line is still to be
delivered (`Outcome`).  In both cases the line is in the buffer, with a terminator behind it
(`keyboardReadline_line`).
-/

namespace KontolOS.Drivers

open KontolOS.Lib

/-! ## The function -/

/-- The variables of `keyboard_readline`, and the screen. -/
structure Readline where
  /-- `i` -/
  i : Nat
  /-- `buffer` -/
  buffer : List UInt8
  /-- the screen that the keys are echoed to -/
  vga : Vga

/-- What has become of a call. -/
inductive Reading
  | /-- it waits for a key -/ waiting (r : Readline)
  | /-- it has returned `r.i`, and `keys` are still to be delivered -/
    returned (r : Readline) (keys : List UInt8)

/-- `buffer[i] = c` -/
def Readline.store (r : Readline) (c : UInt8) : Option Readline :=
  if r.i < r.buffer.length then some { r with buffer := r.buffer.set r.i c } else none

/-- A backspace, or any other key but Enter. -/
def readlineKey (c : UInt8) (r : Readline) : Option Readline :=
  if c = 0x08 then
    if 0 < r.i then do
      let vga ← vgaPutchar 0x08 r.vga
      return { r with i := sub32 r.i 1, vga := vga }
    else some r
  else do
    let r ← r.store c
    let vga ← vgaPutchar c r.vga
    return { r with i := add32 r.i 1, vga := vga }

/-- The loop of `keyboard_readline`. -/
def readlineLoop (maxLength : Nat) : List UInt8 → Readline → Option Reading
  | [], r => if r.i < sub32 maxLength 1 then some (.waiting r) else some (.returned r [])
  | c :: keys, r =>
      if r.i < sub32 maxLength 1 then
        if c = 0x0A then do
          let vga ← vgaPutchar 0x0A r.vga
          return .returned { r with vga := vga } keys
        else (readlineKey c r).bind (readlineLoop maxLength keys)
      else some (.returned r (c :: keys))

/-- `keyboard_readline` -/
def keyboardReadline (buffer : List UInt8) (maxLength : Nat) (vga : Vga) (keys : List UInt8) :
    Option Reading := do
  match ← readlineLoop maxLength keys ⟨0, buffer, vga⟩ with
  | .waiting r => return .waiting r
  | .returned r keys => return .returned (← r.store 0) keys

/-! ## The line so far -/

/-- What a key does to the line. -/
def typeChar (line : List UInt8) (c : UInt8) : List UInt8 :=
  if c = 0x08 then line.dropLast else line ++ [c]

/-- What keys do to the line. -/
def typeChars (line keys : List UInt8) : List UInt8 := keys.foldl typeChar line

/-- The buffer begins with the line, and `i` is behind it. -/
structure Enters (line : List UInt8) (r : Readline) : Prop where
  /-- `i` is the length of the line -/
  i_eq : r.i = line.length
  /-- the line is at the beginning of the buffer -/
  buffer_eq : ∃ rest, r.buffer = line ++ rest

variable {n maxLength : Nat} {c : UInt8} {line keys p t : List UInt8} {r r' : Readline}
  {x : Reading}

theorem length_typeChar_le (line : List UInt8) (c : UInt8) :
    (typeChar line c).length ≤ line.length + 1 := by
  rw [typeChar]
  split
  · rw [List.length_dropLast]
    exact Nat.le_trans (Nat.sub_le _ _) (Nat.le_succ _)
  · rw [List.length_append]
    exact Nat.le_refl _

theorem length_typeChars_le (line keys : List UInt8) :
    (typeChars line keys).length ≤ line.length + keys.length := by
  induction keys generalizing line with
  | nil => exact Nat.le_refl _
  | cons c keys ih =>
      have hline := length_typeChar_le line c
      have hkeys := ih (typeChar line c)
      rw [List.length_cons]
      change (typeChars (typeChar line c) keys).length ≤ _
      omega

/-- A key in the model does what it does to the line. -/
theorem Enters.readlineKey (h : Enters line r) (hlen : line.length < 2 ^ 32 - 1)
    (hkey : readlineKey c r = some r') : Enters (typeChar line c) r' := by
  obtain ⟨rest, hbuf⟩ := h.buffer_eq
  have hi := h.i_eq
  rw [Drivers.readlineKey] at hkey
  split at hkey
  next hc =>
    rw [typeChar, if_pos hc]
    split at hkey
    next hpos =>
      simp only [Option.bind_eq_bind, Option.bind_eq_some_iff, Option.pure_def,
        Option.some.injEq] at hkey
      obtain ⟨vga, _, rfl⟩ := hkey
      have hne : line ≠ [] := List.ne_nil_of_length_pos (hi ▸ hpos)
      refine ⟨?_, line.getLast hne :: rest, ?_⟩
      · change sub32 r.i 1 = _
        rw [sub32_of_le (by omega) (by omega), List.length_dropLast, hi]
      · change r.buffer = _
        rw [hbuf, List.append_cons, List.dropLast_append_getLast]
    next hzero =>
      cases hkey
      have hnil : line = [] := List.length_eq_zero_iff.mp (hi ▸ Nat.eq_zero_of_not_pos hzero)
      rw [hnil, List.dropLast_nil]
      exact hnil ▸ h
  next hc =>
    rw [typeChar, if_neg hc]
    simp only [Readline.store, Option.bind_eq_bind, Option.bind_eq_some_iff, Option.pure_def,
      Option.some.injEq, Option.ite_none_right_eq_some] at hkey
    obtain ⟨r₁, ⟨hroom, rfl⟩, vga, _, rfl⟩ := hkey
    cases rest with
    | nil =>
        rw [hbuf, List.append_nil, hi] at hroom
        exact absurd hroom (Nat.lt_irrefl _)
    | cons d rest =>
        refine ⟨?_, rest, ?_⟩
        · change add32 r.i 1 = _
          rw [add32_of_lt (by omega), List.length_append, hi]
          rfl
        · change r.buffer.set r.i c = _
          rw [hbuf, hi, set_length_append, ← List.append_cons]

/-! ## The two exits -/

/-- The line stays shorter than `n` while the keys are typed. -/
def StaysBelow (n : Nat) (line keys : List UInt8) : Prop :=
  ∀ p, p <+: keys → (typeChars line p).length < n

/-- **What comes of a call**, for the line so far and the keys to come. -/
inductive Outcome (n : Nat) (line keys : List UInt8) : Reading → Prop
  | /-- there is no newline, and the line never gets `n` characters -/
    waiting {r : Readline} (hnl : 0x0A ∉ keys) (hbelow : StaysBelow n line keys)
      (hr : Enters (typeChars line keys) r) : Outcome n line keys (.waiting r)
  | /-- the line does not get `n` characters before the first newline -/
    newline {r : Readline} (t rest : List UInt8) (hkeys : keys = t ++ 0x0A :: rest)
      (hnl : 0x0A ∉ t) (hbelow : StaysBelow n line t) (hr : Enters (typeChars line t) r) :
      Outcome n line keys (.returned r rest)
  | /-- it gets them before the first newline, and the rest is left -/
    full {r : Readline} (t rest : List UInt8) (hkeys : keys = t ++ rest) (hnl : 0x0A ∉ t)
      (hfull : (typeChars line t).length = n) (hr : Enters (typeChars line t) r) :
      Outcome n line keys (.returned r rest)

theorem staysBelow_of_length (h : line.length + keys.length < n) : StaysBelow n line keys := by
  intro p hp
  have hline := length_typeChars_le line p
  have hlen := hp.length_le
  omega

theorem StaysBelow.cons (hline : line.length < n) (h : StaysBelow n (typeChar line c) t) :
    StaysBelow n line (c :: t) := by
  intro p hp
  rcases List.prefix_cons_iff.mp hp with rfl | ⟨q, rfl, hq⟩
  · exact hline
  · exact h q hq

/-- One more key in front. -/
theorem Outcome.cons (hline : line.length < n) (hc : c ≠ 0x0A)
    (h : Outcome n (typeChar line c) keys x) : Outcome n line (c :: keys) x := by
  have hmem : ∀ {t : List UInt8}, 0x0A ∉ t → 0x0A ∉ c :: t := fun ht hmem ↦
    (List.mem_cons.mp hmem).elim (fun heq ↦ hc heq.symm) ht
  cases h with
  | waiting hnl hbelow hr => exact .waiting (hmem hnl) (hbelow.cons hline) hr
  | newline t rest hkeys hnl hbelow hr =>
      exact .newline (c :: t) rest (congrArg (c :: ·) hkeys) (hmem hnl) (hbelow.cons hline) hr
  | full t rest hkeys hnl hfull hr =>
      exact .full (c :: t) rest (congrArg (c :: ·) hkeys) (hmem hnl) hfull hr

/-- **The loop of `keyboard_readline`** has one of these outcomes. -/
theorem readlineLoop_outcome (hmax : 1 ≤ maxLength) (hmax' : maxLength < 2 ^ 32)
    (hr : Enters line r) (hline : line.length ≤ maxLength - 1)
    (hloop : readlineLoop maxLength keys r = some x) : Outcome (maxLength - 1) line keys x := by
  induction keys generalizing line r with
  | nil =>
      rw [readlineLoop, sub32_of_le hmax hmax', hr.i_eq] at hloop
      split at hloop
      next hlt =>
        cases hloop
        refine .waiting List.not_mem_nil ?_ hr
        rintro p hp
        rw [List.prefix_nil.mp hp]
        exact hlt
      next hge =>
        cases hloop
        exact .full [] [] rfl List.not_mem_nil (Nat.le_antisymm hline (Nat.not_lt.mp hge)) hr
  | cons c keys ih =>
      rw [readlineLoop, sub32_of_le hmax hmax', hr.i_eq] at hloop
      split at hloop
      next hlt =>
        split at hloop
        next hc =>
          simp only [Option.bind_eq_bind, Option.bind_eq_some_iff, Option.pure_def,
            Option.some.injEq] at hloop
          obtain ⟨vga, _, rfl⟩ := hloop
          refine .newline [] keys (congrArg (· :: keys) hc) List.not_mem_nil ?_
            ⟨rfl, hr.buffer_eq⟩
          rintro p hp
          rw [List.prefix_nil.mp hp]
          exact hlt
        next hc =>
          obtain ⟨r₁, hkey, hrest⟩ := Option.bind_eq_some_iff.mp hloop
          have hlen : line.length < 2 ^ 32 - 1 := by omega
          have hline₁ : (typeChar line c).length ≤ maxLength - 1 :=
            Nat.le_trans (length_typeChar_le line c) hlt
          exact (ih (hr.readlineKey hlen hkey) hline₁ hrest).cons hlt hc
      next hge =>
        cases hloop
        exact .full [] _ rfl List.not_mem_nil (Nat.le_antisymm hline (Nat.not_lt.mp hge)) hr

/-! ## A call returns if a newline comes -/

variable {b₀ : Nat → UInt16}

/-- What a call keeps: the screen is in order, and the buffer has its size. -/
structure Readable (b₀ : Nat → UInt16) (maxLength : Nat) (r : Readline) : Prop where
  /-- the screen -/
  vga : OnScreen b₀ r.vga
  /-- the buffer has room for the characters and the terminator -/
  length : maxLength ≤ r.buffer.length

theorem Readable.readlineKey (h : Readable b₀ maxLength r) (hi : r.i < maxLength) (c : UInt8) :
    ∃ r', readlineKey c r = some r' ∧ Readable b₀ maxLength r' := by
  rw [Drivers.readlineKey]
  split
  · split
    · obtain ⟨vga, hput, hvga⟩ := h.vga.vgaPutchar 0x08
      rw [hput]
      exact ⟨_, rfl, hvga, h.length⟩
    · exact ⟨r, rfl, h⟩
  · obtain ⟨vga, hput, hvga⟩ := h.vga.vgaPutchar c
    have hstore : r.store c = some { r with buffer := r.buffer.set r.i c } :=
      if_pos (Nat.lt_of_lt_of_le hi h.length)
    rw [hstore, Option.bind_eq_bind, Option.bind_some, hput]
    refine ⟨_, rfl, hvga, ?_⟩
    change maxLength ≤ (r.buffer.set r.i c).length
    rw [List.length_set]
    exact h.length

theorem Readable.readlineLoop (h : Readable b₀ maxLength r) (keys : List UInt8)
    (hmax : 1 ≤ maxLength) (hmax' : maxLength < 2 ^ 32) :
    ∃ x, readlineLoop maxLength keys r = some x ∧
      ∀ r' rest, x = .returned r' rest → maxLength ≤ r'.buffer.length := by
  have hreturned : ∀ keys r' rest, Reading.returned r keys = .returned r' rest →
      maxLength ≤ r'.buffer.length := by
    rintro keys r' rest ⟨⟩
    exact h.length
  induction keys generalizing r with
  | nil =>
      rw [Drivers.readlineLoop]
      split
      · exact ⟨_, rfl, fun _ _ hx ↦ nomatch hx⟩
      · exact ⟨_, rfl, hreturned _⟩
  | cons c keys ih =>
      rw [Drivers.readlineLoop, sub32_of_le hmax hmax']
      split
      next hlt =>
        split
        · obtain ⟨vga, hput, _⟩ := h.vga.vgaPutchar 0x0A
          rw [hput]
          refine ⟨_, rfl, ?_⟩
          rintro r' rest ⟨⟩
          exact h.length
        · have hi : r.i < maxLength := Nat.lt_of_lt_of_le hlt (Nat.sub_le _ _)
          obtain ⟨r₁, hkey, h₁⟩ := h.readlineKey hi c
          rw [hkey]
          refine ih h₁ ?_
          rintro keys r' rest ⟨⟩
          exact h₁.length
      next => exact ⟨_, rfl, hreturned _⟩

/-! ## The whole function -/

/-- **`keyboard_readline`** has one of the outcomes of its loop. -/
theorem keyboardReadline_outcome {buffer : List UInt8} {vga : Vga} (hmax : 1 ≤ maxLength)
    (hmax' : maxLength < 2 ^ 32) (h : keyboardReadline buffer maxLength vga keys = some x) :
    (∃ r, x = .waiting r ∧ Outcome (maxLength - 1) [] keys (.waiting r)) ∨
    ∃ r rest, x = .returned { r with buffer := r.buffer.set r.i 0 } rest ∧
      Outcome (maxLength - 1) [] keys (.returned r rest) := by
  simp only [keyboardReadline, Option.bind_eq_bind, Option.bind_eq_some_iff] at h
  obtain ⟨y, hloop, hy⟩ := h
  have hstart : Enters [] ⟨0, buffer, vga⟩ := ⟨rfl, buffer, rfl⟩
  have hout := readlineLoop_outcome hmax hmax' hstart (Nat.zero_le _) hloop
  cases y with
  | waiting r =>
      cases hy
      exact .inl ⟨r, rfl, hout⟩
  | returned r rest =>
      simp only [Readline.store, Option.bind_eq_some_iff, Option.pure_def, Option.some.injEq,
        Option.ite_none_right_eq_some] at hy
      obtain ⟨r', ⟨_, rfl⟩, rfl⟩ := hy
      exact .inr ⟨r, rest, rfl, hout⟩

/-- The line has at most `n` characters when the call returns. -/
theorem Outcome.i_le {rest : List UInt8} (h : Outcome n line keys (.returned r rest)) :
    r.i ≤ n := by
  cases h with
  | newline t _ hkeys hnl hbelow hr =>
      rw [hr.i_eq]
      exact Nat.le_of_lt (hbelow t List.prefix_rfl)
  | full t _ hkeys hnl hfull hr =>
      rw [hr.i_eq]
      exact Nat.le_of_eq hfull

/-- The terminator is written behind the line. -/
theorem keyboardReadline_of_loop {buffer rest : List UInt8} {vga : Vga}
    (hloop : readlineLoop maxLength keys ⟨0, buffer, vga⟩ = some (.returned r rest))
    (hroom : r.i < r.buffer.length) : keyboardReadline buffer maxLength vga keys =
      some (.returned { r with buffer := r.buffer.set r.i 0 } rest) := by
  have hstore : r.store 0 = some { r with buffer := r.buffer.set r.i 0 } := if_pos hroom
  rw [keyboardReadline, hloop]
  change (r.store 0).bind (fun r ↦ some (Reading.returned r rest)) = _
  rw [hstore]
  rfl

/-- **A call has an outcome**: there is no access outside of the buffer or the screen. -/
theorem exists_keyboardReadline {buffer : List UInt8} {vga : Vga} (hmax : 1 ≤ maxLength)
    (hmax' : maxLength < 2 ^ 32) (hbuffer : maxLength ≤ buffer.length) (hvga : OnScreen b₀ vga)
    (keys : List UInt8) : ∃ x, keyboardReadline buffer maxLength vga keys = some x := by
  have hreadable : Readable b₀ maxLength ⟨0, buffer, vga⟩ := ⟨hvga, hbuffer⟩
  obtain ⟨x, hloop, hlength⟩ := hreadable.readlineLoop keys hmax hmax'
  have hstart : Enters [] ⟨0, buffer, vga⟩ := ⟨rfl, buffer, rfl⟩
  have hout := readlineLoop_outcome hmax hmax' hstart (Nat.zero_le _) hloop
  cases x with
  | waiting r =>
      rw [keyboardReadline, hloop]
      exact ⟨_, rfl⟩
  | returned r rest =>
      have hi : r.i < r.buffer.length := by
        have hle : r.i ≤ maxLength - 1 := hout.i_le
        have hlen : maxLength ≤ r.buffer.length := hlength r rest rfl
        omega
      exact ⟨_, keyboardReadline_of_loop hloop hi⟩

/-! ## The line that is returned -/

/-- What is not below `n` is left alone. -/
theorem readlineKey_frame (hi : r.i < n) (h : readlineKey c r = some r') :
    r'.buffer.length = r.buffer.length ∧ r'.buffer.drop n = r.buffer.drop n := by
  rw [readlineKey] at h
  split at h
  · split at h
    · obtain ⟨vga, _, heq⟩ := Option.bind_eq_some_iff.mp h
      obtain rfl := Option.some.inj heq
      exact ⟨rfl, rfl⟩
    · cases h
      exact ⟨rfl, rfl⟩
  · obtain ⟨r₁, hstore, hrest⟩ := Option.bind_eq_some_iff.mp h
    obtain ⟨vga, _, heq⟩ := Option.bind_eq_some_iff.mp hrest
    obtain rfl := Option.some.inj heq
    obtain ⟨_, heq⟩ := Option.ite_none_right_eq_some.mp hstore
    obtain rfl := Option.some.inj heq
    exact ⟨List.length_set, List.drop_set_of_lt hi⟩

theorem readlineLoop_frame {rest : List UInt8} (hmax : 1 ≤ maxLength) (hmax' : maxLength < 2 ^ 32)
    (h : readlineLoop maxLength keys r = some (.returned r' rest)) :
    r'.buffer.length = r.buffer.length ∧ r'.buffer.drop maxLength = r.buffer.drop maxLength := by
  induction keys generalizing r with
  | nil =>
      rw [readlineLoop] at h
      split at h
      · cases h
      · cases h
        exact ⟨rfl, rfl⟩
  | cons c keys ih =>
      rw [readlineLoop, sub32_of_le hmax hmax'] at h
      split at h
      next hlt =>
        split at h
        · obtain ⟨vga, _, heq⟩ := Option.bind_eq_some_iff.mp h
          cases heq
          exact ⟨rfl, rfl⟩
        · obtain ⟨r₁, hkey, hrest⟩ := Option.bind_eq_some_iff.mp h
          have hi : r.i < maxLength := Nat.lt_of_lt_of_le hlt (Nat.sub_le _ _)
          obtain ⟨hlen, hdrop⟩ := readlineKey_frame hi hkey
          obtain ⟨hlen', hdrop'⟩ := ih hrest
          exact ⟨hlen'.trans hlen, hdrop'.trans hdrop⟩
      next =>
        cases h
        exact ⟨rfl, rfl⟩

/-- Some keys are taken, up to a newline or because the buffer is full, and they make the line. -/
theorem Outcome.exists_typed {rest : List UInt8} (h : Outcome n line keys (.returned r rest)) :
    ∃ t consumed, keys = consumed ++ rest ∧ 0x0A ∉ t ∧
      (consumed = t ++ [0x0A] ∨ (consumed = t ∧ (typeChars line t).length = n)) ∧
      Enters (typeChars line t) r := by
  cases h with
  | newline t _ hkeys hnl _ hr =>
      exact ⟨t, t ++ [0x0A], hkeys.trans (List.append_cons ..), hnl, .inl rfl, hr⟩
  | full t _ hkeys hnl hfull hr => exact ⟨t, t, hkeys, hnl, .inr ⟨rfl, hfull⟩, hr⟩

/-- **`keyboard_readline` returns the line that the keys make**, terminated: it has written nothing
at `max_length` or behind that, and `buffer[0..i)` is the stack that is left when the keys it took
(but for the newline at the end, if there is one) are pushed, or popped by a backspace. -/
theorem keyboardReadline_line {buffer : List UInt8} {vga : Vga} (hmax : 1 ≤ maxLength)
    (hmax' : maxLength < 2 ^ 32) (hbuffer : maxLength ≤ buffer.length) (hvga : OnScreen b₀ vga)
    (keys : List UInt8) : ∃ x, keyboardReadline buffer maxLength vga keys = some x ∧
      ∀ r rest, x = .returned r rest →
        r.buffer.length = buffer.length ∧ r.buffer.drop maxLength = buffer.drop maxLength ∧
        r.i ≤ maxLength - 1 ∧ r.buffer[r.i]? = some 0 ∧
        ∃ t consumed, keys = consumed ++ rest ∧ 0x0A ∉ t ∧
          (consumed = t ++ [0x0A] ∨ (consumed = t ∧ r.i = maxLength - 1)) ∧
          r.buffer.take r.i = typeChars [] t := by
  obtain ⟨x, hread⟩ := exists_keyboardReadline hmax hmax' hbuffer hvga keys
  refine ⟨x, hread, ?_⟩
  rintro r' rest rfl
  obtain ⟨y, hloop, hstore⟩ := Option.bind_eq_some_iff.mp hread
  cases y with
  | waiting r => cases hstore
  | returned r rest' =>
      have hstart : Enters [] ⟨0, buffer, vga⟩ := ⟨rfl, buffer, rfl⟩
      have hout := readlineLoop_outcome hmax hmax' hstart (Nat.zero_le _) hloop
      obtain ⟨hlen, hdrop⟩ := readlineLoop_frame hmax hmax' hloop
      have hi : r.i < maxLength := Nat.lt_of_le_of_lt hout.i_le (Nat.sub_lt hmax Nat.one_pos)
      have hroom : r.i < r.buffer.length := by
        rw [hlen]
        exact Nat.lt_of_lt_of_le hi hbuffer
      rw [keyboardReadline_of_loop hloop hroom] at hread
      cases hread
      obtain ⟨t, consumed, hkeys, hnl, hcase, hline⟩ := hout.exists_typed
      obtain ⟨tail, heq⟩ := hline.buffer_eq
      refine ⟨List.length_set.trans hlen, (List.drop_set_of_lt hi).trans hdrop, hout.i_le,
        List.getElem?_set_self hroom, t, consumed, hkeys, hnl, ?_, ?_⟩
      · exact hcase.imp_right fun h ↦ ⟨h.1, hline.i_eq.trans h.2⟩
      · change (r.buffer.set r.i 0).take r.i = _
        rw [List.take_set_of_le (Nat.le_refl _), heq, hline.i_eq, List.take_left]

/-- A backspace that has nothing to take back, and one that does: the call returns the line `ac`
at the newline, and the next key is left. -/
theorem keyboardReadline_line_two : ∃ r,
    keyboardReadline [1, 2, 3, 4, 5] 4 (vgaInit fun _ ↦ 0)
      [0x08, 0x61, 0x62, 0x08, 0x63, 0x0A, 0x78] = some (.returned r [0x78]) ∧
    r.i = 2 ∧ r.buffer = [0x61, 0x63, 0, 4, 5] ∧
    ∃ t, 0x0A ∉ t ∧ [0x08, 0x61, 0x62, 0x08, 0x63, 0x0A, 0x78] = t ++ [0x0A] ++ [0x78] ∧
      r.buffer.take r.i = typeChars [] t := by
  have hroom : 4 ≤ ([1, 2, 3, 4, 5] : List UInt8).length := by decide
  obtain ⟨x, hread, hline⟩ := keyboardReadline_line (by decide) (by decide) hroom
    (onScreen_vgaInit fun _ ↦ 0) [0x08, 0x61, 0x62, 0x08, 0x63, 0x0A, 0x78]
  obtain ⟨r, hreturned, hi, hbuffer⟩ : ∃ r, keyboardReadline [1, 2, 3, 4, 5] 4 (vgaInit fun _ ↦ 0)
      [0x08, 0x61, 0x62, 0x08, 0x63, 0x0A, 0x78] = some (.returned r [0x78]) ∧ r.i = 2 ∧
      r.buffer = [0x61, 0x63, 0, 4, 5] := ⟨_, rfl, rfl, rfl⟩
  obtain ⟨_, _, _, _, t, consumed, hkeys, hnl, hcase, htake⟩ :=
    hline r [0x78] (Option.some.inj (hread.symm.trans hreturned))
  refine ⟨r, hreturned, hi, hbuffer, t, hnl, ?_, htake⟩
  rcases hcase with rfl | ⟨_, hfull⟩
  · exact hkeys
  · cases hi.symm.trans hfull

end KontolOS.Drivers
