import KontolOS.Drivers.Keyboard
import KontolOS.Lib.Run

/-!
# The keyboard buffer is a queue

Whatever the order in which interrupts and the steps of the main program come, the characters
that `buffer_put` has accepted are those that the main program has got, followed by those that
are still in the buffer (`run_fifo`).  An interrupt may come between the steps of
`keyboard_getchar`: it adds to the end of the buffer, and leaves alone the character that the
main program has found, or read, at its beginning.
-/

namespace KontolOS.Drivers

open KontolOS.Lib Function

/-! ## The buffer -/

/-- The buffer as a ring. -/
def Keyboard.ring (k : Keyboard) : Ring keyboardBufferSize UInt8 :=
  ⟨k.keyboardBuffer, k.bufferStart, k.bufferEnd⟩

/-- The characters in the buffer. -/
def Keyboard.pending (k : Keyboard) : List UInt8 := k.ring.contents

variable {k : Keyboard} {c data : UInt8}

theorem ring_bufferPut (k : Keyboard) (c : UInt8) : (bufferPut k c).ring = k.ring.put c := by
  by_cases hfull : Ring.next k.bufferEnd = k.bufferStart
  · rw [bufferPut, if_neg (not_not.mpr hfull)]
    exact (Ring.put_of_eq hfull).symm
  · rw [bufferPut, if_pos hfull]
    exact (if_pos hfull).symm

theorem length_pending_lt (k : Keyboard) : k.pending.length < keyboardBufferSize := by
  rw [Keyboard.pending, Ring.length_contents]
  exact k.ring.count_lt

theorem keyboardHasKey_iff : keyboardHasKey k = true ↔ k.pending ≠ [] := by
  rw [keyboardHasKey, bne_iff_ne, Keyboard.pending, ne_eq, ne_eq, Ring.contents_eq_nil_iff]
  exact Iff.rfl

/-- **`buffer_put`** accepts a character and appends it, or drops it if the buffer is full. -/
theorem bufferPut_cases (k : Keyboard) (c : UInt8) :
    (accepts k c = true ∧ (bufferPut k c).pending = k.pending ++ [c]) ∨
    (accepts k c = false ∧ bufferPut k c = k ∧ k.pending.length = keyboardBufferSize - 1) := by
  by_cases hfull : Ring.next k.bufferEnd = k.bufferStart
  · have hput : bufferPut k c = k := if_neg (not_not.mpr hfull)
    refine .inr ⟨?_, hput, Ring.next_stop_eq_iff.mp hfull⟩
    rw [accepts, hput, bne_self_eq_false]
  · refine .inl ⟨?_, ?_⟩
    · have hput : (bufferPut k c).bufferEnd = Ring.next k.bufferEnd := by
        rw [bufferPut]
        exact congrArg Keyboard.bufferEnd (if_pos hfull)
      rw [accepts, hput, bne_iff_ne]
      exact Ring.next_ne (by decide) _
    · rw [Keyboard.pending, ring_bufferPut]
      exact Ring.contents_put hfull

/-! ## The handler -/

theorem keyboardHandler_eq (k : Keyboard) (data : UInt8) : keyboardHandler k data =
    (keyboardDecode k data).2.elim (keyboardDecode k data).1
      (bufferPut (keyboardDecode k data).1) := rfl

/-- Decoding a scancode does not touch the buffer. -/
theorem ring_keyboardDecode (k : Keyboard) (data : UInt8) :
    (keyboardDecode k data).1.ring = k.ring := by
  simp only [keyboardDecode]
  repeat' split
  all_goals rfl

/-- The handler never puts a NUL. -/
theorem ne_zero_of_keyChar {scancode : UInt8} (h : keyChar k scancode = some c) : c ≠ 0 := by
  unfold keyChar at h
  split at h
  · simp only [Option.ite_none_right_eq_some, Option.some.injEq] at h
    rw [← h.2]
    exact h.1
  · cases h

theorem ne_zero_of_keyboardDecode (h : (keyboardDecode k data).2 = some c) : c ≠ 0 := by
  simp only [keyboardDecode] at h
  repeat' split at h
  all_goals first | exact ne_zero_of_keyChar h | cases h

/-- **What an interrupt does to the buffer**: nothing; or it appends a character; or it drops one,
as the buffer is full. -/
theorem keyboardHandler_cases (k : Keyboard) (data : UInt8) :
    (offered k data = none ∧ (keyboardHandler k data).pending = k.pending) ∨
    (∃ c, offered k data = some (c, true) ∧ c ≠ 0 ∧
      (keyboardHandler k data).pending = k.pending ++ [c]) ∨
    (∃ c, offered k data = some (c, false) ∧ (keyboardHandler k data).pending = k.pending ∧
      k.pending.length = keyboardBufferSize - 1) := by
  have hring : (keyboardDecode k data).1.pending = k.pending :=
    congrArg Ring.contents (ring_keyboardDecode k data)
  rw [keyboardHandler_eq, offered]
  cases hc : (keyboardDecode k data).2 with
  | none => exact .inl ⟨rfl, hring⟩
  | some c =>
      rw [← hring]
      rcases bufferPut_cases (keyboardDecode k data).1 c with ⟨hacc, hput⟩ | ⟨hacc, hput, hfull⟩
      · refine .inr (.inl ⟨c, ?_, ne_zero_of_keyboardDecode hc, hput⟩)
        rw [Option.map_some, hacc]
      · refine .inr (.inr ⟨c, ?_, congrArg Keyboard.pending hput, hfull⟩)
        rw [Option.map_some, hacc]

/-! ## Histories -/

/-- The characters that `buffer_put` has accepted. -/
def accepted (as : List KeyEvent) : List UInt8 :=
  as.filterMap fun a ↦ match a with
    | .irq _ (some (c, true)) => some c
    | _ => none

/-- The characters that the main program has got. -/
def returned (as : List KeyEvent) : List UInt8 :=
  as.filterMap fun a ↦ match a with
    | .step (.char c) => some c
    | _ => none

theorem accepted_concat (as : List KeyEvent) (a : KeyEvent) :
    accepted (as ++ [a]) = accepted as ++ accepted [a] := List.filterMap_append

theorem returned_concat (as : List KeyEvent) (a : KeyEvent) :
    returned (as ++ [a]) = returned as ++ returned [a] := List.filterMap_append

/-- What the main program knows about the buffer. -/
def ReaderOk (pending : List UInt8) : Reader → Prop
  | .idle | .test _ => True
  | .read => pending ≠ []
  | .advance c => pending.head? = some c

/-- What the main program knows stays true when characters are added. -/
theorem ReaderOk.append {pending : List UInt8} {r : Reader} (h : ReaderOk pending r)
    (cs : List UInt8) : ReaderOk (pending ++ cs) r := by
  cases r with
  | idle => trivial
  | test blocking => trivial
  | read => exact List.append_ne_nil_of_left_ne_nil h cs
  | advance c => exact List.mem_head?_append_of_mem_head? h

/-- **The invariant of the buffer.** -/
structure Fifo (as : List KeyEvent) (x : Keys) : Prop where
  /-- what was accepted was returned, or is in the buffer -/
  split : accepted as = returned as ++ x.keyboard.pending
  /-- the buffer holds no NUL -/
  nonzero : ∀ c ∈ x.keyboard.pending, c ≠ 0
  /-- the main program is right about the buffer -/
  reader : ReaderOk x.keyboard.pending x.reader

variable {as : List KeyEvent} {x y : Keys}

/-- An interrupt. -/
theorem Fifo.irq (h : Fifo as x) {put : Option (UInt8 × Bool)}
    (hstep : KeyStep x (.irq data put) y) : Fifo (as ++ [.irq data put]) y := by
  obtain ⟨hput, rfl⟩ := hstep
  -- without a character the history does not change, and neither does the buffer
  have hquiet : accepted [.irq data put] = [] →
      (keyboardHandler x.keyboard data).pending = x.keyboard.pending →
      Fifo (as ++ [.irq data put]) { x with keyboard := keyboardHandler x.keyboard data } := by
    intro hnone hsame
    refine ⟨?_, ?_, ?_⟩
    · rw [accepted_concat, returned_concat, hnone, hsame, h.split, List.append_nil]
      exact (congrArg (· ++ _) (List.append_nil _)).symm
    · rw [hsame]
      exact h.nonzero
    · rw [hsame]
      exact h.reader
  rcases keyboardHandler_cases x.keyboard data with
    ⟨hoff, hsame⟩ | ⟨c, hoff, hc, hnew⟩ | ⟨c, hoff, hsame, _⟩
  · apply hquiet _ hsame
    rw [hput, hoff]
    rfl
  · refine ⟨?_, ?_, ?_⟩
    · rw [accepted_concat, returned_concat, hnew, hput, hoff, h.split, List.append_assoc]
      exact (congrArg (· ++ _) (List.append_nil _)).symm
    · rw [hnew]
      intro d hd
      rcases List.mem_append.mp hd with hd | hd
      · exact h.nonzero d hd
      · rw [List.mem_singleton.mp hd]
        exact hc
    · rw [hnew]
      exact h.reader.append [c]
  · apply hquiet _ hsame
    rw [hput, hoff]
    rfl

/-- A step of the main program. -/
theorem Fifo.getchar (h : Fifo as x) {r : Returned} (hstep : KeyStep x (.step r) y) :
    Fifo (as ++ [.step r]) y := by
  obtain ⟨kx, rx⟩ := x
  obtain ⟨ky, ry⟩ := y
  obtain ⟨hsplit, hnonzero, hreader⟩ := h
  change getcharStep kx rx = some (r, ky, ry) at hstep
  have hquiet : ∀ r', returned [.step r'] = [] → ky = kx → r = r' → ReaderOk kx.pending ry →
      Fifo (as ++ [.step r]) ⟨ky, ry⟩ := by
    rintro r' hr' rfl rfl hreader'
    refine ⟨?_, hnonzero, hreader'⟩
    rw [accepted_concat, returned_concat, hr', hsplit]
    simp [accepted]
  cases rx with
  | idle => cases hstep
  | test blocking =>
      rw [getcharStep] at hstep
      by_cases hkey : keyboardHasKey kx = true
      · rw [if_pos hkey] at hstep
        cases hstep
        exact hquiet .running rfl rfl rfl (keyboardHasKey_iff.mp hkey)
      · rw [if_neg hkey] at hstep
        cases blocking with
        | true =>
            cases hstep
            exact hquiet .running rfl rfl rfl trivial
        | false =>
            cases hstep
            exact hquiet .noKey rfl rfl rfl trivial
  | read =>
      cases hstep
      refine hquiet .running rfl rfl rfl ?_
      have hne : kx.ring.start ≠ kx.ring.stop := fun heq ↦
        hreader (Ring.contents_eq_nil_iff.mpr heq)
      change (Ring.contents _).head? = _
      rw [Ring.contents_of_ne hne]
      rfl
  | advance c =>
      cases hstep
      have hne : kx.ring.start ≠ kx.ring.stop := by
        intro heq
        have hhead : kx.pending.head? = some c := hreader
        rw [Keyboard.pending, Ring.contents_eq_nil_iff.mpr heq] at hhead
        cases hhead
      have hpending : kx.pending = c :: kx.ring.advance.contents := by
        have hcons := Ring.contents_of_ne hne
        have hhead : kx.pending.head? = some c := hreader
        rw [Keyboard.pending, hcons, List.head?_cons, Option.some.injEq] at hhead
        rw [Keyboard.pending, hcons, hhead]
      refine ⟨?_, fun d hd ↦ hnonzero d ?_, trivial⟩
      · rw [accepted_concat, returned_concat, hsplit, hpending]
        change _ ++ [] = returned as ++ [c] ++ kx.ring.advance.contents
        rw [List.append_nil, List.append_assoc]
        rfl
      · rw [hpending]
        exact List.mem_cons_of_mem c hd

/-- **The step lemma of the keyboard.** -/
theorem Fifo.step (h : Fifo as x) {a : KeyEvent} (hstep : KeyStep x a y) : Fifo (as ++ [a]) y := by
  cases a with
  | irq data put => exact h.irq hstep
  | step r => exact h.getchar hstep
  | call blocking =>
      obtain ⟨_, rfl⟩ := hstep
      refine ⟨?_, h.nonzero, trivial⟩
      rw [accepted_concat, returned_concat, h.split]
      simp [accepted, returned]

/-- The driver right after `keyboard_init`. -/
def Started (x : Keys) : Prop := ∃ k, x = ⟨keyboardInit k, .idle⟩

theorem Started.fifo (h : Started x) : Fifo [] x := by
  obtain ⟨k, rfl⟩ := h
  have hnil : (keyboardInit k).pending = [] := Ring.contents_eq_nil_iff.mpr rfl
  refine ⟨?_, ?_, trivial⟩
  · rw [hnil]
    rfl
  · rw [hnil]
    exact fun c hc ↦ absurd hc List.not_mem_nil

/-- **The buffer is a queue without loss.**  In every run from `keyboard_init`, what the main
program has got is a prefix of what was accepted, and the rest of it, at most 255 characters, is
in the buffer.  A character is dropped only if there are 255 of them, and a function returns 0
only if there are none. -/
theorem run_fifo {x₀ : Keys} (h₀ : Started x₀) (hr : Run KeyStep x₀ as x) :
    returned as <+: accepted as ∧ accepted as = returned as ++ x.keyboard.pending ∧
      (accepted as).length ≤ (returned as).length + 255 ∧
      (∀ data c y, KeyStep x (.irq data (some (c, false))) y →
        (accepted as).length = (returned as).length + 255) ∧
      (∀ r y, KeyStep x (.step r) y → r.value = some 0 → x.keyboard.pending = []) := by
  have h : Fifo as x := hr.trace_invariant (I := Fifo) (fun h hs ↦ h.step hs) h₀.fifo
  have hlen : (accepted as).length = (returned as).length + x.keyboard.pending.length := by
    rw [h.split, List.length_append]
  refine ⟨⟨_, h.split.symm⟩, h.split, ?_, ?_, ?_⟩
  · rw [hlen]
    exact Nat.add_le_add_left (Nat.le_of_lt_succ (length_pending_lt _)) _
  · rintro data c y ⟨hput, _⟩
    rcases keyboardHandler_cases x.keyboard data with
      ⟨hoff, _⟩ | ⟨d, hoff, _⟩ | ⟨d, _, _, hfull⟩
    · rw [hoff] at hput
      cases hput
    · rw [hoff] at hput
      cases hput
    · rw [hlen, hfull]
      rfl
  · rintro r ⟨ky, ry⟩ hstep hzero
    obtain ⟨kx, rx⟩ := x
    change getcharStep kx rx = some (r, ky, ry) at hstep
    cases rx with
    | idle => cases hstep
    | test blocking =>
        rw [getcharStep] at hstep
        by_cases hkey : keyboardHasKey kx = true
        · rw [if_pos hkey] at hstep
          cases hstep
          cases hzero
        · exact not_not.mp fun hne ↦ hkey (keyboardHasKey_iff.mpr hne)
    | read =>
        cases hstep
        cases hzero
    | advance c =>
        cases hstep
        have hhead : kx.pending.head? = some c := h.reader
        cases hzero
        exact absurd rfl (h.nonzero 0 (List.mem_of_head? hhead))

/-- The key A is pressed right after `keyboard_init`, while caps lock is on, and the main program
gets its character. -/
theorem run_fifo_press : ∃ x y, Started x ∧ Run KeyStep x
      [.irq 0x1E (some (0x41, true)), .call false, .step .running, .step .running,
        .step (.char 0x41)] y ∧ [0x41] = [0x41] ++ y.keyboard.pending := by
  let k : Keyboard := ⟨fun _ ↦ 0x3F, ⟨7, by decide⟩, ⟨3, by decide⟩, false, false, false, true⟩
  let k₁ : Keyboard := keyboardHandler (keyboardInit k) 0x1E
  have h₁ : KeyStep ⟨keyboardInit k, .idle⟩ (.irq 0x1E (some (0x41, true))) ⟨k₁, .idle⟩ :=
    ⟨rfl, rfl⟩
  have h₂ : KeyStep ⟨k₁, .idle⟩ (.call false) ⟨k₁, .test false⟩ := ⟨rfl, rfl⟩
  have h₃ : KeyStep ⟨k₁, .test false⟩ (.step .running) ⟨k₁, .read⟩ := rfl
  have h₄ : KeyStep ⟨k₁, .read⟩ (.step .running) ⟨k₁, .advance 0x41⟩ := rfl
  have h₅ : KeyStep ⟨k₁, .advance 0x41⟩ (.step (.char 0x41))
      ⟨{ k₁ with bufferStart := Ring.next k₁.bufferStart }, .idle⟩ := rfl
  have hrun := Run.cons h₁ (.cons h₂ (.cons h₃ (.cons h₄ (.single h₅))))
  exact ⟨_, _, ⟨k, rfl⟩, hrun, (run_fifo ⟨k, rfl⟩ hrun).2.1⟩

end KontolOS.Drivers
