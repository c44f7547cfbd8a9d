import KontolOS.Drivers.Cursor
import KontolOS.Drivers.Output
import KontolOS.Drivers.Readline

/-!
# The screen, whatever was sent

What was sent to the ports before has no effect on what the driver does, and so the screen stays in
order also when something else than positions was sent, as `vga_hide_cursor` does.  `Visible` is
what holds then: the cursor is on the screen, the hardware has its place, and the memory behind the
screen is untouched.  Printing keeps it (`Visible.runCalls_emits`), and so does
`keyboard_readline`, which puts out the keys that it takes (`Visible.keyboardReadline`).
-/

namespace KontolOS.Drivers

open KontolOS.Lib KontolOS.Strings

variable {b₀ : Nat → UInt16} {v v' w : Vga} {c : UInt8} {text str : List UInt8} {call : VgaCall}
  {calls : List VgaCall} {outs : List (UInt16 × UInt8)}

/-! ## The ports do not matter -/

theorem poke_outs (index : Nat) (entry : UInt16) (v : Vga) (outs : List (UInt16 × UInt8)) :
    poke index entry { v with outs := outs } =
      (poke index entry v).map fun w ↦ { w with outs := outs } := by
  unfold poke
  split
  · rfl
  · rfl

theorem putcharBranch_outs (c : UInt8) (v : Vga) (outs : List (UInt16 × UInt8)) :
    putcharBranch c { v with outs := outs } =
      (putcharBranch c v).map fun w ↦ { w with outs := outs } := by
  rw [putcharBranch_eq, putcharBranch_eq]
  cases stroke c with
  | newline => rfl
  | carriage => rfl
  | tab => rfl
  | back =>
      dsimp only
      split
      · exact poke_outs _ _ { v with vgaCol := sub32 v.vgaCol 1 } outs
      · rfl
  | put d =>
      dsimp only
      rw [poke_outs]
      cases poke (indexOf v.vgaRow v.vgaCol) (vgaEntry d v.vgaColor) v <;> rfl

theorem putcharScroll_outs (v : Vga) (outs : List (UInt16 × UInt8)) :
    putcharScroll (putcharWrap { v with outs := outs }) =
      (putcharScroll (putcharWrap v)).map fun w ↦ { w with outs := outs } := by
  have hwrap : putcharWrap { v with outs := outs } = { putcharWrap v with outs := outs } := by
    unfold putcharWrap
    dsimp only
    split
    · rfl
    · rfl
  rw [hwrap]
  unfold putcharScroll
  dsimp only
  split
  · rw [vgaScroll_eq, vgaScroll_eq]
    rfl
  · rfl

/-! ## The invariant -/

/-- The screen is in order. -/
structure Visible (b₀ : Nat → UInt16) (v : Vga) : Prop where
  /-- the cursor is in a row of the screen -/
  row_lt : v.vgaRow < vgaHeight
  /-- and in one of its columns -/
  col_lt : v.vgaCol < vgaWidth
  /-- the hardware has the same place -/
  cursor : hardwareCursor v = v.vgaRow * vgaWidth + v.vgaCol
  /-- the memory behind the screen is untouched -/
  beyond : ∀ i, vgaHeight * vgaWidth ≤ i → v.vgaBuffer i = b₀ i

namespace Visible

/-- The screen with what was sent forgotten. -/
theorem onScreen (h : Visible b₀ v) : OnScreen b₀ { v with outs := [] } :=
  ⟨⟨fun _ hpos ↦ (nomatch hpos), h.beyond⟩, h.row_lt, h.col_lt⟩

/-- After `vga_update_cursor`. -/
theorem vgaUpdateCursor (hrow : v.vgaRow < vgaHeight) (hcol : v.vgaCol < vgaWidth)
    (hbeyond : ∀ i, vgaHeight * vgaWidth ≤ i → v.vgaBuffer i = b₀ i) :
    Visible b₀ (vgaUpdateCursor v) :=
  ⟨hrow, hcol, hardwareCursor_vgaUpdateCursor hrow hcol, hbeyond⟩

theorem vgaSetColor (h : Visible b₀ v) (fg bg : UInt8) : Visible b₀ (vgaSetColor fg bg v) :=
  ⟨h.row_lt, h.col_lt, h.cursor, h.beyond⟩

theorem vgaHideCursor (h : Visible b₀ v) : Visible b₀ (vgaHideCursor v) :=
  ⟨h.row_lt, h.col_lt, h.cursor, h.beyond⟩

theorem vgaShowCursor (h : Visible b₀ v) (start stop : UInt8) :
    Visible b₀ (vgaShowCursor start stop v) :=
  ⟨h.row_lt, h.col_lt, h.cursor, h.beyond⟩

theorem vgaSetCursor (h : Visible b₀ v) (row col : Nat) :
    Visible b₀ (vgaSetCursor row col v) := by
  rw [Drivers.vgaSetCursor]
  split
  next hin => exact vgaUpdateCursor hin.1 hin.2 h.beyond
  next => exact h

/-- **`vga_clear`** puts the cursor on the screen, wherever it was. -/
theorem of_vgaClear (hbeyond : ∀ i, vgaHeight * vgaWidth ≤ i → v.vgaBuffer i = b₀ i) :
    ∃ v', Drivers.vgaClear v = some v' ∧ Visible b₀ v' := by
  refine ⟨_, vgaClear_eq v, ?_⟩
  refine vgaUpdateCursor (by decide : 0 < vgaHeight) (by decide : 0 < vgaWidth) fun i hi ↦ ?_
  exact (if_neg (Nat.not_lt.mpr hi)).trans (hbeyond i hi)

theorem vgaClear (h : Visible b₀ v) : ∃ v', vgaClear v = some v' ∧ Visible b₀ v' :=
  of_vgaClear h.beyond

/-- **`vga_putchar`**, whatever was sent before. -/
theorem vgaPutchar (h : Visible b₀ v) (c : UInt8) :
    ∃ v', vgaPutchar c v = some v' ∧ Visible b₀ v' := by
  obtain ⟨s₁, hbranch, h₁, hrow₁⟩ := h.onScreen.putcharBranch c
  obtain ⟨h₂, _, hcol₂⟩ := h₁.putcharWrap hrow₁
  obtain ⟨s₃, hscroll, h₃, hrow₃, hcol₃⟩ := h₂.putcharScroll hcol₂
  have hbranch' := putcharBranch_outs c { v with outs := [] } v.outs
  rw [hbranch] at hbranch'
  have hscroll' := putcharScroll_outs s₁ v.outs
  rw [hscroll] at hscroll'
  exact ⟨_, vgaPutchar_eq hbranch' hscroll', vgaUpdateCursor hrow₃ hcol₃ h₃.beyond⟩

/-! ## Printing -/

theorem putDigits (h : Visible b₀ v) (text : List UInt8) :
    ∃ v', putDigits text v = some v' ∧ Visible b₀ v' ∧ Emits v text v' := by
  induction text generalizing v with
  | nil => exact ⟨v, rfl, h, .nil v⟩
  | cons c text ih =>
      obtain ⟨v₁, hput, h₁⟩ := h.vgaPutchar c
      obtain ⟨v', hrest, h', hemits⟩ := ih h₁
      refine ⟨v', ?_, h', .char hput hemits⟩
      rw [Drivers.putDigits, hput]
      exact hrest

theorem vgaPrint (h : Visible b₀ v) (hstr : Holds str text) :
    ∃ v', vgaPrint str v = some v' ∧ Visible b₀ v' ∧ Emits v text v' := by
  rw [vgaPrint_eq hstr]
  exact h.putDigits text

/-- A call that prints. -/
theorem exec_emits (h : Visible b₀ v) (hcall : call.Prints) :
    ∃ v', call.exec v = some v' ∧ Visible b₀ v' ∧ Emits v call.text v' := by
  cases call with
  | setColor fg bg => exact ⟨_, rfl, h.vgaSetColor fg bg, .color fg bg (.nil _)⟩
  | putchar c =>
      obtain ⟨v₁, hput, h₁⟩ := h.vgaPutchar c
      exact ⟨v₁, hput, h₁, .char hput (.nil _)⟩
  | print str => exact h.vgaPrint (Holds.of_mem hcall)
  | printDec num =>
      obtain ⟨hnonneg, hlt⟩ := hcall
      obtain ⟨n, rfl⟩ := Int.eq_ofNat_of_zero_le hnonneg
      have hlt' : n < 2 ^ 31 := by exact_mod_cast hlt
      change ∃ v', vgaPrintDec n v = some v' ∧ _ ∧ Emits v (decimal n) v'
      rw [vgaPrintDec_eq hlt']
      exact h.putDigits (decimal n)
  | _ => cases hcall

/-- **Calls that print** put out their characters. -/
theorem runCalls_emits (h : Visible b₀ v) (hcalls : ∀ call ∈ calls, call.Prints) :
    ∃ v', runCalls calls v = some v' ∧ Visible b₀ v' ∧ Emits v (printed calls) v' := by
  induction calls generalizing v with
  | nil => exact ⟨v, rfl, h, .nil v⟩
  | cons call calls ih =>
      obtain ⟨v₁, hexec, h₁, hemits⟩ := h.exec_emits (hcalls call List.mem_cons_self)
      obtain ⟨v', hrest, h', hemits'⟩ := ih h₁ fun c hc ↦ hcalls c (List.mem_cons_of_mem _ hc)
      refine ⟨v', ?_, h', hemits.append hemits'⟩
      rw [runCalls, hexec]
      exact hrest

end Visible

/-! ## Reading a line -/

/-- What is put out for some keys, when the line so far is `line`: a backspace only if there is a
character to take back. -/
def echoed (line : List UInt8) : List UInt8 → List UInt8
  | [] => []
  | c :: keys =>
      if c = 0x08 ∧ line = [] then echoed line keys else c :: echoed (typeChar line c) keys

variable {maxLength : Nat} {line keys rest buffer : List UInt8} {r r' : Readline}

/-- A key. -/
theorem Visible.readlineKey (h : Visible b₀ r.vga) (hroom : r.i < r.buffer.length)
    (hr : Enters line r) (c : UInt8) :
    ∃ r', readlineKey c r = some r' ∧ Visible b₀ r'.vga ∧
      r'.buffer.length = r.buffer.length ∧
      ∀ {text v'}, Emits r'.vga text v' →
        Emits r.vga (if c = 0x08 ∧ line = [] then text else c :: text) v' := by
  have hi : r.i = 0 ↔ line = [] := by rw [hr.i_eq, List.length_eq_zero_iff]
  obtain ⟨v₁, hput, h₁⟩ := h.vgaPutchar c
  rw [Drivers.readlineKey]
  by_cases hback : c = 0x08
  · subst hback
    rw [if_pos rfl]
    by_cases hline : line = []
    · rw [if_neg (Nat.not_lt.mpr (Nat.le_of_eq (hi.mpr hline)))]
      refine ⟨r, rfl, h, rfl, fun hemits ↦ ?_⟩
      rwa [if_pos ⟨rfl, hline⟩]
    · rw [if_pos (Nat.pos_of_ne_zero fun hzero ↦ hline (hi.mp hzero)), hput]
      refine ⟨_, rfl, h₁, rfl, fun hemits ↦ ?_⟩
      rw [if_neg fun hnil ↦ hline hnil.2]
      exact .char hput hemits
  · rw [if_neg hback, Readline.store, if_pos hroom, Option.bind_eq_bind, Option.bind_some, hput]
    refine ⟨_, rfl, h₁, List.length_set, fun hemits ↦ ?_⟩
    rw [if_neg fun hnil ↦ hback hnil.1]
    exact .char hput hemits

/-- The loop, with the line so far. -/
theorem Visible.readlineLoop (h : Visible b₀ r.vga) (hmax : 1 ≤ maxLength)
    (hmax' : maxLength < 2 ^ 32) (hlen : maxLength ≤ r.buffer.length) (hr : Enters line r)
    (hline : line.length ≤ maxLength - 1) (keys : List UInt8) :
    ∃ x, readlineLoop maxLength keys r = some x ∧ ∀ r' rest, x = .returned r' rest →
      Visible b₀ r'.vga ∧ r'.buffer.length = r.buffer.length ∧
        ∃ taken, keys = taken ++ rest ∧ Emits r.vga (echoed line taken) r'.vga := by
  have hsub : sub32 maxLength 1 = maxLength - 1 := sub32_of_le hmax hmax'
  induction keys generalizing line r with
  | nil =>
      rw [Drivers.readlineLoop]
      split
      · refine ⟨_, rfl, ?_⟩
        intro _ _ heq
        cases heq
      · refine ⟨_, rfl, fun r' rest heq ↦ ?_⟩
        cases heq
        exact ⟨h, rfl, [], rfl, .nil _⟩
  | cons c keys ih =>
      rw [Drivers.readlineLoop]
      split
      next hi =>
        rw [hsub] at hi
        split
        next hc =>
          obtain ⟨v₁, hput, h₁⟩ := h.vgaPutchar 0x0A
          rw [hput]
          refine ⟨_, rfl, fun r' rest heq ↦ ?_⟩
          cases heq
          refine ⟨h₁, rfl, [c], rfl, ?_⟩
          have hnl : ¬ ((0x0A : UInt8) = 0x08 ∧ line = []) := fun hback ↦ absurd hback.1 (by decide)
          rw [hc, echoed, if_neg hnl, echoed]
          exact .char hput (.nil _)
        next =>
          obtain ⟨r₁, hkey, h₁, hlen₁, hemits₁⟩ := h.readlineKey (by omega) hr c
          have hlt : line.length < maxLength - 1 := hr.i_eq ▸ hi
          have hline₁ : (typeChar line c).length ≤ maxLength - 1 :=
            Nat.le_trans (length_typeChar_le line c) hlt
          obtain ⟨x, hloop, hx⟩ :=
            ih h₁ (hlen₁ ▸ hlen) (hr.readlineKey (by omega) hkey) hline₁
          rw [hkey]
          refine ⟨x, hloop, fun r' rest heq ↦ ?_⟩
          obtain ⟨h', hlen', taken, rfl, hemits⟩ := hx r' rest heq
          refine ⟨h', hlen'.trans hlen₁, c :: taken, rfl, ?_⟩
          rw [echoed]
          split
          next hnil =>
            have hfirst := hemits₁ hemits
            rw [if_pos hnil, hnil.1, hnil.2] at hfirst
            rwa [hnil.2]
          next hnil =>
            have hfirst := hemits₁ hemits
            rwa [if_neg hnil] at hfirst
      next =>
        refine ⟨_, rfl, fun r' rest heq ↦ ?_⟩
        cases heq
        exact ⟨h, rfl, [], rfl, .nil _⟩

/-- **`keyboard_readline`** puts out the keys that it takes. -/
theorem Visible.keyboardReadline (h : Visible b₀ v) (hmax : 1 ≤ maxLength)
    (hmax' : maxLength < 2 ^ 32) (hlen : maxLength ≤ buffer.length) (keys : List UInt8) :
    ∃ x, keyboardReadline buffer maxLength v keys = some x ∧ ∀ r rest, x = .returned r rest →
      Visible b₀ r.vga ∧ r.buffer.length = buffer.length ∧
        ∃ taken, keys = taken ++ rest ∧ Emits v (echoed [] taken) r.vga := by
  have hr : Enters [] ⟨0, buffer, v⟩ := ⟨rfl, buffer, rfl⟩
  obtain ⟨x, hloop, hx⟩ := Visible.readlineLoop (r := ⟨0, buffer, v⟩) h hmax hmax' hlen hr
    (Nat.zero_le _) keys
  rw [Drivers.keyboardReadline, hloop, Option.bind_eq_bind, Option.bind_some]
  cases x with
  | waiting r =>
      refine ⟨_, rfl, ?_⟩
      intro _ _ heq
      cases heq
  | returned r rest =>
      obtain ⟨h', hlen', taken, hkeys, hemits⟩ := hx r rest rfl
      have hi : r.i ≤ maxLength - 1 :=
        (readlineLoop_outcome hmax hmax' hr (Nat.zero_le _) hloop).i_le
      have hroom : r.i < r.buffer.length := by
        rw [hlen']
        change r.i < buffer.length
        omega
      refine ⟨.returned { r with buffer := r.buffer.set r.i 0 } rest, ?_, ?_⟩
      · dsimp only
        rw [Readline.store, if_pos hroom]
        rfl
      · intro r' rest' heq
        cases heq
        exact ⟨h', List.length_set.trans hlen', taken, hkeys, hemits⟩

end KontolOS.Drivers
