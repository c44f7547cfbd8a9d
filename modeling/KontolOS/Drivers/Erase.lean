import KontolOS.Drivers.Cursor
import KontolOS.Drivers.Readline

/-!
# Erasing what was echoed

`keyboard_readline` echoes each character, and a backspace takes the last one out of the buffer
and sends a backspace to the screen, too.  There it blanks the place in front of the cursor, but
only within the row: a character that was echoed in the last column has the cursor wrapped to the
next row, from which no backspace leads back.  As long as no line is erased at such a point, each
backspace blanks what was echoed for the character that it takes back (`erases_iff`).

`Echo` keeps, beside the state of `keyboard_readline`, where on the screen the characters of the
line were echoed.  A scroll moves these places up, possibly beyond the screen.
-/

namespace KontolOS.Drivers

open KontolOS.Lib Function

/-! ## Where the characters were echoed -/

/-- The place of the cursor. -/
def Vga.place (v : Vga) : Nat := v.vgaRow * vgaWidth + v.vgaCol

/-- `vga_putchar` scrolls at this character. -/
def scrolls (c : UInt8) (v : Vga) : Bool :=
  (putcharBranch c v).any fun t ↦ vgaHeight ≤ (putcharWrap t).vgaRow

/-- `keyboard_readline`, and the places where the characters in its buffer were echoed. -/
structure Echo where
  /-- its variables, and the screen -/
  r : Readline
  /-- where the characters are, those that were scrolled away above the screen -/
  places : List Int

/-- A key: the places follow the line, and move with the rows. -/
def echoKey (e : Echo) (c : UInt8) : Option Echo := do
  let r ← readlineKey c e.r
  let places := if c = 0x08 then e.places.dropLast else e.places ++ [(e.r.vga.place : Int)]
  return ⟨r, if scrolls c e.r.vga then places.map (· - vgaWidth) else places⟩

/-- Before any key is pressed. -/
def Echo.start (buffer : List UInt8) (v : Vga) : Echo := ⟨⟨0, buffer, v⟩, []⟩

/-- **A backspace after the keys `p` erases the last character**: the place where it was echoed is
on the screen, is blank afterwards, and has the cursor. -/
def Erases (maxLength : Nat) (buffer : List UInt8) (v : Vga) (p : List UInt8) : Prop :=
  ∃ e e' : Echo, p.foldlM echoKey (.start buffer v) = some e ∧
    (p ++ [0x08]).foldlM echoKey (.start buffer v) = some e' ∧
    readlineLoop maxLength p ⟨0, buffer, v⟩ = some (.waiting e.r) ∧
    readlineLoop maxLength (p ++ [0x08]) ⟨0, buffer, v⟩ = some (.waiting e'.r) ∧
    ∃ t : Nat, e.places.getLast? = some (t : Int) ∧ charAt e'.r.vga t = 0x20 ∧
      e'.r.vga.place = t ∧ hardwareCursor e'.r.vga = t

variable {b₀ : Nat → UInt16} {v : Vga} {c : UInt8} {maxLength : Nat}
  {buffer line keys p : List UInt8} {e : Echo} {r r' : Readline}

/-! ## What a character does to the cursor -/

/-- The line wrap does not move the cursor: the place behind a row is the first of the next. -/
theorem putcharWrap_place {t : Vga} (hrow : t.vgaRow < vgaHeight) (hcol : t.vgaCol ≤ vgaWidth) :
    (putcharWrap t).place = t.place ∧ (putcharWrap t).vgaCol = t.vgaCol % vgaWidth ∧
      (putcharWrap t).vgaRow ≤ vgaHeight := by
  change t.vgaRow < 25 at hrow
  change t.vgaCol ≤ 80 at hcol
  rw [putcharWrap]
  split
  next hwide =>
    change 80 ≤ t.vgaCol at hwide
    rw [add32_of_lt (by omega)]
    change (t.vgaRow + 1) * 80 + 0 = t.vgaRow * 80 + t.vgaCol ∧ 0 = t.vgaCol % 80 ∧
      t.vgaRow + 1 ≤ 25
    omega
  next hwide =>
    exact ⟨rfl, (Nat.mod_eq_of_lt (Nat.not_le.mp hwide)).symm, Nat.le_of_lt hrow⟩

/-- A scroll moves the cursor up by a row. -/
theorem putcharScroll_place {t : Vga} (hrow : t.vgaRow ≤ vgaHeight) :
    ∃ t', putcharScroll t = some t' ∧ t'.vgaCol = t.vgaCol ∧
      t'.place + (if vgaHeight ≤ t.vgaRow then vgaWidth else 0) = t.place := by
  rw [putcharScroll]
  split
  next hlow =>
    refine ⟨_, vgaScroll_eq t, rfl, ?_⟩
    change t.vgaRow ≤ 25 at hrow
    change 25 ≤ t.vgaRow at hlow
    change 24 * 80 + t.vgaCol + 80 = t.vgaRow * 80 + t.vgaCol
    omega
  next => exact ⟨t, rfl, rfl, rfl⟩

/-- Where the cursor is after a character, by what the character itself does. -/
theorem vgaPutchar_place {t : Vga} (hbranch : putcharBranch c v = some t)
    (hrow : t.vgaRow < vgaHeight) (hcol : t.vgaCol ≤ vgaWidth) :
    ∃ v', vgaPutchar c v = some v' ∧ v'.vgaCol = t.vgaCol % vgaWidth ∧
      v'.place + (if scrolls c v then vgaWidth else 0) = t.place := by
  obtain ⟨hplace, hcol', hrow'⟩ := putcharWrap_place hrow hcol
  obtain ⟨t', hscroll, hcol'', hplace'⟩ := putcharScroll_place hrow'
  refine ⟨_, vgaPutchar_eq hbranch hscroll, hcol''.trans hcol', ?_⟩
  rw [scrolls, hbranch, Option.any_some, ← hplace, ← hplace']
  simp only [decide_eq_true_eq]
  rfl

/-- There is no wrap and no scroll if the character leaves the cursor on the screen. -/
theorem vgaPutchar_stay {t : Vga} (hbranch : putcharBranch c v = some t)
    (hrow : t.vgaRow < vgaHeight) (hcol : t.vgaCol < vgaWidth) :
    vgaPutchar c v = some (vgaUpdateCursor t) ∧ scrolls c v = false := by
  have hwrap : putcharWrap t = t := if_neg (Nat.not_le.mpr hcol)
  have hlow : ¬ vgaHeight ≤ t.vgaRow := Nat.not_le.mpr hrow
  refine ⟨vgaPutchar_eq hbranch ((congrArg putcharScroll hwrap).trans (if_neg hlow)), ?_⟩
  rw [scrolls, hbranch, Option.any_some, hwrap]
  exact decide_eq_false hlow

/-- A character that is put on the screen moves the cursor on by one place, which may be in a row
that moves up. -/
theorem vgaPutchar_put (h : OnScreen b₀ v) (hc : Ordinary c) :
    ∃ v', vgaPutchar c v = some v' ∧ v'.vgaCol = (v.vgaCol + 1) % vgaWidth ∧
      v'.place + (if scrolls c v then vgaWidth else 0) = v.place + 1 := by
  exact vgaPutchar_place (putcharBranch_put hc h.row_lt h.col_lt) h.row_lt h.col_lt

/-- A backspace that is not in the first column blanks the place in front of the cursor. -/
theorem vgaPutchar_back (h : OnScreen b₀ v) (hcol : v.vgaCol ≠ 0) :
    ∃ v', vgaPutchar 0x08 v = some v' ∧ scrolls 0x08 v = false ∧ v'.vgaCol + 1 = v.vgaCol ∧
      v'.place + 1 = v.place ∧ charAt v' v'.place = 0x20 ∧ hardwareCursor v' = v'.place := by
  have hlt : v.vgaCol - 1 < vgaWidth := Nat.lt_of_le_of_lt (Nat.sub_le _ _) h.col_lt
  have hbranch : putcharBranch 0x08 v = some _ := putcharBranch_back rfl h.row_lt h.col_lt hcol
  obtain ⟨hput, hstay⟩ := vgaPutchar_stay hbranch h.row_lt hlt
  refine ⟨_, hput, hstay, ?_, ?_, ?_, hardwareCursor_vgaUpdateCursor h.row_lt hlt⟩
  · exact Nat.sub_one_add_one hcol
  · change v.vgaRow * vgaWidth + (v.vgaCol - 1) + 1 = v.vgaRow * vgaWidth + v.vgaCol
    rw [Nat.add_assoc, Nat.sub_one_add_one hcol]
  · exact (congrArg UInt16.toUInt8 (update_self ..)).trans (toUInt8_vgaEntry _ _)

/-- In the first column it leaves the cursor where it is. -/
theorem vgaPutchar_first (h : OnScreen b₀ v) (hcol : v.vgaCol = 0) :
    ∃ v', vgaPutchar 0x08 v = some v' ∧ v'.place = v.place := by
  have hbranch : putcharBranch 0x08 v = some v := putcharBranch_first rfl hcol
  exact ⟨_, (vgaPutchar_stay hbranch h.row_lt h.col_lt).1, rfl⟩

/-! ## Keys -/

/-- The `n` places in front of `t`. -/
def placesTo : Nat → Int → List Int
  | 0, _ => []
  | n + 1, t => placesTo n (t - 1) ++ [t - 1]

theorem map_placesTo (n : Nat) (t d : Int) :
    (placesTo n t).map (· - d) = placesTo n (t - d) := by
  induction n generalizing t with
  | zero => rfl
  | succ n ih =>
      rw [placesTo, placesTo, List.map_append, ih, List.map_singleton, sub_right_comm]

/-- **The places are those in front of the cursor**, one for each character of the line. -/
structure InStep (b₀ : Nat → UInt16) (maxLength c₀ : Nat) (line : List UInt8) (e : Echo) :
    Prop where
  /-- the screen and the buffer are in order -/
  readable : Readable b₀ maxLength e.r
  /-- the line is in the buffer -/
  enters : Enters line e.r
  /-- the column, for a line that began in the column `c₀` -/
  col : e.r.vga.vgaCol = (c₀ + line.length) % vgaWidth
  /-- the places -/
  places : e.places = placesTo line.length e.r.vga.place

theorem readlineKey_put {v' : Vga} (hback : c ≠ 0x08) (hroom : r.i < r.buffer.length)
    (hput : vgaPutchar c r.vga = some v') :
    readlineKey c r = some ⟨add32 r.i 1, r.buffer.set r.i c, v'⟩ := by
  rw [readlineKey, if_neg hback, Readline.store, if_pos hroom]
  exact (congrArg (Option.bind · _) hput).trans rfl

theorem readlineKey_back {v' : Vga} (hi : 0 < r.i) (hput : vgaPutchar 0x08 r.vga = some v') :
    readlineKey 0x08 r = some ⟨sub32 r.i 1, r.buffer, v'⟩ := by
  rw [readlineKey, if_pos rfl, if_pos hi]
  exact (congrArg (Option.bind · _) hput).trans rfl

/-- A character is echoed. -/
theorem InStep.put {c₀ : Nat} (h : InStep b₀ maxLength c₀ line e) (hc : Ordinary c)
    (hlen : line.length < maxLength) (hmax : maxLength < 2 ^ 32) :
    ∃ e', echoKey e c = some e' ∧ readlineKey c e.r = some e'.r ∧
      InStep b₀ maxLength c₀ (line ++ [c]) e' := by
  have hback : c ≠ 0x08 := (ordinary_iff.mp hc).2.2.2
  have hi : e.r.i < maxLength := h.enters.i_eq ▸ hlen
  obtain ⟨v', hput, hcol, hplace⟩ := vgaPutchar_put h.readable.vga hc
  have hkey := readlineKey_put hback (Nat.lt_of_lt_of_le hi h.readable.length) hput
  have henters := h.enters.readlineKey (by omega) hkey
  rw [typeChar, if_neg hback] at henters
  obtain ⟨r', hkey', hr'⟩ := h.readable.readlineKey hi c
  obtain rfl : _ = r' := Option.some.inj (hkey.symm.trans hkey')
  have hlength : (line ++ [c]).length = line.length + 1 := List.length_append
  refine ⟨_, by rw [echoKey, hkey]; rfl, hkey, hr', henters, ?_, ?_⟩
  · rw [hlength, ← Nat.add_assoc]
    change v'.vgaCol = _
    rw [hcol, h.col, Nat.mod_add_mod]
  · -- the new place is the one that the cursor had, and all move up with their rows
    have hshift (d : Int) (hd : (v'.place : Int) + d = e.r.vga.place + 1) :
        (e.places ++ [(e.r.vga.place : Int)]).map (· - d) =
          placesTo (line ++ [c]).length v'.place := by
      have hsub : (e.r.vga.place : Int) - d = v'.place - 1 := by omega
      rw [h.places, hlength, placesTo, List.map_append, map_placesTo, List.map_singleton, hsub]
    simp only [if_neg hback]
    split at hplace
    next hscroll =>
      rw [if_pos hscroll]
      exact hshift vgaWidth (by exact_mod_cast hplace)
    next hscroll =>
      rw [if_neg hscroll, ← hshift 0 (by exact_mod_cast hplace)]
      simp

/-- A backspace on an empty line does nothing. -/
theorem InStep.back_nil {c₀ : Nat} (h : InStep b₀ maxLength c₀ [] e) :
    echoKey e 0x08 = some e ∧ readlineKey 0x08 e.r = some e.r := by
  have hi : ¬ 0 < e.r.i := by
    rw [h.enters.i_eq]
    exact Nat.lt_irrefl 0
  have hkey : readlineKey 0x08 e.r = some e.r := by
    rw [readlineKey, if_pos rfl, if_neg hi]
  have hplaces : e.places = [] := h.places
  refine ⟨?_, hkey⟩
  have hempty : (if (0x08 : UInt8) = 0x08 then e.places.dropLast
      else e.places ++ [(e.r.vga.place : Int)]) = [] := by
    rw [if_pos rfl, hplaces]
    rfl
  rw [echoKey, hkey]
  change some (Echo.mk e.r (if scrolls 0x08 e.r.vga then _ else _)) = some e
  rw [hempty, List.map_nil, ite_self, ← hplaces]

/-- The last place is the one in front of the cursor. -/
theorem InStep.places_eq {c₀ : Nat} (h : InStep b₀ maxLength c₀ line e) (hline : line ≠ []) :
    e.places = placesTo line.dropLast.length ((e.r.vga.place : Int) - 1) ++
      [(e.r.vga.place : Int) - 1] := by
  have hlen : line.length = line.dropLast.length + 1 := by
    rw [List.length_dropLast, Nat.sub_one_add_one (List.length_pos_iff.mpr hline).ne']
  rw [h.places, hlen]
  rfl

/-- **A backspace erases the last character**, if the cursor is not in the first column. -/
theorem InStep.back {c₀ : Nat} (h : InStep b₀ maxLength c₀ line e) (hline : line ≠ [])
    (hcol : e.r.vga.vgaCol ≠ 0) (hlen : line.length < maxLength) (hmax : maxLength < 2 ^ 32) :
    ∃ e', echoKey e 0x08 = some e' ∧ readlineKey 0x08 e.r = some e'.r ∧
      InStep b₀ maxLength c₀ line.dropLast e' ∧ e.places.getLast? = some (e'.r.vga.place : Int) ∧
      charAt e'.r.vga e'.r.vga.place = 0x20 ∧ hardwareCursor e'.r.vga = e'.r.vga.place := by
  have hi : 0 < e.r.i := by
    rw [h.enters.i_eq]
    exact List.length_pos_iff.mpr hline
  obtain ⟨v', hput, hstay, hcol', hplace, hchar, hcursor⟩ := vgaPutchar_back h.readable.vga hcol
  have hkey := readlineKey_back hi hput
  have henters := h.enters.readlineKey (by omega) hkey
  rw [typeChar, if_pos rfl] at henters
  obtain ⟨r', hkey', hr'⟩ := h.readable.readlineKey (h.enters.i_eq ▸ hlen) 0x08
  obtain rfl : _ = r' := Option.some.inj (hkey.symm.trans hkey')
  have hprev : (v'.place : Int) = e.r.vga.place - 1 := by omega
  have hlast := h.places_eq hline
  refine ⟨⟨_, e.places.dropLast⟩, ?_, hkey, ⟨hr', henters, ?_, ?_⟩, ?_, hchar, hcursor⟩
  · rw [echoKey, hkey, hstay]
    rfl
  · have hc₀ : e.r.vga.vgaCol = (c₀ + line.length) % 80 := h.col
    change v'.vgaCol = (c₀ + line.dropLast.length) % 80
    rw [List.length_dropLast]
    have hpos : 0 < line.length := List.length_pos_iff.mpr hline
    omega
  · change e.places.dropLast = placesTo line.dropLast.length v'.place
    rw [hlast, List.dropLast_concat, hprev]
  · rw [hlast, List.getLast?_concat]
    exact congrArg some hprev.symm

/-- In the first column, the cursor stays behind the place of the last character. -/
theorem InStep.back_first {c₀ : Nat} (h : InStep b₀ maxLength c₀ line e) (hline : line ≠ [])
    (hcol : e.r.vga.vgaCol = 0) :
    ∃ e', echoKey e 0x08 = some e' ∧ e.places.getLast? = some (e'.r.vga.place - 1 : Int) := by
  have hi : 0 < e.r.i := by
    rw [h.enters.i_eq]
    exact List.length_pos_iff.mpr hline
  obtain ⟨v', hput, hplace⟩ := vgaPutchar_first h.readable.vga hcol
  have hkey := readlineKey_back hi hput
  refine ⟨⟨_, _⟩, by rw [echoKey, hkey]; rfl, ?_⟩
  rw [h.places_eq hline, List.getLast?_concat]
  exact congrArg (fun t : Nat ↦ some ((t : Int) - 1)) hplace.symm

/-! ## A sequence of keys -/

/-- `keyboard_readline` waits for the next key. -/
theorem readlineLoop_concat {r₁ r₂ : Readline}
    (hloop : readlineLoop maxLength p r = some (.waiting r₁)) (hc : c ≠ 0x0A)
    (hkey : readlineKey c r₁ = some r₂) (hi : r₂.i < sub32 maxLength 1) :
    readlineLoop maxLength (p ++ [c]) r = some (.waiting r₂) := by
  induction p generalizing r with
  | nil =>
      rw [readlineLoop] at hloop
      split at hloop
      next hlt =>
        cases hloop
        rw [List.nil_append, readlineLoop, if_pos hlt, if_neg hc, hkey, Option.bind_some,
          readlineLoop, if_pos hi]
      next => cases hloop
  | cons d p ih =>
      rw [readlineLoop] at hloop
      split at hloop
      next hlt =>
        split at hloop
        next =>
          obtain ⟨vga, _, heq⟩ := Option.bind_eq_some_iff.mp hloop
          cases heq
        next hd =>
          obtain ⟨r', hkey', hrest⟩ := Option.bind_eq_some_iff.mp hloop
          rw [List.cons_append, readlineLoop, if_pos hlt, if_neg hd, hkey', Option.bind_some]
          exact ih hrest
      next => cases hloop

/-- The state after the keys `p`, as long as the echo is in step with the line. -/
def EchoesTo (b₀ : Nat → UInt16) (maxLength : Nat) (buffer : List UInt8) (v : Vga)
    (p : List UInt8) (e : Echo) : Prop :=
  p.foldlM echoKey (.start buffer v) = some e ∧
    readlineLoop maxLength p ⟨0, buffer, v⟩ = some (.waiting e.r) ∧
    InStep b₀ maxLength v.vgaCol (typeChars [] p) e

theorem typeChars_concat (line p : List UInt8) (c : UInt8) :
    typeChars line (p ++ [c]) = typeChar (typeChars line p) c := List.foldl_concat ..

theorem foldlM_concat {s : Echo} (hp : p.foldlM echoKey s = some e) (c : UInt8) :
    (p ++ [c]).foldlM echoKey s = echoKey e c := by
  rw [List.foldlM_append, hp]
  exact bind_pure (echoKey e c)

/-- One more key. -/
theorem EchoesTo.concat {e' : Echo} (h : EchoesTo b₀ maxLength buffer v p e)
    (hecho : echoKey e c = some e') (hkey : readlineKey c e.r = some e'.r) (hc : c ≠ 0x0A)
    (hstep : InStep b₀ maxLength v.vgaCol (typeChar (typeChars [] p) c) e')
    (hlen : (typeChars [] (p ++ [c])).length < sub32 maxLength 1) :
    EchoesTo b₀ maxLength buffer v (p ++ [c]) e' := by
  obtain ⟨hfold, hloop, _⟩ := h
  rw [typeChars_concat] at hlen
  refine ⟨(foldlM_concat hfold c).trans hecho, readlineLoop_concat hloop hc hkey ?_, ?_⟩
  · rw [hstep.enters.i_eq]
    exact hlen
  · rw [typeChars_concat]
    exact hstep

/-- A key keeps the echo in step, if it is no backspace in the first column. -/
theorem EchoesTo.exists_concat (h : EchoesTo b₀ maxLength buffer v p e)
    (hmax : 1 ≤ maxLength) (hmax' : maxLength < 2 ^ 32) (hc : Ordinary c ∨ c = 0x08)
    (hlen : (typeChars [] p).length < maxLength - 1)
    (hlen' : (typeChars [] (p ++ [c])).length < maxLength - 1)
    (hcol : c = 0x08 → typeChars [] p ≠ [] → e.r.vga.vgaCol ≠ 0) :
    ∃ e', EchoesTo b₀ maxLength buffer v (p ++ [c]) e' := by
  have hlt : (typeChars [] p).length < maxLength := by omega
  rw [← sub32_of_le hmax hmax'] at hlen'
  rcases hc with hc | rfl
  · obtain ⟨hnl, _, _, hback⟩ := ordinary_iff.mp hc
    obtain ⟨e', hecho, hkey, hstep⟩ := h.2.2.put hc hlt hmax'
    refine ⟨e', h.concat hecho hkey hnl ?_ hlen'⟩
    rw [typeChar, if_neg hback]
    exact hstep
  · by_cases hline : typeChars [] p = []
    · have hnil := h.2.2
      rw [hline] at hnil
      obtain ⟨hecho, hkey⟩ := hnil.back_nil
      refine ⟨e, h.concat hecho hkey (by decide) ?_ hlen'⟩
      rw [hline]
      exact hnil
    · obtain ⟨e', hecho, hkey, hstep, _⟩ := h.2.2.back hline (hcol rfl hline) hlt hmax'
      exact ⟨e', h.concat hecho hkey (by decide) hstep hlen'⟩

/-- A backspace erases the last character exactly if the cursor is not in the first column. -/
theorem EchoesTo.erases_iff_col (h : EchoesTo b₀ maxLength buffer v p e) (hmax : 1 ≤ maxLength)
    (hmax' : maxLength < 2 ^ 32) (hline : typeChars [] p ≠ [])
    (hlen : (typeChars [] p).length < maxLength - 1) :
    Erases maxLength buffer v p ↔ e.r.vga.vgaCol ≠ 0 := by
  obtain ⟨hfold, hloop, hstep⟩ := h
  have hlt : (typeChars [] p).length < maxLength := by omega
  constructor
  · rintro ⟨e₁, e₁', hfold₁, hfold₁', _, _, t, hlast, _, hplace, _⟩ hcol
    obtain rfl : e = e₁ := Option.some.inj (hfold.symm.trans hfold₁)
    obtain ⟨e', hecho, hlast'⟩ := hstep.back_first hline hcol
    obtain rfl : e' = e₁' :=
      Option.some.inj (hecho.symm.trans ((foldlM_concat hfold 0x08).symm.trans hfold₁'))
    rw [hlast', hplace] at hlast
    have heq : (t : Int) - 1 = t := Option.some.inj hlast
    omega
  · intro hcol
    obtain ⟨e', hecho, hkey, hstep', hlast, hchar, hcursor⟩ := hstep.back hline hcol hlt hmax'
    have hi : e'.r.i < sub32 maxLength 1 := by
      rw [hstep'.enters.i_eq, List.length_dropLast, sub32_of_le hmax hmax']
      exact Nat.lt_of_le_of_lt (Nat.sub_le _ _) hlen
    exact ⟨e, e', hfold, (foldlM_concat hfold 0x08).trans hecho, hloop,
      readlineLoop_concat hloop (by decide) hkey hi, e'.r.vga.place, hlast, hchar, rfl, hcursor⟩

/-- Before any key is pressed. -/
theorem echoesTo_nil (hmax : 1 ≤ maxLength) (hmax' : maxLength < 2 ^ 32)
    (hbuffer : maxLength ≤ buffer.length) (hv : OnScreen b₀ v) (hpos : 0 < maxLength - 1) :
    EchoesTo b₀ maxLength buffer v [] (.start buffer v) := by
  refine ⟨rfl, ?_, ⟨hv, hbuffer⟩, ⟨rfl, buffer, rfl⟩, ?_, rfl⟩
  · rw [readlineLoop, sub32_of_le hmax hmax', if_pos hpos]
    rfl
  · exact (Nat.mod_eq_of_lt hv.col_lt).symm

/-- **Each backspace erases what was echoed exactly if** none is pressed, with characters in the
line, when the cursor is in the first column, where the last of these characters has wrapped it. -/
theorem erases_iff (hmax : 1 ≤ maxLength) (hmax' : maxLength < 2 ^ 32)
    (hbuffer : maxLength ≤ buffer.length) (hv : OnScreen b₀ v)
    (hkeys : ∀ c ∈ keys, Ordinary c ∨ c = 0x08) (hbelow : StaysBelow (maxLength - 1) [] keys) :
    (∀ p, p ++ [0x08] <+: keys → typeChars [] p ≠ [] → Erases maxLength buffer v p) ↔
      ∀ p, p ++ [0x08] <+: keys → typeChars [] p ≠ [] →
        (v.vgaCol + (typeChars [] p).length) % vgaWidth ≠ 0 := by
  have hsnoc : (∀ p c, p ++ [c] <+: keys → c = 0x08 → typeChars [] p ≠ [] →
      Erases maxLength buffer v p) ↔ ∀ p c, p ++ [c] <+: keys → c = 0x08 → typeChars [] p ≠ [] →
        (v.vgaCol + (typeChars [] p).length) % vgaWidth ≠ 0 := by
    refine forall_snoc_iff (I := fun p ↦ ∃ e, EchoesTo b₀ maxLength buffer v p e)
      ⟨_, echoesTo_nil hmax hmax' hbuffer hv (hbelow [] List.nil_prefix)⟩ ?_ ?_
    · rintro p c hp ⟨e, he⟩
      have hlen := hbelow p ((List.prefix_append p [c]).trans hp)
      refine forall_congr' fun _ ↦ forall_congr' fun hline ↦ ?_
      rw [← he.2.2.col]
      exact he.erases_iff_col hmax hmax' hline hlen
    · rintro p c hp ⟨e, he⟩ hcol
      have hlen := hbelow p ((List.prefix_append p [c]).trans hp)
      have hc := hkeys c (hp.subset (List.mem_append_right p List.mem_cons_self))
      rw [← he.2.2.col] at hcol
      exact he.exists_concat hmax hmax' hc hlen (hbelow _ hp) hcol
  constructor
  · exact fun h p hp ↦ hsnoc.mp (fun q c hq hc ↦ h q (hc ▸ hq)) p 0x08 hp rfl
  · exact fun h p hp ↦ hsnoc.mpr (fun q c hq hc ↦ h q (hc ▸ hq)) p 0x08 hp rfl

/-- A character and a backspace at the beginning of a row. -/
theorem erases_iff_first : Erases 4 (List.replicate 4 0) (vgaInit fun _ ↦ 0) [0x61] := by
  have hkeys : ∀ c ∈ [(0x61 : UInt8), 0x08], Ordinary c ∨ c = 0x08 := by
    intro c hc
    rcases List.mem_pair.mp hc with rfl | rfl
    · exact .inl (ordinary_iff.mpr (by decide))
    · exact .inr rfl
  have hroom : 4 ≤ (List.replicate 4 (0 : UInt8)).length := Nat.le_refl 4
  have hbelow : StaysBelow (4 - 1) [] [0x61, 0x08] := staysBelow_of_length (by decide)
  refine (erases_iff (by decide) (by decide) hroom (onScreen_vgaInit fun _ ↦ 0) hkeys
    hbelow).mpr (fun p hp hline ↦ ?_) [0x61] List.prefix_rfl (by decide)
  have hlen := hp.length_le
  have htyped := length_typeChars_le [] p
  have hpos := List.length_pos_iff.mpr hline
  rw [List.length_append] at hlen
  change p.length + 1 ≤ 2 at hlen
  change _ ≤ 0 + p.length at htyped
  change (0 + (typeChars [] p).length) % 80 ≠ 0
  omega

/-- **A character that is echoed in the last column** is not erased. -/
theorem not_erases : ∃ v, OnScreen (fun _ ↦ 0) v ∧ Ordinary 0x61 ∧
    StaysBelow (4 - 1) [] [0x61, 0x08] ∧ typeChars [] [0x61] ≠ [] ∧
    ¬ Erases 4 (List.replicate 4 0) v [0x61] := by
  have hv : OnScreen (fun _ ↦ 0) { vgaInit (fun _ ↦ 0) with vgaCol := 79 } :=
    ⟨(onScreen_vgaInit fun _ ↦ 0).toConfined.of_eq rfl rfl, by decide, by decide⟩
  have hroom : 4 ≤ (List.replicate 4 (0 : UInt8)).length := Nat.le_refl 4
  have hc : Ordinary 0x61 := ordinary_iff.mpr (by decide)
  refine ⟨_, hv, hc, staysBelow_of_length (by decide), by decide, fun herases ↦ ?_⟩
  have hstart := echoesTo_nil (by decide) (by decide) hroom hv (by decide)
  obtain ⟨e, he⟩ := hstart.exists_concat (by decide) (by decide) (.inl hc) (by decide) (by decide)
    fun h ↦ absurd h (by decide)
  exact (he.erases_iff_col (by decide) (by decide) (by decide) (by decide)).mp herases he.2.2.col

end KontolOS.Drivers
