import KontolOS.Drivers.Vga
import KontolOS.Lib.Run

/-!
# The cursor stays on the screen

Between two calls of the driver the cursor is on the screen, whatever the calls are, and no call
writes beyond the screen or sends a cursor position beyond it (`run_onScreen`).

`vga_putchar` lets the cursor leave the screen for a moment, to the right or below, and brings it
back before it returns.  `vga_print_at` keeps coordinates that nobody has checked in `vga_row`
and `vga_col`, but it writes through `vga_put_at`, which checks them, and then it restores the
cursor that was there before.
-/

namespace KontolOS.Drivers

open KontolOS.Lib KontolOS.Strings Function

variable {s s' : Vga} {row col i j n : Nat} {c : UInt8} {str : List UInt8}

/-! ## Places on the screen -/

theorem indexOf_eq (hrow : row < vgaHeight) (hcol : col < vgaWidth) :
    indexOf row col = row * vgaWidth + col := by
  have hmul : row * vgaWidth < 25 * 80 := Nat.mul_lt_mul_of_pos_right hrow (by decide)
  have hwidth : col < 80 := hcol
  rw [indexOf, mul32_of_lt (by omega), add32_of_lt (by omega)]

theorem lt_of_cell (hrow : row < vgaHeight) (hcol : col < vgaWidth) :
    row * vgaWidth + col < vgaHeight * vgaWidth := by
  change row < 25 at hrow
  change col < 80 at hcol
  change row * 80 + col < 25 * 80
  omega

theorem indexOf_lt (hrow : row < vgaHeight) (hcol : col < vgaWidth) :
    indexOf row col < vgaHeight * vgaWidth := by
  rw [indexOf_eq hrow hcol]
  exact lt_of_cell hrow hcol

theorem peek_of_lt (hi : i < vgaHeight * vgaWidth) : peek i s = some (s.vgaBuffer i) := if_pos hi

theorem poke_of_lt {entry : UInt16} (hi : i < vgaHeight * vgaWidth) : poke i entry s =
    some { s with vgaBuffer := update s.vgaBuffer i entry } := if_pos hi

/-! ## The loops over the screen -/

/-- `vga_clear` and `vga_scroll` change the screen entry by entry: `b k` is the memory when those
before the entry `k` are done. -/
theorem loop_buffer (body : Nat → Nat → Vga → Option Vga) (b : Nat → Nat → UInt16)
    (hbody : ∀ y x, i ≤ y → y < i + n → x < vgaWidth →
      body y x { s with vgaBuffer := b (y * vgaWidth + x) } =
        some { s with vgaBuffer := b (y * vgaWidth + x + 1) })
    (h : s.vgaBuffer = b (i * vgaWidth)) :
    forLoop (fun y ↦ forLoop (body y) 0 vgaWidth) i n s =
      some { s with vgaBuffer := b ((i + n) * vgaWidth) } := by
  have hstart : s = { s with vgaBuffer := b (i * vgaWidth) } := by rw [← h]
  have hstep : ∀ y x t, i ≤ y → y < i + n → x < vgaWidth →
      t = { s with vgaBuffer := b (y * vgaWidth + x) } →
      ∃ t', body y x t = some t' ∧ t' = { s with vgaBuffer := b (y * vgaWidth + x + 1) } := by
    rintro y x t hy hyn hx rfl
    exact ⟨_, hbody y x hy hyn hx, rfl⟩
  obtain ⟨s', hloop, rfl⟩ :=
    forLoop_rows (I := fun k t ↦ t = { s with vgaBuffer := b k }) hstep hstart
  exact hloop

/-- The memory when the first `k` entries are blank. -/
def blanked (s : Vga) (k : Nat) : Nat → UInt16 :=
  fun i ↦ if i < k then vgaEntry 0x20 s.vgaColor else s.vgaBuffer i

/-- The memory when the entries up to `k` are moved up by one row. -/
def movedUp (s : Vga) (k : Nat) : Nat → UInt16 :=
  fun i ↦ if i + vgaWidth < k then s.vgaBuffer (i + vgaWidth) else s.vgaBuffer i

/-- The memory when all rows are moved up by one, and the entries of the last row up to `k` are
blank. -/
def scrolled (s : Vga) (k : Nat) : Nat → UInt16 := fun i ↦
  if i < (vgaHeight - 1) * vgaWidth then s.vgaBuffer (i + vgaWidth)
  else if i < k then vgaEntry 0x20 s.vgaColor
  else s.vgaBuffer i

/-- **`vga_clear`** blanks the screen and nothing else. -/
theorem vgaClear_eq (s : Vga) : vgaClear s = some (vgaUpdateCursor
    { s with vgaRow := 0, vgaCol := 0, vgaBuffer := blanked s (vgaHeight * vgaWidth) }) := by
  have hstart : s.vgaBuffer = blanked s (0 * vgaWidth) := by
    funext i
    exact (if_neg (by rw [Nat.zero_mul]; exact Nat.not_lt_zero i)).symm
  have hloop : forLoop (fun y ↦ forLoop (fun x ↦ pokeBlank (y * vgaWidth + x)) 0 vgaWidth)
      0 vgaHeight s = some { s with vgaBuffer := blanked s ((0 + vgaHeight) * vgaWidth) } := by
    apply loop_buffer (fun y x ↦ pokeBlank (y * vgaWidth + x)) (blanked s) ?_ hstart
    intro y x _ hy hx
    rw [Nat.zero_add] at hy
    rw [pokeBlank, poke_of_lt (lt_of_cell hy hx)]
    congr 2
    funext i
    rw [update_apply]
    grind [blanked]
  rw [vgaClear, hloop, Nat.zero_add]
  rfl

/-- The first loop of `vga_scroll`. -/
theorem forLoop_scrollCell (s : Vga) :
    forLoop (fun y ↦ forLoop (scrollCell y) 0 vgaWidth) 1 (vgaHeight - 1) s =
      some { s with vgaBuffer := movedUp s (vgaHeight * vgaWidth) } := by
  have hstart : s.vgaBuffer = movedUp s (1 * vgaWidth) := by
    funext i
    refine (if_neg ?_).symm
    rw [Nat.one_mul]
    exact Nat.not_lt.mpr (Nat.le_add_left _ _)
  apply loop_buffer scrollCell (movedUp s) ?_ hstart
  intro y x hy hyn hx
  have hsrc : y * vgaWidth + x < vgaHeight * vgaWidth := lt_of_cell hyn hx
  have hdst : (y - 1) * vgaWidth + x + vgaWidth = y * vgaWidth + x := by
    change (y - 1) * 80 + x + 80 = y * 80 + x
    omega
  rw [scrollCell, peek_of_lt hsrc, Option.bind_eq_bind, Option.bind_some,
    poke_of_lt (by omega)]
  congr 2
  funext i
  rw [update_apply]
  grind [movedUp]

/-- The second loop of `vga_scroll`. -/
theorem forLoop_pokeBlank (s : Vga) :
    forLoop (fun x ↦ pokeBlank ((vgaHeight - 1) * vgaWidth + x)) 0 vgaWidth
        { s with vgaBuffer := movedUp s (vgaHeight * vgaWidth) } =
      some { s with vgaBuffer := scrolled s (vgaHeight * vgaWidth) } := by
  have hstart : movedUp s (vgaHeight * vgaWidth) = scrolled s ((vgaHeight - 1) * vgaWidth + 0) := by
    funext i
    grind [movedUp, scrolled, vgaHeight, vgaWidth]
  have hstep : ∀ x t, 0 ≤ x → x < 0 + vgaWidth →
      t = { s with vgaBuffer := scrolled s ((vgaHeight - 1) * vgaWidth + x) } →
      ∃ t', pokeBlank ((vgaHeight - 1) * vgaWidth + x) t = some t' ∧
        t' = { s with vgaBuffer := scrolled s ((vgaHeight - 1) * vgaWidth + (x + 1)) } := by
    rintro x t _ hx rfl
    rw [Nat.zero_add] at hx
    refine ⟨_, ?_, rfl⟩
    rw [pokeBlank, poke_of_lt (lt_of_cell (by decide) hx)]
    congr 2
    funext i
    rw [update_apply]
    grind [scrolled]
  obtain ⟨t, hloop, rfl⟩ := forLoop_invariant
    (I := fun x t ↦ t = { s with vgaBuffer := scrolled s ((vgaHeight - 1) * vgaWidth + x) })
    hstep (congrArg (fun b ↦ { s with vgaBuffer := b }) hstart)
  exact hloop

/-- **`vga_scroll`** moves every row up by one, and blanks the last one. -/
theorem vgaScroll_eq (s : Vga) : vgaScroll s = some
    { s with vgaRow := vgaHeight - 1, vgaBuffer := scrolled s (vgaHeight * vgaWidth) } := by
  rw [vgaScroll, forLoop_scrollCell, Option.bind_eq_bind, Option.bind_some, forLoop_pokeBlank]
  rfl

/-! ## Cursor positions -/

/-- The positions sent by `vga_update_cursor`, the last one first.  Nothing else in a run sends
anything, and so every four bytes are a position, with its parts in the second and the fourth. -/
def sentPositions : List (UInt16 × UInt8) → List Nat
  | (_, low) :: _ :: (_, high) :: _ :: outs =>
      (high.toNat * 256 + low.toNat) :: sentPositions outs
  | _ => []

/-- The two bytes that `vga_update_cursor` makes of a position. -/
theorem toNat_bytes (pos : UInt16) :
    (pos >>> 8 &&& 0xFF).toUInt8.toNat * 256 + (pos &&& 0xFF).toUInt8.toNat = pos.toNat := by
  have hlt : pos.toNat < 65536 := pos.toNat_lt
  have hlow : (pos &&& 0xFF).toUInt8.toNat = pos.toNat % 256 := by
    rw [UInt16.toNat_toUInt8, UInt16.toNat_and]
    change (pos.toNat &&& (2 ^ 8 - 1)) % 256 = _
    rw [Nat.and_two_pow_sub_one_eq_mod]
    omega
  have hhigh : (pos >>> 8 &&& 0xFF).toUInt8.toNat = pos.toNat / 256 := by
    rw [UInt16.toNat_toUInt8, UInt16.toNat_and, UInt16.toNat_shiftRight]
    change (pos.toNat >>> 8 &&& (2 ^ 8 - 1)) % 256 = _
    rw [Nat.and_two_pow_sub_one_eq_mod, Nat.shiftRight_eq_div_pow]
    omega
  rw [hlow, hhigh]
  omega

/-- What `vga_update_cursor` sends. -/
theorem sentPositions_vgaUpdateCursor (hrow : s.vgaRow < vgaHeight) (hcol : s.vgaCol < vgaWidth) :
    sentPositions (vgaUpdateCursor s).outs =
      (s.vgaRow * vgaWidth + s.vgaCol) :: sentPositions s.outs := by
  have hlt : s.vgaRow * vgaWidth + s.vgaCol < 25 * 80 := lt_of_cell hrow hcol
  change (_ * 256 + _) :: sentPositions s.outs = _
  rw [toNat_bytes, indexOf_eq hrow hcol, UInt16.toNat_ofNat_of_lt' (Nat.lt_trans hlt (by decide))]

/-! ## The invariant -/

/-- Nothing was written or sent beyond the screen: the memory there is that of `b₀`. -/
structure Confined (b₀ : Nat → UInt16) (s : Vga) : Prop where
  /-- the positions sent are places on the screen -/
  sent : ∀ pos ∈ sentPositions s.outs, pos < vgaHeight * vgaWidth
  /-- the memory behind the screen is untouched -/
  beyond : ∀ i, vgaHeight * vgaWidth ≤ i → s.vgaBuffer i = b₀ i

/-- What holds between two calls. -/
structure OnScreen (b₀ : Nat → UInt16) (s : Vga) : Prop extends Confined b₀ s where
  /-- the cursor is in a row of the screen -/
  row_lt : s.vgaRow < vgaHeight
  /-- and in one of its columns -/
  col_lt : s.vgaCol < vgaWidth

variable {b₀ : Nat → UInt16}

/-- The cursor and the colour are not part of it. -/
theorem Confined.of_eq (h : Confined b₀ s) (hbuffer : s'.vgaBuffer = s.vgaBuffer)
    (houts : s'.outs = s.outs) : Confined b₀ s' :=
  ⟨by rw [houts]; exact h.sent, by rw [hbuffer]; exact h.beyond⟩

/-- A write to the screen. -/
theorem Confined.poke (h : Confined b₀ s) (entry : UInt16) (hi : i < vgaHeight * vgaWidth) :
    Confined b₀ { s with vgaBuffer := update s.vgaBuffer i entry } := by
  refine ⟨h.sent, fun k hk ↦ ?_⟩
  exact (update_of_ne (Nat.ne_of_gt (Nat.lt_of_lt_of_le hi hk)) _ _).trans (h.beyond k hk)

theorem Confined.vgaUpdateCursor (h : Confined b₀ s) (hrow : s.vgaRow < vgaHeight)
    (hcol : s.vgaCol < vgaWidth) : OnScreen b₀ (vgaUpdateCursor s) := by
  refine ⟨⟨?_, h.beyond⟩, hrow, hcol⟩
  rw [sentPositions_vgaUpdateCursor hrow hcol]
  rintro pos (_ | ⟨_, hpos⟩)
  · exact lt_of_cell hrow hcol
  · exact h.sent pos hpos

theorem onScreen_vgaInit (b₀ : Nat → UInt16) : OnScreen b₀ (vgaInit b₀) :=
  ⟨⟨fun _ hpos ↦ (nomatch hpos), fun _ _ ↦ rfl⟩, (by decide : 0 < vgaHeight),
    (by decide : 0 < vgaWidth)⟩

/-! ## `vga_putchar` -/

/-- **What the character itself does**: the cursor is in the row it was in, or it is at the
beginning of the next. -/
theorem OnScreen.putcharBranch (h : OnScreen b₀ s) (c : UInt8) :
    ∃ s', putcharBranch c s = some s' ∧ Confined b₀ s' ∧
      (s'.vgaRow < vgaHeight ∨ s'.vgaRow = vgaHeight ∧ s'.vgaCol = 0) := by
  have hrow : s.vgaRow < 25 := h.row_lt
  have hcol : s.vgaCol < 80 := h.col_lt
  rw [Drivers.putcharBranch]
  split
  · refine ⟨_, rfl, h.of_eq rfl rfl, ?_⟩
    change add32 s.vgaRow 1 < 25 ∨ add32 s.vgaRow 1 = 25 ∧ 0 = 0
    rw [add32_of_lt (by omega)]
    omega
  · split
    · exact ⟨_, rfl, h.of_eq rfl rfl, .inl h.row_lt⟩
    · split
      · exact ⟨_, rfl, h.of_eq rfl rfl, .inl h.row_lt⟩
      · split
        · split
          next hpos =>
            have hback : sub32 s.vgaCol 1 < vgaWidth := by
              rw [sub32_of_le (by omega) (by omega)]
              exact Nat.lt_of_le_of_lt (Nat.sub_le _ _) h.col_lt
            have hleft : Confined b₀ { s with vgaCol := sub32 s.vgaCol 1 } := h.of_eq rfl rfl
            exact ⟨_, poke_of_lt (indexOf_lt h.row_lt hback),
              hleft.poke _ (indexOf_lt h.row_lt hback), .inl h.row_lt⟩
          next => exact ⟨_, rfl, h.toConfined, .inl h.row_lt⟩
        · rw [poke_of_lt (indexOf_lt h.row_lt h.col_lt)]
          refine ⟨_, rfl, ?_, .inl h.row_lt⟩
          exact (h.toConfined.poke _ (indexOf_lt h.row_lt h.col_lt)).of_eq rfl rfl

/-- The line wrap brings the cursor back from the right. -/
theorem Confined.putcharWrap (h : Confined b₀ s)
    (hrow : s.vgaRow < vgaHeight ∨ s.vgaRow = vgaHeight ∧ s.vgaCol = 0) :
    Confined b₀ (putcharWrap s) ∧ (putcharWrap s).vgaRow ≤ vgaHeight ∧
      (putcharWrap s).vgaCol < vgaWidth := by
  rw [Drivers.putcharWrap]
  by_cases hwide : vgaWidth ≤ s.vgaCol
  · rw [if_pos hwide]
    have hlt : s.vgaRow < 25 := hrow.resolve_right fun hlast ↦ by
      rw [hlast.2] at hwide
      exact absurd hwide (by decide)
    refine ⟨h.of_eq rfl rfl, ?_, (by decide : 0 < vgaWidth)⟩
    change add32 s.vgaRow 1 ≤ 25
    rw [add32_of_lt (by omega)]
    exact hlt
  · rw [if_neg hwide]
    exact ⟨h, hrow.elim Nat.le_of_lt fun hlast ↦ Nat.le_of_eq hlast.1, Nat.not_le.mp hwide⟩

/-- Scrolling brings the cursor back from below. -/
theorem Confined.putcharScroll (h : Confined b₀ s) (hcol : s.vgaCol < vgaWidth) :
    ∃ s', putcharScroll s = some s' ∧ Confined b₀ s' ∧ s'.vgaRow < vgaHeight ∧
      s'.vgaCol < vgaWidth := by
  rw [Drivers.putcharScroll]
  by_cases hlow : vgaHeight ≤ s.vgaRow
  · rw [if_pos hlow, vgaScroll_eq]
    refine ⟨_, rfl, ⟨h.sent, fun i hi ↦ ?_⟩, (by decide : vgaHeight - 1 < vgaHeight), hcol⟩
    have hi' : ¬ i < (vgaHeight - 1) * vgaWidth := Nat.not_lt.mpr (Nat.le_trans (by decide) hi)
    exact (if_neg hi').trans ((if_neg (Nat.not_lt.mpr hi)).trans (h.beyond i hi))
  · rw [if_neg hlow]
    exact ⟨s, rfl, h, Nat.not_le.mp hlow, hcol⟩

/-- The parts of `vga_putchar` one after the other. -/
theorem vgaPutchar_eq {s₁ s₂ : Vga} (hbranch : putcharBranch c s = some s₁)
    (hscroll : putcharScroll (putcharWrap s₁) = some s₂) :
    vgaPutchar c s = some (vgaUpdateCursor s₂) := by
  rw [vgaPutchar, hbranch, Option.bind_eq_bind, Option.bind_some, hscroll]
  rfl

/-- **`vga_putchar`** keeps the cursor on the screen. -/
theorem OnScreen.vgaPutchar (h : OnScreen b₀ s) (c : UInt8) :
    ∃ s', vgaPutchar c s = some s' ∧ OnScreen b₀ s' := by
  obtain ⟨s₁, hbranch, h₁, hrow₁⟩ := h.putcharBranch c
  obtain ⟨h₂, _, hcol₂⟩ := h₁.putcharWrap hrow₁
  obtain ⟨s₃, hscroll, h₃, hrow₃, hcol₃⟩ := h₂.putcharScroll hcol₂
  exact ⟨_, vgaPutchar_eq hbranch hscroll, h₃.vgaUpdateCursor hrow₃ hcol₃⟩

/-! ## The other functions -/

theorem OnScreen.vgaClear (h : OnScreen b₀ s) :
    ∃ s', vgaClear s = some s' ∧ OnScreen b₀ s' := by
  refine ⟨_, vgaClear_eq s, ?_⟩
  apply Confined.vgaUpdateCursor ?_ (by decide : 0 < vgaHeight) (by decide : 0 < vgaWidth)
  exact ⟨h.sent, fun i hi ↦ (if_neg (Nat.not_lt.mpr hi)).trans (h.beyond i hi)⟩

theorem OnScreen.vgaPrint (h : OnScreen b₀ s) (hstr : 0 ∈ str) :
    ∃ s', vgaPrint str s = some s' ∧ OnScreen b₀ s' := by
  induction str generalizing s with
  | nil => cases hstr
  | cons c str ih =>
      rw [Drivers.vgaPrint]
      by_cases hc : c = 0
      · exact ⟨s, if_pos hc, h⟩
      · obtain ⟨s₁, hput, h₁⟩ := h.vgaPutchar c
        obtain ⟨s', hrest, h'⟩ := ih h₁ ((List.mem_cons.mp hstr).resolve_left (Ne.symm hc))
        rw [if_neg hc, hput]
        exact ⟨s', hrest, h'⟩

theorem OnScreen.vgaPrintln (h : OnScreen b₀ s) (hstr : 0 ∈ str) :
    ∃ s', vgaPrintln str s = some s' ∧ OnScreen b₀ s' := by
  obtain ⟨s₁, hprint, h₁⟩ := h.vgaPrint hstr
  rw [Drivers.vgaPrintln, hprint]
  exact h₁.vgaPutchar 0x0A

/-- The digits fit in the buffer if there is room for a digit for each power of ten. -/
theorem exists_decDigits {free : Nat} {num : Int} (hnum : num < 10 ^ free) (digits : List UInt8) :
    ∃ ds, decDigits free num digits = some ds := by
  induction free generalizing num digits with
  | zero =>
      refine ⟨digits, if_neg ?_⟩
      rw [Int.pow_zero] at hnum
      exact Int.not_lt.mpr (Int.le_of_lt_add_one hnum)
  | succ free ih =>
      rw [decDigits]
      split
      · apply ih
        rw [Int.pow_succ] at hnum
        exact Int.ediv_lt_of_lt_mul (by decide) hnum
      · exact ⟨digits, rfl⟩

theorem OnScreen.putDigits {digits : List UInt8} (h : OnScreen b₀ s) :
    ∃ s', putDigits digits s = some s' ∧ OnScreen b₀ s' := by
  induction digits generalizing s with
  | nil => exact ⟨s, rfl, h⟩
  | cons c digits ih =>
      obtain ⟨s₁, hput, h₁⟩ := h.vgaPutchar c
      rw [Drivers.putDigits, hput]
      exact ih h₁

theorem OnScreen.vgaPrintDec {num : Int} (h : OnScreen b₀ s) (hmin : -2 ^ 31 ≤ num)
    (hmax : num < 2 ^ 31) : ∃ s', vgaPrintDec num s = some s' ∧ OnScreen b₀ s' := by
  have habs : (if num < 0 then negInt32 num else num) < 10 ^ 12 := by
    rw [negInt32]
    split
    · split <;> omega
    · omega
  simp only [Drivers.vgaPrintDec]
  generalize (if num < 0 then negInt32 num else num) = num' at habs
  split
  · exact h.vgaPutchar 0x30
  · obtain ⟨digits, hdigits⟩ := exists_decDigits habs []
    rw [hdigits, Option.bind_eq_bind, Option.bind_some]
    split
    · obtain ⟨s₁, hminus, h₁⟩ := h.vgaPutchar 0x2D
      rw [hminus]
      exact h₁.putDigits
    · exact h.putDigits

theorem mem_hexDigits {num : UInt32} {buffer : List UInt8} (h : c ∈ buffer) :
    c ∈ hexDigits i num buffer := by
  induction i generalizing num buffer with
  | zero => exact h
  | succ i ih => exact ih (List.mem_cons_of_mem _ h)

/-- Skipping zeros does not skip the terminator. -/
theorem zero_mem_skipZeros {ptr : List UInt8} (h : 0 ∈ ptr) : 0 ∈ skipZeros ptr := by
  fun_induction skipZeros ptr with
  | case1 c d rest hskip ih =>
      apply ih ((List.mem_cons.mp h).resolve_left ?_)
      rw [hskip.1]
      decide
  | case2 c d rest hskip => exact h
  | case3 ptr hshort => exact h

theorem OnScreen.vgaPrintHex (h : OnScreen b₀ s) (num : UInt32) :
    ∃ s', vgaPrintHex num s = some s' ∧ OnScreen b₀ s' := by
  obtain ⟨s₁, hprefix, h₁⟩ := h.vgaPrint (by decide : (0 : UInt8) ∈ [0x30, 0x78, 0])
  rw [Drivers.vgaPrintHex, hprefix]
  exact h₁.vgaPrint (zero_mem_skipZeros (mem_hexDigits (List.mem_singleton.mpr rfl)))

theorem OnScreen.vgaSetCursor (h : OnScreen b₀ s) (row col : Nat) :
    OnScreen b₀ (vgaSetCursor row col s) := by
  rw [Drivers.vgaSetCursor]
  split
  next hin =>
    have hmoved : Confined b₀ { s with vgaRow := row, vgaCol := col } := h.of_eq rfl rfl
    exact hmoved.vgaUpdateCursor hin.1 hin.2
  next => exact h

/-- **`vga_put_at`** checks its arguments, and leaves the cursor alone. -/
theorem Confined.vgaPutAt (h : Confined b₀ s) (row col : Nat) (c : UInt8) :
    ∃ s', vgaPutAt row col c s = some s' ∧ Confined b₀ s' ∧ s'.vgaRow = s.vgaRow ∧
      s'.vgaCol = s.vgaCol := by
  rw [Drivers.vgaPutAt]
  split
  next hin =>
    have hlt : indexOf row col < vgaHeight * vgaWidth := indexOf_lt hin.1 hin.2
    exact ⟨_, poke_of_lt hlt, h.poke _ hlt, rfl, rfl⟩
  next => exact ⟨s, rfl, h, rfl, rfl⟩

/-- The loop of `vga_print_at`, wherever the cursor is. -/
theorem Confined.printAtLoop (h : Confined b₀ s) (col : Nat) (hstr : 0 ∈ str) :
    ∃ s', printAtLoop col str s = some s' ∧ Confined b₀ s' := by
  induction str generalizing s with
  | nil => cases hstr
  | cons c str ih =>
      rw [Drivers.printAtLoop]
      split
      next hmore =>
        have hrest : 0 ∈ str := (List.mem_cons.mp hstr).resolve_left (Ne.symm hmore.1)
        split
        · exact ih (h.of_eq rfl rfl) hrest
        · obtain ⟨s₁, hput, h₁, _, _⟩ := h.vgaPutAt s.vgaRow s.vgaCol c
          rw [hput]
          exact ih (h₁.of_eq rfl rfl) hrest
      next => exact ⟨s, rfl, h⟩

/-- **`vga_print_at`** restores the cursor. -/
theorem OnScreen.vgaPrintAt (h : OnScreen b₀ s) (row col : Nat) (hstr : 0 ∈ str) :
    ∃ s', vgaPrintAt row col str s = some s' ∧ OnScreen b₀ s' := by
  have hmoved : Confined b₀ { s with vgaRow := row, vgaCol := col } := h.of_eq rfl rfl
  obtain ⟨t, hloop, ht⟩ := hmoved.printAtLoop col hstr
  rw [Drivers.vgaPrintAt, hloop]
  exact ⟨_, rfl, ht.of_eq rfl rfl, h.row_lt, h.col_lt⟩

theorem OnScreen.vgaPrintCentered (h : OnScreen b₀ s) (row : Nat) (hstr : 0 ∈ str) :
    ∃ s', vgaPrintCentered row str s = some s' ∧ OnScreen b₀ s' := by
  rw [Drivers.vgaPrintCentered, (Holds.of_mem hstr).strlen_eq]
  exact h.vgaPrintAt row _ hstr

/-! ## Every call, and every run -/

/-- **Every call** returns, and keeps the cursor on the screen. -/
theorem OnScreen.exec (h : OnScreen b₀ s) {call : VgaCall} (hlegal : call.Legal) :
    ∃ s', call.exec s = some s' ∧ OnScreen b₀ s' := by
  cases call with
  | clear => exact h.vgaClear
  | setColor fg bg => exact ⟨_, rfl, h.toConfined.of_eq rfl rfl, h.row_lt, h.col_lt⟩
  | putchar c => exact h.vgaPutchar c
  | print str => exact h.vgaPrint hlegal
  | println str => exact h.vgaPrintln hlegal
  | printDec num => exact h.vgaPrintDec hlegal.1 hlegal.2
  | printHex num => exact h.vgaPrintHex num
  | updateCursor => exact ⟨_, rfl, h.toConfined.vgaUpdateCursor h.row_lt h.col_lt⟩
  | setCursor row col => exact ⟨_, rfl, h.vgaSetCursor row col⟩
  | putAt row col c =>
      obtain ⟨s', hput, h', hrow, hcol⟩ := h.toConfined.vgaPutAt row col c
      exact ⟨s', hput, h', hrow ▸ h.row_lt, hcol ▸ h.col_lt⟩
  | printAt row col str => exact h.vgaPrintAt row col hlegal
  | printCentered row str => exact h.vgaPrintCentered row hlegal

theorem OnScreen.step {call : VgaCall} (h : OnScreen b₀ s) (hstep : VgaStep s call s') :
    OnScreen b₀ s' := by
  obtain ⟨t, hexec, ht⟩ := h.exec hstep.1
  have heq : some t = some s' := hexec.symm.trans hstep.2
  cases heq
  exact ht

/-- **The cursor stays on the screen**: after every run of calls from `vga_init`, the cursor is on
the screen, every cursor position sent is a place on the screen, the memory behind the screen is
untouched, and every further call returns without an access beyond the screen. -/
theorem run_onScreen {calls : List VgaCall} (hr : Run VgaStep (vgaInit b₀) calls s) :
    s.vgaRow < 25 ∧ s.vgaCol < 80 ∧ (∀ pos ∈ sentPositions s.outs, pos < 80 * 25) ∧
      (∀ i, 80 * 25 ≤ i → s.vgaBuffer i = b₀ i) ∧
      ∀ call : VgaCall, call.Legal → ∃ s', VgaStep s call s' := by
  have h : OnScreen b₀ s := hr.invariant (I := OnScreen b₀) OnScreen.step (onScreen_vgaInit b₀)
  refine ⟨h.row_lt, h.col_lt, h.sent, h.beyond, fun call hlegal ↦ ?_⟩
  obtain ⟨s', hexec, _⟩ := h.exec hlegal
  exact ⟨s', hlegal, hexec⟩

/-- A character is put in the last row after a scroll. -/
theorem run_onScreen_scroll : ∃ s, Run VgaStep (vgaInit fun _ ↦ 0)
    [.setCursor 24 79, .putchar 0x41] s ∧ s.vgaRow < 25 := by
  have h := onScreen_vgaInit fun _ ↦ 0
  have hset := h.vgaSetCursor 24 79
  obtain ⟨s, hput, _⟩ := hset.vgaPutchar 0x41
  have hrun : Run VgaStep (vgaInit fun _ ↦ 0) [.setCursor 24 79, .putchar 0x41] s :=
    .cons ⟨trivial, rfl⟩ (.single ⟨trivial, hput⟩)
  exact ⟨s, hrun, (run_onScreen hrun).1⟩

end KontolOS.Drivers
