import Mathlib.Data.Nat.Digits.Lemmas
import KontolOS.Drivers.Screen

/-!
# What is printed

Whatever is printed at the cursor goes through `vga_putchar`, one character after the other.
`Emits s text s'` says that the characters `text` lead from the screen `s` to `s'`, with changes
of the colour in between, and `VgaCall.text` names the characters of a call.
-/

namespace KontolOS.Drivers

open KontolOS.Lib KontolOS.Strings

/-! ## The characters of a call -/

/-- The decimal digits of a number. -/
def decimal (n : Nat) : List UInt8 :=
  if n = 0 then [0x30] else (Nat.digits 10 n).reverse.map fun d ↦ 0x30 + UInt8.ofNat d

/-- The characters that a call prints at the cursor, for the calls in `VgaCall.Prints`. -/
def VgaCall.text : VgaCall → List UInt8
  | .putchar c => [c]
  | .print str => cstr str
  | .printDec num => decimal num.toNat
  | _ => []

/-- The calls that change the colour or print at the cursor, numbers not being negative. -/
def VgaCall.Prints : VgaCall → Prop
  | .setColor _ _ | .putchar _ => True
  | .print str => 0 ∈ str
  | .printDec num => 0 ≤ num ∧ num < 2 ^ 31
  | _ => False

/-- The characters that some calls print. -/
def printed (calls : List VgaCall) : List UInt8 := calls.flatMap VgaCall.text

theorem printed_append (calls calls' : List VgaCall) :
    printed (calls ++ calls') = printed calls ++ printed calls' := List.flatMap_append

/-- The calls one after the other. -/
def runCalls : List VgaCall → Vga → Option Vga
  | [], s => some s
  | call :: calls, s => (call.exec s).bind (runCalls calls)

/-- `text` is put out, character by character; the colour may change in between. -/
inductive Emits : Vga → List UInt8 → Vga → Prop
  | nil (s : Vga) : Emits s [] s
  | color {s s' : Vga} {text : List UInt8} (fg bg : UInt8) :
      Emits (vgaSetColor fg bg s) text s' → Emits s text s'
  | char {s s₁ s' : Vga} {c : UInt8} {text : List UInt8} :
      vgaPutchar c s = some s₁ → Emits s₁ text s' → Emits s (c :: text) s'

theorem Emits.append {s s₁ s' : Vga} {text text' : List UInt8} (h : Emits s text s₁)
    (h' : Emits s₁ text' s') : Emits s (text ++ text') s' := by
  induction h with
  | nil => exact h'
  | color fg bg _ ih => exact .color fg bg (ih h')
  | char hput _ ih => exact .char hput (ih h')

/-! ## Numbers -/

theorem toNat_digit {d : Nat} (hd : d < 10) : (0x30 + UInt8.ofNat d).toNat = 0x30 + d := by
  rw [UInt8.toNat_add, UInt8.toNat_ofNat']
  simp only [UInt8.reduceToNat]
  omega

/-- Digits are from `0` to `9`. -/
theorem mem_decimal {n : Nat} {c : UInt8} (h : c ∈ decimal n) :
    0x30 ≤ c.toNat ∧ c.toNat ≤ 0x39 := by
  unfold decimal at h
  split at h
  · rw [List.mem_singleton.mp h]
    decide
  · obtain ⟨d, hd, rfl⟩ := List.mem_map.mp h
    have hlt := Nat.digits_lt_base (by decide) (List.mem_reverse.mp hd)
    rw [toNat_digit hlt]
    omega

theorem length_decimal_le {k n : Nat} (hn : n < 10 ^ (k + 1)) : (decimal n).length ≤ k + 1 := by
  rw [decimal]
  split
  · exact Nat.succ_le_succ (Nat.zero_le k)
  · rw [List.length_map, List.length_reverse, Nat.digits_length_le_iff (by decide)]
    exact hn

/-- The first loop of `vga_print_dec` finds the digits. -/
theorem decDigits_eq {free n : Nat} (hn : n < 10 ^ free) (digits : List UInt8) :
    decDigits free n digits =
      some ((Nat.digits 10 n).reverse.map (fun d ↦ 0x30 + UInt8.ofNat d) ++ digits) := by
  induction free generalizing n digits with
  | zero =>
      obtain rfl : n = 0 := Nat.lt_one_iff.mp hn
      rfl
  | succ free ih =>
      rcases Nat.eq_zero_or_pos n with rfl | hpos
      · rfl
      · have hlt : n / 10 < 10 ^ free := by
          rw [Nat.pow_succ] at hn
          exact Nat.div_lt_of_lt_mul (by rwa [Nat.mul_comm] at hn)
        have hdiv : (n : Int) / 10 = ((n / 10 : Nat) : Int) := rfl
        have hmod : ((n : Int) % 10).toNat = n % 10 := rfl
        rw [decDigits, if_pos (by exact_mod_cast hpos), hdiv, hmod, ih hlt,
          Nat.digits_of_two_le_of_pos (by decide) hpos]
        simp

/-! ## Strings and numbers, character by character -/

theorem putDigits_append (text text' : List UInt8) (s : Vga) :
    putDigits (text ++ text') s = (putDigits text s).bind (putDigits text') := by
  induction text generalizing s with
  | nil => rfl
  | cons c text ih =>
      rw [List.cons_append, putDigits, putDigits]
      cases vgaPutchar c s with
      | none => rfl
      | some s₁ => exact ih s₁

/-- `vga_print` puts out the string. -/
theorem vgaPrint_eq {str text : List UInt8} (hstr : Holds str text) (s : Vga) :
    vgaPrint str s = putDigits text s := by
  induction text generalizing str s with
  | nil =>
      obtain ⟨rest, rfl⟩ := Holds.nil_iff.mp hstr
      rfl
  | cons c text ih =>
      obtain ⟨hc, rest, rfl, hrest⟩ := Holds.cons_iff.mp hstr
      rw [vgaPrint, if_neg hc, putDigits]
      exact congrArg _ (funext fun s ↦ ih hrest s)

/-- `vga_print_dec` puts out the digits. -/
theorem vgaPrintDec_eq {n : Nat} (hn : n < 2 ^ 31) (s : Vga) :
    vgaPrintDec n s = putDigits (decimal n) s := by
  simp only [vgaPrintDec, Int.not_ofNat_neg, if_false, decimal]
  by_cases hzero : n = 0
  · rw [if_pos (by exact_mod_cast hzero), if_pos hzero, putDigits]
    cases vgaPutchar 0x30 s <;> rfl
  · have hsmall : n < 10 ^ 12 := by omega
    rw [if_neg (by exact_mod_cast hzero), if_neg hzero, decDigits_eq hsmall, List.append_nil]
    rfl

/-! ## Calls that print characters and strings -/

/-- Whatever the screen, the calls put out the text, character by character. -/
def Puts (calls : List VgaCall) (text : List UInt8) : Prop :=
  ∀ s, runCalls calls s = putDigits text s

theorem Puts.nil : Puts [] [] := fun _ ↦ rfl

theorem Puts.putchar {calls : List VgaCall} {text : List UInt8} (c : UInt8) (h : Puts calls text) :
    Puts (.putchar c :: calls) (c :: text) := fun s ↦
  congrArg ((vgaPutchar c s).bind ·) (funext h)

theorem Puts.print {calls : List VgaCall} {str text text' : List UInt8} (hstr : Holds str text)
    (h : Puts calls text') : Puts (.print str :: calls) (text ++ text') := by
  intro s
  rw [putDigits_append, ← vgaPrint_eq hstr]
  exact congrArg ((vgaPrint str s).bind ·) (funext h)

/-! ## What printing leaves alone

It leaves the colour alone, and after each character it sends the position of the cursor to the
ports, in four bytes. -/

theorem poke_keeps {index : Nat} {entry : UInt16} {s t : Vga} (h : poke index entry s = some t) :
    t.vgaColor = s.vgaColor ∧ t.outs = s.outs := by
  obtain ⟨_, heq⟩ := Option.ite_none_right_eq_some.mp h
  cases heq
  exact ⟨rfl, rfl⟩

theorem putcharBranch_keeps {c : UInt8} {s t : Vga} (h : putcharBranch c s = some t) :
    t.vgaColor = s.vgaColor ∧ t.outs = s.outs := by
  rw [putcharBranch] at h
  split at h
  · cases h
    exact ⟨rfl, rfl⟩
  split at h
  · cases h
    exact ⟨rfl, rfl⟩
  split at h
  · cases h
    exact ⟨rfl, rfl⟩
  split at h
  · split at h
    · have hkeeps := @poke_keeps _ _ { s with vgaCol := sub32 s.vgaCol 1 } _ h
      exact hkeeps
    · cases h
      exact ⟨rfl, rfl⟩
  · obtain ⟨s₁, hpoke, heq⟩ := Option.bind_eq_some_iff.mp h
    cases heq
    change s₁.vgaColor = s.vgaColor ∧ s₁.outs = s.outs
    exact poke_keeps hpoke

theorem vgaPutchar_keeps {c : UInt8} {s s' : Vga} (h : vgaPutchar c s = some s') :
    s'.vgaColor = s.vgaColor ∧ s'.outs.length = s.outs.length + 4 := by
  obtain ⟨s₁, hbranch, hrest⟩ := Option.bind_eq_some_iff.mp h
  obtain ⟨s₂, hscroll, heq⟩ := Option.bind_eq_some_iff.mp hrest
  cases heq
  have hwrap : (putcharWrap s₁).vgaColor = s₁.vgaColor ∧ (putcharWrap s₁).outs = s₁.outs := by
    rw [putcharWrap]
    split
    · exact ⟨rfl, rfl⟩
    · exact ⟨rfl, rfl⟩
  obtain ⟨hcolor, houts⟩ : s₂.vgaColor = s.vgaColor ∧ s₂.outs = s.outs := by
    obtain ⟨hcolor, houts⟩ := putcharBranch_keeps hbranch
    rw [← hcolor, ← houts, ← hwrap.1, ← hwrap.2]
    rw [putcharScroll] at hscroll
    split at hscroll
    · rw [vgaScroll_eq] at hscroll
      cases hscroll
      exact ⟨rfl, rfl⟩
    · cases hscroll
      exact ⟨rfl, rfl⟩
  rw [← hcolor, ← houts]
  exact ⟨rfl, rfl⟩

theorem color_putDigits {text : List UInt8} {s s' : Vga} (h : putDigits text s = some s') :
    s'.vgaColor = s.vgaColor := by
  induction text generalizing s with
  | nil =>
      cases h
      rfl
  | cons c text ih =>
      obtain ⟨s₁, hput, hrest⟩ := Option.bind_eq_some_iff.mp h
      rw [ih hrest, (vgaPutchar_keeps hput).1]

theorem length_outs_putDigits {text : List UInt8} {s s' : Vga} (h : putDigits text s = some s') :
    s'.outs.length = s.outs.length + 4 * text.length := by
  induction text generalizing s with
  | nil =>
      cases h
      rfl
  | cons c text ih =>
      obtain ⟨s₁, hput, hrest⟩ := Option.bind_eq_some_iff.mp h
      rw [ih hrest, (vgaPutchar_keeps hput).2, List.length_cons]
      omega

/-! ## Calls that print -/

section

variable {b₀ : Nat → UInt16} {s : Vga} {call : VgaCall} {calls : List VgaCall}

theorem OnScreen.putDigits_emits {digits : List UInt8} (h : OnScreen b₀ s) :
    ∃ s', Drivers.putDigits digits s = some s' ∧ OnScreen b₀ s' ∧ Emits s digits s' := by
  induction digits generalizing s with
  | nil => exact ⟨s, rfl, h, .nil s⟩
  | cons c digits ih =>
      obtain ⟨s₁, hput, h₁⟩ := h.vgaPutchar c
      obtain ⟨s', hrest, h', hemits⟩ := ih h₁
      exact ⟨s', by rw [Drivers.putDigits, hput]; exact hrest, h', .char hput hemits⟩

/-- **Different amounts of text** do not look the same. -/
theorem OnScreen.length_eq_of_putDigits {text text' : List UInt8} (h : OnScreen b₀ s)
    (heq : Drivers.putDigits text s = Drivers.putDigits text' s) : text.length = text'.length := by
  obtain ⟨s', hput, _⟩ := h.putDigits_emits
  have hlen := length_outs_putDigits hput
  have hlen' := length_outs_putDigits (heq.symm.trans hput)
  omega

theorem OnScreen.vgaPrint_emits {str : List UInt8} (h : OnScreen b₀ s) (hstr : 0 ∈ str) :
    ∃ s', Drivers.vgaPrint str s = some s' ∧ OnScreen b₀ s' ∧ Emits s (cstr str) s' := by
  rw [vgaPrint_eq (Holds.of_mem hstr)]
  exact h.putDigits_emits

/-- **A call puts out its characters**, on whatever screen. -/
theorem OnScreen.exec_emits (h : OnScreen b₀ s) (hcall : call.Prints) :
    ∃ s', call.exec s = some s' ∧ OnScreen b₀ s' ∧ Emits s call.text s' := by
  cases call with
  | setColor fg bg =>
      obtain ⟨s', hexec, h'⟩ := h.exec (show (VgaCall.setColor fg bg).Legal from trivial)
      cases hexec
      exact ⟨_, rfl, h', .color fg bg (.nil _)⟩
  | putchar c =>
      obtain ⟨s₁, hput, h₁⟩ := h.vgaPutchar c
      exact ⟨s₁, hput, h₁, .char hput (.nil _)⟩
  | print str => exact h.vgaPrint_emits hcall
  | printDec num =>
      obtain ⟨hnonneg, hlt⟩ := hcall
      obtain ⟨n, rfl⟩ := Int.eq_ofNat_of_zero_le hnonneg
      have hlt' : n < 2 ^ 31 := by exact_mod_cast hlt
      change ∃ s', Drivers.vgaPrintDec n s = some s' ∧ _ ∧ Emits s (decimal n) s'
      rw [vgaPrintDec_eq hlt']
      exact h.putDigits_emits
  | _ => cases hcall

theorem OnScreen.runCalls_emits (h : OnScreen b₀ s) (hcalls : ∀ call ∈ calls, call.Prints) :
    ∃ s', runCalls calls s = some s' ∧ OnScreen b₀ s' ∧ Emits s (printed calls) s' := by
  induction calls generalizing s with
  | nil => exact ⟨s, rfl, h, .nil s⟩
  | cons call calls ih =>
      obtain ⟨s₁, hexec, h₁, hemits⟩ := h.exec_emits (hcalls call List.mem_cons_self)
      obtain ⟨s', hrest, h', hemits'⟩ := ih h₁ fun c hc ↦ hcalls c (List.mem_cons_of_mem _ hc)
      refine ⟨s', by rw [runCalls, hexec]; exact hrest, h', ?_⟩
      rw [printed, List.flatMap_cons]
      exact hemits.append hemits'

end

/-! ## Texts of calls -/

/-- The characters of a text in the source. -/
def chars (s : String) : List UInt8 := cstr (literal s)

/-- The calls print a text, in whatever colours. -/
def Prints (calls : List VgaCall) (text : List UInt8) : Prop :=
  (∀ call ∈ calls, call.Prints) ∧ printed calls = text

namespace Prints

variable {calls : List VgaCall} {text : List UInt8}

theorem nil : Prints [] [] := ⟨nofun, rfl⟩

theorem color (fg bg : UInt8) (h : Prints calls text) :
    Prints (.setColor fg bg :: calls) text :=
  ⟨List.forall_mem_cons.mpr ⟨trivial, h.1⟩, h.2⟩

theorem putchar (c : UInt8) (h : Prints calls text) : Prints (.putchar c :: calls) (c :: text) :=
  ⟨List.forall_mem_cons.mpr ⟨trivial, h.1⟩, congrArg (c :: ·) h.2⟩

theorem print {str t : List UInt8} (hstr : Holds str t) (h : Prints calls text) :
    Prints (.print str :: calls) (t ++ text) := by
  obtain ⟨hzero, rest, rfl⟩ := hstr
  refine ⟨List.forall_mem_cons.mpr ⟨?_, h.1⟩, ?_⟩
  · exact List.mem_append_right _ List.mem_cons_self
  · change cstr (t ++ 0 :: rest) ++ printed calls = _
    rw [Holds.cstr_eq ⟨hzero, rest, rfl⟩, h.2]

theorem literal (t : String) (h : Prints calls text) :
    Prints (.print (literal t) :: calls) (chars t ++ text) :=
  h.print (Holds.of_mem (zero_mem_literal t))

theorem dec {k : Nat} (hk : k < 2 ^ 31) (h : Prints calls text) :
    Prints (.printDec k :: calls) (decimal k ++ text) := by
  refine ⟨List.forall_mem_cons.mpr ⟨⟨Int.natCast_nonneg k, by exact_mod_cast hk⟩, h.1⟩, ?_⟩
  change decimal (Int.toNat (k : Int)) ++ printed calls = _
  rw [Int.toNat_natCast, h.2]

theorem putchars (c : UInt8) (k : Nat) (h : Prints calls text) :
    Prints (List.replicate k (.putchar c) ++ calls) (List.replicate k c ++ text) := by
  induction k with
  | zero => exact h
  | succ k ih => exact ih.putchar c

theorem append {calls' : List VgaCall} {text' : List UInt8} (h : Prints calls text)
    (h' : Prints calls' text') : Prints (calls ++ calls') (text ++ text') := by
  refine ⟨fun call hcall ↦ ?_, by rw [printed_append, h.2, h'.2]⟩
  exact (List.mem_append.mp hcall).elim (h.1 call) (h'.1 call)

end Prints

end KontolOS.Drivers
