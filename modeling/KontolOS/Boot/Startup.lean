import KontolOS.Boot.Kernel
import KontolOS.Drivers.Centered
import KontolOS.Shell.DeskRun

/-!
# What `kernel_main` shows and sets up

`kernel_main` once more, now with what it shows and with the memory and the files that it sets up.
The operations that concern interrupts are those of the boot sequence (`about_kernelMain`), and no
handler of an interrupt does anything to the screen, the heap or the files; so what is seen depends
on the other operations alone.

The splash screen shows a bar that gets longer and the percentage that belongs to it
(`splash_loads`).  At the end the screen shows the log and nothing else, the heap is one free block,
and there are no files (`exec_kernelMain`).
-/

namespace KontolOS.Boot

open KontolOS.Lib KontolOS.Memory KontolOS.Strings KontolOS.Drivers KontolOS.Fs KontolOS.Shell

/-! ## Operations -/

/-- What `kernel_main` and its functions do. -/
inductive Act
  | /-- something that concerns interrupts -/ op (o : Op)
  | /-- `vga_init()` -/ vgaInit
  | /-- another call of the screen driver -/ vga (call : VgaCall)
  | /-- `vga_hide_cursor()` -/ vgaHideCursor
  | /-- `vga_show_cursor()`, and what it reads -/ vgaShowCursor (start stop : UInt8)
  | /-- `memory_init()` -/ memoryInit
  | /-- `fs_init()` -/ fsInit

/-- The operation, if it concerns interrupts. -/
def Act.op? : Act → Option Op
  | .op o => some o
  | _ => none

/-- The screen, and the heap with the files. -/
structure Startup where
  /-- the screen -/
  vga : Vga
  /-- the heap and the files -/
  sys : Sys

/-- What is done to the screen, the heap and the files.  What concerns interrupts does nothing to
these; it takes its course, and may fail to end, in `Progress.next`. -/
def Act.exec : Act → Startup → Option Startup
  | .op _, s => some s
  | .vgaInit, s =>
      some { s with vga := { Drivers.vgaInit s.vga.vgaBuffer with outs := s.vga.outs } }
  | .vga call, s => (call.exec s.vga).map fun v ↦ { s with vga := v }
  | .vgaHideCursor, s => some { s with vga := Drivers.vgaHideCursor s.vga }
  | .vgaShowCursor start stop, s => some { s with vga := Drivers.vgaShowCursor start stop s.vga }
  | .memoryInit, s => some { s with sys := { s.sys with heap := Memory.memoryInit s.sys.heap.mem } }
  | .fsInit, s => some { s with sys := Fs.fsInit s.sys }

/-- One after the other. -/
def execActs : List Act → Startup → Option Startup
  | [], s => some s
  | a :: as, s => (a.exec s).bind (execActs as)

namespace Startup

/-! ## The splash screen -/

/-- The logo, the version and the tagline. -/
def splashLogo : List Act :=
  [.vga (.setColor 11 0),
    .vga (.printCentered 6 (literal "  _  __            _        _  ___  ____  ")),
    .vga (.printCentered 7 (literal " | |/ /___  _ __ | |_ ___ | |/ _ \\/ ___| ")),
    .vga (.printCentered 8 (literal " | ' // _ \\| '_ \\| __/ _ \\| | | | \\___ \\ ")),
    .vga (.printCentered 9 (literal " | . \\ (_) | | | | || (_) | | |_| |___) |")),
    .vga (.printCentered 10 (literal " |_|\\_\\___/|_| |_|\\__\\___/|_|\\___/|____/ ")),
    .vga (.setColor 7 0), .vga (.printCentered 12 (literal "Version 0.1.0")),
    .vga (.setColor 8 0),
    .vga (.printCentered 14 (literal "An operating system based on sistem reproduksi"))]

/-- The picture of the splash screen, with the frame of the bar. -/
def splashPicture : List Act :=
  [.vgaHideCursor, .vga (.setColor 15 0), .vga .clear] ++ splashLogo ++
    [.vga (.setColor 8 0), .vga (.putAt 20 19 0x5B), .vga (.putAt 20 (19 + 40 + 1) 0x5D),
    .vga (.setColor 15 0), .vga (.printCentered 22 (literal "Loading...")), .vga (.setColor 10 0)]

/-- `percent_str` -/
def percentStr (i : Nat) : List UInt8 :=
  let percent := (i + 1) * 100 / 40
  if percent = 100 then [0x31, 0x30, 0x30, 0x25, 0]
  else if 10 ≤ percent then
    [0x30 + UInt8.ofNat (percent / 10), 0x30 + UInt8.ofNat (percent % 10), 0x25, 0]
  else [0x30 + UInt8.ofNat percent, 0x25, 0]

/-- A round of the loop that animates the bar. -/
def splashStep (i : Nat) : List Act :=
  [.vga (.putAt 20 (19 + 1 + i) 0x23), .vga (.setColor 15 0),
    .vga (.printCentered 22 (literal "            ")), .vga (.printCentered 22 (percentStr i)),
    .vga (.setColor 10 0), .op (.timerSleepMs (3000 / 40))]

/-- `show_splash_screen` -/
def showSplashScreen (start stop : UInt8) : List Act :=
  splashPicture ++ (List.range 40).flatMap splashStep ++
    [.op (.timerSleepMs 200), .vga .clear, .vgaShowCursor start stop]

/-! ## The log -/

/-- A component is set up, with its line in the log. -/
def component (text : String) (acts : List Act) : List Act :=
  .vga (.print (literal text)) :: acts ++
    [.vga (.setColor 10 0), .vga (.print (literal "OK\n")), .vga (.setColor 7 0)]

/-- `init_system` -/
def initSystem (stubs : Nat → UInt32) : List Act :=
  .vga (.setColor 7 0) :: component "[*] Initializing memory manager... " [.memoryInit] ++
    component "[*] Setting up IDT... " ((idtInit stubs).map .op) ++
    component "[*] Initializing timer... " ((timerInit 100).map .op) ++
    component "[*] Initializing keyboard... " (Boot.keyboardInit.map .op) ++
    component "[*] Initializing filesystem... " [.fsInit]

/-- `kernel_main`, whose call of `shell_init` does nothing. -/
def kernelMain (stubs : Nat → UInt32) (start stop : UInt8) : List Act :=
  [.vgaInit, .vga .clear] ++ (idtInit stubs).map .op ++ (timerInit 100).map .op ++
    showSplashScreen start stop ++ initSystem stubs ++
    [.vga (.setColor 10 0), .vga (.print (literal "\n[+] System initialization complete!\n")),
      .vga (.setColor 15 0), .vga (.print (literal "[*] Starting shell...\n\n")), .op .shellRun]

/-- What the log says. -/
def bootLog : List UInt8 :=
  chars "[*] Initializing memory manager... OK\n" ++ chars "[*] Setting up IDT... OK\n" ++
    chars "[*] Initializing timer... OK\n" ++ chars "[*] Initializing keyboard... OK\n" ++
    chars "[*] Initializing filesystem... OK\n" ++
    chars "\n[+] System initialization complete!\n" ++ chars "[*] Starting shell...\n\n"

/-! ## The same program -/

/-- The operations that are not left out. -/
def concerns : Op → Bool
  | .other => false
  | _ => true

/-- What is done about interrupts. -/
def about (acts : List Act) : List Op := (acts.filterMap Act.op?).filter concerns

theorem about_append (acts acts' : List Act) :
    about (acts ++ acts') = about acts ++ about acts' := by
  rw [about, List.filterMap_append, List.filter_append, about, about]

theorem about_map (ops : List Op) : about (ops.map .op) = ops.filter concerns := by
  rw [about, List.filterMap_map]
  exact congrArg _ List.filterMap_some

theorem about_component (text : String) (acts : List Act) :
    about (component text acts) = about acts :=
  (about_append acts _).trans (List.append_nil _)

/-- The loop sleeps in every round. -/
theorem about_splashStep (n : Nat) :
    about ((List.range n).flatMap splashStep) = (splashLoop n).filter concerns := by
  induction n with
  | zero => rfl
  | succ n ih =>
      rw [List.range_succ, List.flatMap_append, about_append, ih, splashLoop, splashLoop,
        List.replicate_succ', List.flatten_append, List.filter_append]
      rfl

/-- **The boot sequence** is what `kernel_main` does about interrupts. -/
theorem about_kernelMain (stubs : Nat → UInt32) (start stop : UInt8) :
    about (kernelMain stubs start stop) = (Boot.kernelMain stubs).filter concerns := by
  have hother : ∀ ops : List Op, (Op.other :: ops).filter concerns = ops.filter concerns :=
    fun ops ↦ rfl
  have hsplash : about (showSplashScreen start stop) =
      Boot.showSplashScreen.filter concerns := by
    rw [showSplashScreen, about_append, about_append, about_splashStep, Boot.showSplashScreen,
      List.filter_append, hother]
    rfl
  have hsystem : about (initSystem stubs) = (Boot.initSystem stubs).filter concerns := by
    rw [initSystem, about_append, about_append, about_append, about_append, about_component,
      about_component, about_component, about_map, about_map, about_map, Boot.initSystem,
      List.filter_append, List.filter_append, List.filter_append, hother, hother, hother]
    rfl
  rw [kernelMain, about_append, about_append, about_append, about_append, about_append, hsplash,
    hsystem, about_map, about_map, Boot.kernelMain, List.filter_append, List.filter_append,
    List.filter_append, List.filter_append, hother]
  rfl

/-! ## The splash screen, as it is seen -/

/-- The text below the bar when `n` of its segments are there. -/
def loadingText (n : Nat) : List UInt8 :=
  if n = 0 then chars "Loading..." else decimal (n * 100 / 40) ++ [0x25]

/-- `n` of 40 segments are there. -/
structure Loading (b₀ : Nat → UInt16) (n : Nat) (v : Vga) : Prop where
  /-- the cursor is on the screen, and the memory behind it untouched -/
  visible : Visible b₀ v
  /-- the bar has brackets around it -/
  frame : charAt v (20 * vgaWidth + 19) = 0x5B ∧ charAt v (20 * vgaWidth + 60) = 0x5D
  /-- and is filled from the left -/
  bar : ∀ j < 40, charAt v (20 * vgaWidth + (20 + j)) = if j < n then 0x23 else 0x20
  /-- the percentage is in the middle of its row, and nothing else is there -/
  text : ∀ c < vgaWidth, charAt v (22 * vgaWidth + c) = centeredCell (loadingText n) c

variable {b₀ : Nat → UInt16} {v v' : Vga} {sys : Sys} {n : Nat} {acts acts' : List Act}
  {s s' s'' : Startup} {text : List UInt8}

theorem execActs_cons {a : Act} (h : a.exec s = some s') :
    execActs (a :: acts) s = execActs acts s' := by
  rw [execActs, h, Option.bind_some]

/-- A call of the screen driver -/
theorem exec_vga {call : VgaCall} (h : call.exec v = some v') :
    (Act.vga call).exec ⟨v, sys⟩ = some ⟨v', sys⟩ := by
  rw [Act.exec, h, Option.map_some]

theorem execActs_append_eq (acts acts' : List Act) (s : Startup) :
    execActs (acts ++ acts') s = (execActs acts s).bind (execActs acts') := by
  induction acts generalizing s with
  | nil => rfl
  | cons a acts ih =>
      rw [List.cons_append, execActs, execActs, Option.bind_assoc]
      exact congrArg _ (funext ih)

theorem execActs_append (h : execActs acts s = some s') (h' : execActs acts' s' = some s'') :
    execActs (acts ++ acts') s = some s'' := by
  rw [execActs_append_eq, h]
  exact h'

/-- The first of two parts succeeds if both do. -/
theorem exists_of_execActs_append (h : execActs (acts ++ acts') s = some s'') :
    ∃ s', execActs acts s = some s' ∧ execActs acts' s' = some s'' :=
  Option.bind_eq_some_iff.mp ((execActs_append_eq acts acts' s).symm.trans h)

theorem decimal_of_lt_ten (hn : n < 10) : decimal n = [0x30 + UInt8.ofNat n] := by
  rw [decimal]
  split
  next hzero => rw [hzero]; rfl
  next hne => rw [Nat.digits_of_lt 10 n hne hn]; rfl

theorem decimal_two (hn : 10 ≤ n) (hn' : n < 100) :
    decimal n = [0x30 + UInt8.ofNat (n / 10), 0x30 + UInt8.ofNat (n % 10)] := by
  rw [decimal, if_neg (by omega), Nat.digits_of_two_le_of_pos (by decide) (by omega),
    Nat.digits_of_lt 10 (n / 10) (by omega) (by omega)]
  rfl

/-- **`percent_str`** is the percentage. -/
theorem holds_percentStr (hn : n < 40) : Holds (percentStr n) (loadingText (n + 1)) := by
  have hdigit : ∀ d, d < 10 → (0x30 + UInt8.ofNat d) ≠ 0 := by
    intro d hd heq
    have htoNat := toNat_digit hd
    rw [heq, UInt8.toNat_zero] at htoNat
    omega
  rw [loadingText, if_neg (Nat.succ_ne_zero n), percentStr]
  split
  next hfull =>
    have hall : decimal 100 = [0x31, 0x30, 0x30] := by
      have hdigits : Nat.digits 10 100 = [0, 0, 1] := by norm_num
      rw [decimal, if_neg (by decide), hdigits]
      rfl
    rw [hfull, hall]
    exact ⟨by decide, [], rfl⟩
  next hpart =>
    split
    next hten =>
      rw [decimal_two hten (by omega)]
      refine ⟨?_, [], rfl⟩
      have hhigh := hdigit ((n + 1) * 100 / 40 / 10) (by omega)
      have hlow := hdigit ((n + 1) * 100 / 40 % 10) (by omega)
      simp [hhigh.symm, hlow.symm]
    next hten =>
      rw [decimal_of_lt_ten (by omega)]
      refine ⟨?_, [], rfl⟩
      have hlow := hdigit ((n + 1) * 100 / 40) (by omega)
      simp [hlow.symm]

theorem length_loadingText (hn : n ≤ 40) : (loadingText n).length ≤ 12 := by
  rw [loadingText]
  split
  · decide
  · have hlen : (decimal (n * 100 / 40)).length ≤ 2 + 1 := length_decimal_le (by omega)
    rw [List.length_append]
    exact Nat.le_trans (Nat.add_le_add_right hlen 1) (by decide)

/-- Where the percentage is, there was a text that is not longer than the blanks. -/
theorem holds_blanks : Holds (literal "            ") (List.replicate 12 0x20) := by
  have hblank : literal "            " = List.replicate 12 0x20 ++ [0] := by decide
  rw [hblank]
  exact ⟨by decide, [], rfl⟩

theorem newline_not_mem_loadingText (n : Nat) : 0x0A ∉ loadingText n := by
  rw [loadingText]
  split
  · decide
  · intro hmem
    rcases List.mem_append.mp hmem with hmem | hmem
    · exact absurd (mem_decimal hmem).1 (by decide)
    · exact absurd (List.mem_singleton.mp hmem) (by decide)

/-- The screen after a round of the loop -/
def afterStep (n : Nat) (v : Vga) : Vga :=
  let blank := drawLine 22 (margin 12) (List.replicate 12 0x20)
    (vgaSetColor 15 0 (drawLine 20 (19 + 1 + n) [0x23] v))
  vgaSetColor 10 0 (drawLine 22 (margin (loadingText (n + 1)).length) (loadingText (n + 1)) blank)

theorem execActs_splashStep (hn : n < 40) (v : Vga) (sys : Sys) :
    execActs (splashStep n) ⟨v, sys⟩ = some ⟨afterStep n v, sys⟩ := by
  have hclear := fun s ↦ vgaPrintCentered_eq holds_blanks (by decide) 22 s
  have hprint := fun s ↦
    vgaPrintCentered_eq (holds_percentStr hn) (newline_not_mem_loadingText (n + 1)) 22 s
  simp only [splashStep, execActs, Act.exec, VgaCall.exec, vgaPutAt_line, hclear, hprint,
    Option.map_some, Option.bind_some, List.length_replicate, afterStep]

/-- The row of the bar after a round -/
theorem charAt_afterStep_bar {c : Nat} (hc : c < vgaWidth) (n : Nat) (v : Vga) :
    charAt (afterStep n v) (20 * vgaWidth + c) =
      if c = 20 + n then 0x23 else charAt v (20 * vgaWidth + c) := by
  have hrow : charAt (afterStep n v) (20 * vgaWidth + c) =
      charAt (drawLine 20 (19 + 1 + n) [0x23] v) (20 * vgaWidth + c) :=
    (charAt_drawLine_of_ne (by decide) hc).trans (charAt_drawLine_of_ne (by decide) hc)
  rw [hrow, charAt_drawLine_single (by decide) hc]

/-- The row of the percentage after a round -/
theorem charAt_afterStep_text {c : Nat} (hn : n ≤ 40) (hc : c < vgaWidth)
    (hshows : charAt v (22 * vgaWidth + c) = centeredCell (loadingText n) c) :
    charAt (afterStep n v) (22 * vgaWidth + c) = centeredCell (loadingText (n + 1)) c := by
  refine charAt_centered (by decide) hc
    (centeredCell_blanks (length_loadingText hn) (by decide) (by decide) hc ?_)
  exact (charAt_drawLine_of_ne (by decide) hc).trans hshows

/-- **A round of the loop** fills one more segment, and shows the percentage for it. -/
theorem Loading.step (h : Loading b₀ n v) (hn : n < 40) : Loading b₀ (n + 1) (afterStep n v) := by
  have hwidth : vgaWidth = 80 := rfl
  refine ⟨?_, ⟨?_, ?_⟩, ?_, fun c hc ↦ charAt_afterStep_text (Nat.le_of_lt hn) hc (h.text c hc)⟩
  · exact (((h.visible.drawLine _ _ _).vgaSetColor 15 0).drawLine _ _ _).drawLine _ _ _
      |>.vgaSetColor 10 0
  · rw [charAt_afterStep_bar (by decide), if_neg (by omega), h.frame.1]
  · rw [charAt_afterStep_bar (by decide), if_neg (by omega), h.frame.2]
  · intro j hj
    rw [charAt_afterStep_bar (by omega), h.bar j hj]
    rcases Nat.lt_trichotomy j n with hlt | rfl | hgt
    · rw [if_neg (by omega), if_pos hlt, if_pos (by omega)]
    · rw [if_pos rfl, if_pos (Nat.lt_succ_self j)]
    · rw [if_neg (by omega), if_neg (by omega), if_neg (by omega)]

/-- Whether something is done beside the rows of the bar and of the text. -/
def aside : Act → Bool
  | .vga (.setColor _ _) => true
  | .vga (.printCentered row str) => row ≠ 20 && row ≠ 22 && 0 ∈ str && 0x0A ∉ cstr str
  | _ => false

/-- It does not change these rows. -/
theorem exec_aside (hv : Visible b₀ v) (hacts : ∀ a ∈ acts, aside a = true) (sys : Sys) :
    ∃ v', execActs acts ⟨v, sys⟩ = some ⟨v', sys⟩ ∧ Visible b₀ v' ∧
      ∀ row, row = 20 ∨ row = 22 → ∀ c < vgaWidth,
        charAt v' (row * vgaWidth + c) = charAt v (row * vgaWidth + c) := by
  induction acts generalizing v with
  | nil => exact ⟨v, rfl, hv, fun _ _ _ _ ↦ rfl⟩
  | cons a acts ih =>
      obtain ⟨ha, hrest⟩ := List.forall_mem_cons.mp hacts
      suffices hone : ∃ v₁, a.exec ⟨v, sys⟩ = some ⟨v₁, sys⟩ ∧ Visible b₀ v₁ ∧
          ∀ row, row = 20 ∨ row = 22 → ∀ c < vgaWidth,
            charAt v₁ (row * vgaWidth + c) = charAt v (row * vgaWidth + c) by
        obtain ⟨v₁, hexec, hv₁, hsame₁⟩ := hone
        obtain ⟨v', hexec', hv', hsame'⟩ := ih hv₁ hrest
        refine ⟨v', ?_, hv', fun row hrow c hc ↦
          (hsame' row hrow c hc).trans (hsame₁ row hrow c hc)⟩
        rw [execActs, hexec]
        exact hexec'
      cases a with
      | vga call =>
          cases call with
          | setColor fg bg => exact ⟨_, rfl, hv.vgaSetColor fg bg, fun _ _ _ _ ↦ rfl⟩
          | printCentered row str =>
              simp only [aside, Bool.and_eq_true, decide_eq_true_eq] at ha
              obtain ⟨⟨⟨hbar, htext⟩, hzero⟩, hnl⟩ := ha
              refine ⟨_, ?_, hv.drawLine row (margin (cstr str).length) (cstr str), ?_⟩
              · rw [Act.exec, VgaCall.exec, vgaPrintCentered_eq (Holds.of_mem hzero) hnl,
                  Option.map_some]
              · intro row' hrow' c hc
                refine charAt_drawLine_of_ne ?_ hc
                rcases hrow' with rfl | rfl
                · exact hbar.symm
                · exact htext.symm
          | _ => cases ha
      | _ => cases ha

/-- The frame of the bar, and the first text below it -/
def framed (v : Vga) : Vga :=
  let closed := drawLine 20 (19 + 40 + 1) [0x5D] (drawLine 20 19 [0x5B] (vgaSetColor 8 0 v))
  vgaSetColor 10 0 (drawLine 22 (margin (loadingText 0).length) (loadingText 0)
    (vgaSetColor 15 0 closed))

theorem execActs_framed (v : Vga) (sys : Sys) :
    execActs [.vga (.setColor 8 0), .vga (.putAt 20 19 0x5B), .vga (.putAt 20 (19 + 40 + 1) 0x5D),
      .vga (.setColor 15 0), .vga (.printCentered 22 (literal "Loading...")),
      .vga (.setColor 10 0)] ⟨v, sys⟩ = some ⟨framed v, sys⟩ := by
  have hloading : Holds (literal "Loading...") (loadingText 0) := Holds.of_mem (zero_mem_literal _)
  have hprint := fun s ↦ vgaPrintCentered_eq hloading (newline_not_mem_loadingText 0) 22 s
  simp only [execActs, Act.exec, VgaCall.exec, vgaPutAt_line, hprint, Option.map_some,
    Option.bind_some, framed]

/-- On a blank screen, the bar is empty. -/
theorem loading_framed (hv : Visible b₀ v) (hcell : ∀ row, row = 20 ∨ row = 22 → ∀ c < vgaWidth,
    charAt v (row * vgaWidth + c) = 0x20) : Loading b₀ 0 (framed v) := by
  have hwidth : vgaWidth = 80 := rfl
  have hbar : ∀ c < vgaWidth, charAt (framed v) (20 * vgaWidth + c) =
      if c = 60 then 0x5D else if c = 19 then 0x5B else 0x20 := by
    intro c hc
    have hrow : charAt (framed v) (20 * vgaWidth + c) = charAt
        (drawLine 20 60 [0x5D] (drawLine 20 19 [0x5B] (vgaSetColor 8 0 v))) (20 * vgaWidth + c) :=
      charAt_drawLine_of_ne (by decide) hc
    rw [hrow, charAt_drawLine_single (by decide) hc, charAt_drawLine_single (by decide) hc,
      ← hcell 20 (.inl rfl) c hc]
    rfl
  refine ⟨?_, ⟨?_, ?_⟩, ?_, ?_⟩
  · exact (((hv.vgaSetColor 8 0).drawLine _ _ _).drawLine _ _ _ |>.vgaSetColor 15 0).drawLine _ _ _
      |>.vgaSetColor 10 0
  · rw [hbar 19 (by decide), if_neg (by decide), if_pos rfl]
  · rw [hbar 60 (by decide), if_pos rfl]
  · intro j hj
    rw [hbar (20 + j) (by omega), if_neg (by omega), if_neg (by omega), if_neg (Nat.not_lt_zero j)]
  · intro c hc
    refine charAt_centered (by decide) hc ?_
    exact (charAt_drawLine_of_ne (by decide) hc).trans
      ((charAt_drawLine_of_ne (by decide) hc).trans (hcell 22 (.inr rfl) c hc))

/-- **The picture** is there, with an empty bar. -/
theorem loading_splashPicture (hbeyond : ∀ i, vgaHeight * vgaWidth ≤ i → v.vgaBuffer i = b₀ i)
    (sys : Sys) :
    ∃ v', execActs splashPicture ⟨v, sys⟩ = some ⟨v', sys⟩ ∧ Loading b₀ 0 v' := by
  obtain ⟨v₂, hclear, hv₂⟩ := Visible.of_vgaClear (v := vgaSetColor 15 0 (vgaHideCursor v)) hbeyond
  obtain ⟨_, hclear', hblank⟩ := images_vgaClear (vgaSetColor 15 0 (vgaHideCursor v))
  cases hclear'.symm.trans hclear
  have haside : ∀ a ∈ splashLogo, aside a = true := by decide
  obtain ⟨v₃, hexec, hv₃, hsame⟩ := exec_aside hv₂ haside sys
  have hclear : VgaCall.clear.exec (vgaSetColor 15 0 (vgaHideCursor v)) = some v₂ := hclear
  have hbegin : execActs [.vgaHideCursor, .vga (.setColor 15 0), .vga .clear] ⟨v, sys⟩ =
      some ⟨v₂, sys⟩ := by
    rw [execActs_cons rfl, execActs_cons rfl, execActs_cons (exec_vga hclear), execActs]
  have hlogo := execActs_append hbegin hexec
  have hall := execActs_append hlogo (execActs_framed v₃ sys)
  rw [splashPicture]
  refine ⟨framed v₃, hall, loading_framed hv₃ fun row hrow c hc ↦ ?_⟩
  rw [hsame row hrow c hc]
  refine hblank.char_eq _ ?_
  have hsize : vgaHeight * vgaWidth = 2000 := rfl
  have hwidth : vgaWidth = 80 := rfl
  rcases hrow with rfl | rfl <;> omega

/-- The rounds of the loop -/
theorem Loading.rounds (h : Loading b₀ 0 v) (sys : Sys) (hn : n ≤ 40) :
    ∃ v', execActs ((List.range n).flatMap splashStep) ⟨v, sys⟩ = some ⟨v', sys⟩ ∧
      Loading b₀ n v' := by
  induction n with
  | zero => exact ⟨v, rfl, h⟩
  | succ n ih =>
      obtain ⟨v₁, hexec, h₁⟩ := ih (Nat.le_of_succ_le hn)
      refine ⟨afterStep n v₁, ?_, h₁.step hn⟩
      rw [List.range_succ, List.flatMap_append, List.flatMap_singleton]
      exact execActs_append hexec (execActs_splashStep hn v₁ sys)

/-- **The bar and the percentage agree**, after every round of the loop: `n` of 40 segments are
filled, and the text below says `n * 100 / 40` percent, and nothing is left of what it said before.
The bar is in its place whatever the screen showed before the splash screen. -/
theorem splash_loads (hbeyond : ∀ i, vgaHeight * vgaWidth ≤ i → v.vgaBuffer i = b₀ i) (sys : Sys)
    (hn : n ≤ 40) :
    ∃ v', execActs (splashPicture ++ (List.range n).flatMap splashStep) ⟨v, sys⟩ =
      some ⟨v', sys⟩ ∧ Loading b₀ n v' := by
  obtain ⟨v₁, hpicture, h₁⟩ := loading_splashPicture hbeyond sys
  obtain ⟨v', hrounds, h'⟩ := h₁.rounds sys hn
  exact ⟨v', execActs_append hpicture hrounds, h'⟩

theorem splash_loads_half : ∃ v', execActs (splashPicture ++ (List.range 20).flatMap splashStep)
    ⟨vgaInit fun _ ↦ 0, (bootWorld (Clients.init fun _ ↦ 0)).sys⟩ =
      some ⟨v', (bootWorld (Clients.init fun _ ↦ 0)).sys⟩ ∧
    charAt v' (20 * vgaWidth + 39) = 0x23 ∧ charAt v' (20 * vgaWidth + 40) = 0x20 := by
  have hbeyond : ∀ i, vgaHeight * vgaWidth ≤ i →
      (vgaInit fun _ ↦ 0).vgaBuffer i = (fun _ ↦ 0 : Nat → UInt16) i := fun _ _ ↦ rfl
  obtain ⟨v', hexec, h⟩ := splash_loads hbeyond (bootWorld (Clients.init fun _ ↦ 0)).sys
    (show 20 ≤ 40 by decide)
  exact ⟨v', hexec, h.bar 19 (by decide), h.bar 20 (by decide)⟩

/-! ## The log, as it is seen -/

/-- Whatever is on the screen, some text is printed behind it, and the heap and the files become
what `f` makes of them. -/
def Logs (b₀ : Nat → UInt16) (acts : List Act) (text : List UInt8) (f : Sys → Sys) : Prop :=
  ∀ v sys, Visible b₀ v → ∃ v', execActs acts ⟨v, sys⟩ = some ⟨v', f sys⟩ ∧ Visible b₀ v' ∧
    Emits v text v'

namespace Logs

variable {text' : List UInt8} {f g : Sys → Sys}

theorem nil : Logs b₀ [] [] id := fun v _ hv ↦ ⟨v, rfl, hv, .nil v⟩

theorem append (h : Logs b₀ acts text f) (h' : Logs b₀ acts' text' g) :
    Logs b₀ (acts ++ acts') (text ++ text') (g ∘ f) := by
  intro v sys hv
  obtain ⟨v₁, hexec, hv₁, hemits⟩ := h v sys hv
  obtain ⟨v', hexec', hv', hemits'⟩ := h' v₁ (f sys) hv₁
  exact ⟨v', execActs_append hexec hexec', hv', hemits.append hemits'⟩

/-- A call that prints -/
theorem vga {call : VgaCall} (h : call.Prints) : Logs b₀ [.vga call] call.text id := by
  intro v sys hv
  obtain ⟨v', hexec, hv', hemits⟩ := hv.exec_emits h
  refine ⟨v', ?_, hv', hemits⟩
  rw [execActs_cons (exec_vga hexec), execActs]
  rfl

/-- A string -/
theorem print (text : String) : Logs b₀ [.vga (.print (literal text))] (chars text) id :=
  vga (zero_mem_literal text)

/-- A colour -/
theorem color (fg bg : UInt8) : Logs b₀ [.vga (.setColor fg bg)] [] id := vga trivial

/-- What concerns interrupts is not seen. -/
theorem ops (os : List Op) : Logs b₀ (os.map .op) [] id := by
  induction os with
  | nil => exact nil
  | cons o os ih =>
      intro v sys hv
      rw [List.map_cons, execActs_cons rfl]
      exact ih v sys hv

theorem memoryInit : Logs b₀ [.memoryInit] []
    fun s ↦ { s with heap := Memory.memoryInit s.heap.mem } := fun v _ hv ↦ ⟨v, rfl, hv, .nil v⟩

theorem fsInit : Logs b₀ [.fsInit] [] Fs.fsInit := fun v _ hv ↦ ⟨v, rfl, hv, .nil v⟩

/-- **A component** has a line in the log. -/
theorem component (text : String) (h : Logs b₀ acts [] f) :
    Logs b₀ (Startup.component text acts) (chars text ++ chars "OK\n") f := by
  have hwhite : Logs b₀ [.vga (.setColor 7 0)] [] id := color 7 0
  have hok := ((color 10 0).append (print "OK\n")).append hwhite
  have hall := ((print text).append h).append hok
  rwa [List.append_nil, List.append_nil, List.nil_append] at hall

end Logs

/-- `init_system` -/
theorem logs_initSystem (stubs : Nat → UInt32) : Logs b₀ (initSystem stubs)
    (chars "[*] Initializing memory manager... OK\n" ++ chars "[*] Setting up IDT... OK\n" ++
      chars "[*] Initializing timer... OK\n" ++ chars "[*] Initializing keyboard... OK\n" ++
      chars "[*] Initializing filesystem... OK\n")
    fun s ↦ Fs.fsInit { s with heap := Memory.memoryInit s.heap.mem } := by
  have hmemory : Logs b₀ _ _ _ := Logs.memoryInit.component "[*] Initializing memory manager... "
  have hidt : Logs b₀ _ _ _ := (Logs.ops (idtInit stubs)).component "[*] Setting up IDT... "
  have htimer : Logs b₀ _ _ _ := (Logs.ops (timerInit 100)).component "[*] Initializing timer... "
  have hkeyboard : Logs b₀ _ _ _ :=
    (Logs.ops Boot.keyboardInit).component "[*] Initializing keyboard... "
  have hfs : Logs b₀ _ _ _ := Logs.fsInit.component "[*] Initializing filesystem... "
  exact (((((Logs.color 7 0).append hmemory).append hidt).append htimer).append
    hkeyboard).append hfs

/-- `show_splash_screen` leaves a blank screen. -/
theorem exec_showSplashScreen (hv : Visible b₀ v) (start stop : UInt8) (sys : Sys) :
    ∃ v', execActs (showSplashScreen start stop) ⟨v, sys⟩ = some ⟨v', sys⟩ ∧ Visible b₀ v' ∧
      Images ⟨0, fun _ ↦ 0x20⟩ v' := by
  obtain ⟨v₁, hpicture, h₁⟩ := loading_splashPicture hv.beyond sys
  obtain ⟨v₂, hrounds, h₂⟩ := h₁.rounds sys (Nat.le_refl 40)
  obtain ⟨v₃, hclear, hv₃⟩ := h₂.visible.vgaClear
  obtain ⟨_, hclear', hblank⟩ := images_vgaClear v₂
  cases hclear'.symm.trans hclear
  have hexec : VgaCall.clear.exec v₂ = some v₃ := hclear
  have hend : execActs [.op (.timerSleepMs 200), .vga .clear, .vgaShowCursor start stop] ⟨v₂, sys⟩ =
      some ⟨vgaShowCursor start stop v₃, sys⟩ := by
    rw [execActs_cons rfl, execActs_cons (exec_vga hexec), execActs_cons rfl, execActs]
  have hall := execActs_append (execActs_append hpicture hrounds) hend
  rw [showSplashScreen]
  exact ⟨_, hall, hv₃.vgaShowCursor start stop, hblank.vgaShowCursor start stop⟩

/-- Up to the splash screen -/
theorem exec_beforeSplash (stubs : Nat → UInt32) (v : Vga) (sys : Sys) :
    ∃ v', execActs ([.vgaInit, .vga .clear] ++ (idtInit stubs).map .op ++
        (timerInit 100).map .op) ⟨v, sys⟩ = some ⟨v', sys⟩ ∧ Visible v.vgaBuffer v' := by
  obtain ⟨v₁, hclear, hv₁⟩ := Visible.of_vgaClear
    (v := { Drivers.vgaInit v.vgaBuffer with outs := v.outs }) fun i _ ↦ Eq.refl (v.vgaBuffer i)
  have hclear : VgaCall.clear.exec { Drivers.vgaInit v.vgaBuffer with outs := v.outs } = some v₁ :=
    hclear
  have hinit : execActs [.vgaInit, .vga .clear] ⟨v, sys⟩ = some ⟨v₁, sys⟩ := by
    rw [execActs_cons rfl, execActs_cons (exec_vga hclear), execActs]
  obtain ⟨v₂, hidt, hv₂, _⟩ := Logs.ops (idtInit stubs) v₁ sys hv₁
  obtain ⟨v₃, htimer, hv₃, _⟩ := Logs.ops (timerInit 100) v₂ sys hv₂
  exact ⟨v₃, execActs_append (execActs_append hinit hidt) htimer, hv₃⟩

/-- **What `kernel_main` shows and sets up**, whatever memory and screen contain before: the screen
is cleared and shows the log, and the heap and the files are set up. -/
theorem exec_kernelMain (stubs : Nat → UInt32) (start stop : UInt8) (v : Vga) (sys : Sys) :
    ∃ v₀ v', execActs (kernelMain stubs start stop) ⟨v, sys⟩ =
        some ⟨v', Fs.fsInit { sys with heap := Memory.memoryInit sys.heap.mem }⟩ ∧
      Images ⟨0, fun _ ↦ 0x20⟩ v₀ ∧ Emits v₀ bootLog v' ∧ Visible v.vgaBuffer v' := by
  obtain ⟨v₁, hbefore, hv₁⟩ := exec_beforeSplash stubs v sys
  obtain ⟨v₀, hsplash, hv₀, hblank⟩ := exec_showSplashScreen hv₁ start stop sys
  -- the log
  obtain ⟨v₄, hsystem, hv₄, hemits₄⟩ := logs_initSystem stubs v₀ sys hv₀
  have hshell : Logs v.vgaBuffer _ _ _ := Logs.ops [.shellRun]
  have hcomplete : Logs v.vgaBuffer _ _ _ :=
    (Logs.color 10 0).append (.print "\n[+] System initialization complete!\n")
  have hready := ((hcomplete.append (.color 15 0)).append
    (.print "[*] Starting shell...\n\n")).append hshell
  obtain ⟨v', hmessages, hv', hemits'⟩ := hready v₄ _ hv₄
  have hall := execActs_append (execActs_append (execActs_append hbefore hsplash) hsystem) hmessages
  rw [kernelMain]
  refine ⟨v₀, v', hall, hblank, ?_, hv'⟩
  have hlog := hemits₄.append hemits'
  rw [bootLog]
  simpa only [List.append_nil, List.nil_append, List.append_assoc] using hlog

end Startup

end KontolOS.Boot
