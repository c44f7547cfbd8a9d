import KontolOS.Lib.Run
import KontolOS.Shell.Arguments

/-!
# One command for each line

`shell_run` executes a command each time `keyboard_readline` returns.  It returns at a newline,
but also when the 255 characters that the buffer has room for are there; so a line that gets too
long is executed before Enter is pressed, and what follows on the same line is executed as a
command of its own (`exists_run_two_commands`).  As long as no line gets that long, each command
is one line, and each line is one command (`run_oneLine_iff`).
-/

namespace KontolOS.Shell

open KontolOS.Lib KontolOS.Strings KontolOS.Drivers

/-- What was typed is a line: it ends with a newline and has no other. -/
def OneLine (typed : List UInt8) : Prop := ∃ t, typed = t ++ [0x0A] ∧ 0x0A ∉ t

/-- Before there is a newline, the keys bring a line to 255 characters, where a backspace takes
back the last one. -/
def FillsBuffer (keys : List UInt8) : Prop :=
  ∃ p, p <+: keys ∧ 0x0A ∉ p ∧ (typeChars [] p).length = 255

/-- The two ways a turn can go. -/
def Turn.Outcome (turn : Turn) : Prop :=
  (OneLine turn.typed ∧ ¬ FillsBuffer turn.keys) ∨ (0x0A ∉ turn.typed ∧ FillsBuffer turn.keys)

variable {ω : Type} {handlers : Nat → Handler ω} {s s' : Session ω} {turn : Turn}
  {turns : List Turn} {keys typed p t rest : List UInt8} {r : Readline} {c : UInt8}

/-- What begins a stream and has no newline ends before the first newline of the stream. -/
theorem prefix_of_not_mem (hp : p <+: t ++ c :: rest) (hc : c ∉ p) : p <+: t := by
  have ht : t ++ [c] <+: t ++ c :: rest := ⟨rest, (List.append_cons t c rest).symm⟩
  rcases Nat.lt_or_ge t.length p.length with hlt | hle
  · have hlen : (t ++ [c]).length ≤ p.length := by
      rw [List.length_append]
      exact hlt
    have hpre : t ++ [c] <+: p := List.prefix_of_prefix_length_le ht hp hlen
    exact absurd (hpre.subset (List.mem_append_right t (List.mem_singleton.mpr rfl))) hc
  · exact List.prefix_of_prefix_length_le hp (List.prefix_append t _) hle

/-! ## A turn -/

/-- **A call of `keyboard_readline`** takes one line, or the line was too long. -/
theorem readline_typed (hout : Outcome 255 [] keys (.returned r rest))
    (htyped : typed ++ rest = keys) :
    (OneLine typed ∧ ¬ FillsBuffer keys) ∨ (0x0A ∉ typed ∧ FillsBuffer keys) := by
  cases hout with
  | newline t _ hkeys hnl hbelow hr =>
      refine .inl ⟨⟨t, ?_, hnl⟩, ?_⟩
      · rw [hkeys, List.append_cons] at htyped
        exact List.append_cancel_right htyped
      · rintro ⟨p, hp, hpnl, hfull⟩
        rw [hkeys] at hp
        exact Nat.ne_of_lt (hbelow p (prefix_of_not_mem hp hpnl)) hfull
  | full t _ hkeys hnl hfull hr =>
      have heq : typed = t := List.append_cancel_right (htyped.trans hkeys)
      rw [heq]
      exact .inr ⟨hnl, t, hkeys ▸ List.prefix_append t rest, hnl, hfull⟩

theorem ShellTurn.outcome (h : ShellTurn handlers s turn s') : turn.Outcome := by
  obtain ⟨v, r, rest, _, hread, hkeys, htyped, _⟩ := h
  rcases keyboardReadline_outcome (by decide) (by decide) hread with
    ⟨r', hwait, _⟩ | ⟨r', rest', hreturn, hout⟩
  · cases hwait
  · cases hreturn
    rw [Turn.Outcome, hkeys]
    exact readline_typed hout htyped

/-! ## Runs -/

theorem run_outcome (hr : Run (ShellTurn handlers) s turns s') :
    ∀ turn ∈ turns, turn.Outcome := by
  refine hr.trace_invariant (I := fun ts _ ↦ ∀ turn ∈ ts, turn.Outcome) ?_
    fun _ hmem ↦ nomatch hmem
  rintro ts s turn s' ih hturn turn' hmem
  rcases List.mem_append.mp hmem with hold | hnew
  · exact ih turn' hold
  · rw [List.mem_singleton.mp hnew]
    exact hturn.outcome

theorem count_of_oneLine (h : OneLine typed) : typed.count 0x0A = 1 := by
  obtain ⟨t, rfl, ht⟩ := h
  rw [List.count_append, List.count_eq_zero.mpr ht]
  rfl

/-- As many newlines are taken as there are turns. -/
theorem count_flatMap_typed (h : ∀ turn ∈ turns, OneLine turn.typed) :
    (turns.flatMap Turn.typed).count 0x0A = turns.length := by
  induction turns with
  | nil => rfl
  | cons turn turns ih =>
      rw [List.flatMap_cons, List.count_append, count_of_oneLine (h turn List.mem_cons_self),
        ih fun turn hturn ↦ h turn (List.mem_cons_of_mem _ hturn), Nat.add_comm]
      rfl

/-- **One command for each line**, in every run of the shell: each call of `keyboard_readline`
takes exactly one newline, at its end, and then there are as many commands as newlines taken, if
and only if no call is made with characters to come that fill the buffer before the first
newline.  And a call that has a newline to come does return. -/
theorem run_oneLine_iff (hr : Run (ShellTurn handlers) s turns s') :
    (((∀ turn ∈ turns, OneLine turn.typed) ∧
        (turns.flatMap Turn.typed).count 0x0A = turns.length) ↔
      ∀ turn ∈ turns, ¬ FillsBuffer turn.keys) ∧
    ∀ b₀ v, OnScreen b₀ v → shellBufferSize ≤ s'.commandBuffer.length → 0x0A ∈ s'.keys →
      ∃ r rest, keyboardReadline s'.commandBuffer shellBufferSize v s'.keys =
        some (.returned r rest) := by
  have hturns : ∀ turn ∈ turns, turn.Outcome := run_outcome hr
  refine ⟨⟨?_, ?_⟩, ?_⟩
  · rintro ⟨hlines, _⟩ turn hturn hfull
    rcases hturns turn hturn with ⟨_, hfree⟩ | ⟨hnl, _⟩
    · exact hfree hfull
    · obtain ⟨t, heq, _⟩ := hlines turn hturn
      apply hnl
      rw [heq]
      exact List.mem_append_right t (List.mem_singleton.mpr rfl)
  · intro hfree
    have hlines : ∀ turn ∈ turns, OneLine turn.typed := fun turn hturn ↦
      ((hturns turn hturn).resolve_right fun h ↦ hfree turn hturn h.2).1
    exact ⟨hlines, count_flatMap_typed hlines⟩
  · rintro b₀ v hv hbuffer hnl
    obtain ⟨x, hread⟩ := exists_keyboardReadline (by decide) (by decide) hbuffer hv s'.keys
    rcases keyboardReadline_outcome (by decide) (by decide) hread with
      ⟨r, rfl, hout⟩ | ⟨r, rest, rfl, _⟩
    · cases hout with
      | waiting hnone _ _ => exact absurd hnl hnone
    · exact ⟨_, rest, hread⟩

/-! ## A line that is too long -/

variable {b₀ : Nat → UInt16} {line word buffer name : List UInt8}

/-- Keys that are neither Enter nor backspaces are appended to the line. -/
theorem readlineLoop_word (keys : List UInt8) (hr : Readable b₀ 256 r) (hline : Enters line r)
    (hroom : line.length + word.length ≤ 255) (hword : ∀ c ∈ word, c ≠ 0x0A ∧ c ≠ 0x08) :
    ∃ r', readlineLoop 256 (word ++ keys) r = readlineLoop 256 keys r' ∧ Readable b₀ 256 r' ∧
      Enters (line ++ word) r' := by
  induction word generalizing line r with
  | nil => exact ⟨r, rfl, hr, by rwa [List.append_nil]⟩
  | cons c word ih =>
      rw [List.length_cons] at hroom
      obtain ⟨hnl, hback⟩ := hword c List.mem_cons_self
      have hi : r.i < sub32 256 1 := by
        change r.i < 255
        rw [hline.i_eq]
        omega
      obtain ⟨r₁, hkey, hr₁⟩ := hr.readlineKey (Nat.lt_trans hi (by decide)) c
      have hline₁ : Enters (line ++ [c]) r₁ := by
        have htyped := hline.readlineKey (by omega) hkey
        rwa [typeChar, if_neg hback] at htyped
      have hroom₁ : (line ++ [c]).length + word.length ≤ 255 := by
        rw [List.length_append, List.length_singleton]
        omega
      obtain ⟨r', hloop, hr', hline'⟩ :=
        ih hr₁ hline₁ hroom₁ fun d hd ↦ hword d (List.mem_cons_of_mem c hd)
      refine ⟨r', ?_, hr', List.append_cons line c word ▸ hline'⟩
      rw [List.cons_append, readlineLoop, if_pos hi, if_neg hnl, hkey]
      exact hloop

/-- A line that is one word is parsed as it is. -/
theorem parseArgs_word (h : Holds buffer (c :: word))
    (hword : ∀ d ∈ c :: word, isBlank d = false) :
    parseArgs buffer maxArgs = some (buffer, [0]) := by
  obtain ⟨hzero, rest, rfl⟩ := h
  have hround := parseLoop_word (u := []) nofun hword hzero (.inl rfl) [] [] rest 15
  rw [if_pos rfl] at hround
  exact hround.trans (parseLoop_end (getElem?_length_append (c :: word) rest 0) [0] 15)

/-- No command has a name that begins with another character. -/
theorem findCommand_eq_none (names : List (List UInt8)) (i : Nat)
    (h : ∀ name ∈ names, name ≠ [] ∧ name.head? ≠ some c) :
    findCommand (c :: line) names i = some none := by
  induction names generalizing i with
  | nil => rfl
  | cons name names ih =>
      obtain ⟨hne, hhead⟩ := h name List.mem_cons_self
      obtain ⟨d, rest, rfl⟩ := List.exists_cons_of_ne_nil hne
      have hd : d ≠ c := fun heq ↦ hhead (congrArg some heq)
      have hcmp : strcmp (c :: line) (d :: rest) = some ((c.toNat : Int) - (d.toNat : Int)) :=
        if_neg fun heq ↦ hd heq.2.symm
      have hne : (c.toNat : Int) - (d.toNat : Int) ≠ 0 := by
        have hnat : c.toNat ≠ d.toNat := fun heq ↦ hd (UInt8.toNat_inj.mp heq).symm
        omega
      rw [findCommand, hcmp, Option.bind_eq_bind, Option.bind_some, if_neg hne]
      exact ih (i + 1) fun name hname ↦ h name (List.mem_cons_of_mem _ hname)

/-- **An unknown command** is reported, and that is all. -/
theorem executeCommand_word (handlers : Nat → Handler ω) (hline : Holds s.commandBuffer (c :: word))
    (hword : ∀ d ∈ c :: word, isBlank d = false)
    (hnames : ∀ name ∈ commands, name ≠ [] ∧ name.head? ≠ some c)
    (hv : OnScreen b₀ s.vga) :
    ∃ vga, executeCommand handlers s = some { s with vga := vga } ∧ OnScreen b₀ vga := by
  have hcolor : ∀ {v : Vga} fg bg, OnScreen b₀ v → OnScreen b₀ (vgaSetColor fg bg v) :=
    fun fg bg h ↦ ⟨h.toConfined.of_eq rfl rfl, h.row_lt, h.col_lt⟩
  have hzero : (0 : UInt8) ∈ s.commandBuffer := by
    obtain ⟨_, rest, heq⟩ := hline
    rw [heq]
    exact List.mem_append_right _ List.mem_cons_self
  obtain ⟨v₁, hprint₁, hv₁⟩ :=
    (hcolor 12 0 hv).vgaPrint (zero_mem_literal "Unknown command: ")
  obtain ⟨v₂, hprint₂, hv₂⟩ := hv₁.vgaPrint hzero
  obtain ⟨v₃, hprint₃, hv₃⟩ :=
    hv₂.vgaPrint (zero_mem_literal "\nType 'help' for available commands.\n")
  have hreport : unknownCommand s.commandBuffer s.vga = some (vgaSetColor 15 0 v₃) := by
    rw [unknownCommand, hprint₁, Option.bind_eq_bind, Option.bind_some, hprint₂,
      Option.bind_some, hprint₃]
    rfl
  have hfind : findCommand s.commandBuffer commands 0 = some none := by
    obtain ⟨_, b, heq, _⟩ := Holds.cons_iff.mp hline
    rw [heq]
    exact findCommand_eq_none commands 0 hnames
  refine ⟨vgaSetColor 15 0 v₃, ?_, hcolor 15 0 hv₃⟩
  rw [executeCommand, parseArgs_word hline hword]
  simp only [Option.bind_eq_bind, Option.bind_some, List.drop_zero, hfind, hreport]
  rfl

/-- A word that is typed to the shell, and is no command. -/
structure UnknownWord (word : List UInt8) : Prop where
  /-- it has no blank, and no key that is not put into the line -/
  plain : ∀ d ∈ word, isBlank d = false ∧ d ≠ 0x0A ∧ d ≠ 0x08 ∧ d ≠ 0
  /-- no command begins with its first character -/
  head : ∃ c w, word = c :: w ∧ ∀ name ∈ commands, name ≠ [] ∧ name.head? ≠ some c

theorem OnScreen.printPrompt {v : Vga} (h : OnScreen b₀ v) :
    ∃ v', printPrompt v = some v' ∧ OnScreen b₀ v' := by
  have hgreen : OnScreen b₀ (vgaSetColor 10 0 v) :=
    ⟨h.toConfined.of_eq rfl rfl, h.row_lt, h.col_lt⟩
  obtain ⟨v', hprint, h'⟩ := hgreen.vgaPrint (zero_mem_literal "kontol> ")
  refine ⟨vgaSetColor 15 0 v', ?_, h'.toConfined.of_eq rfl rfl, h'.row_lt, h'.col_lt⟩
  rw [Shell.printPrompt, hprint]
  rfl

/-- A turn in which such a word is read, however the loop is left. -/
theorem exists_shellTurn (hv : OnScreen b₀ s.vga) (hword : UnknownWord word)
    (hloop : ∀ v, OnScreen b₀ v → ∃ r, Readable b₀ 256 r ∧ Enters word r ∧ word.length < 256 ∧
      readlineLoop 256 s.keys ⟨0, s.commandBuffer, v⟩ = some (.returned r rest))
    (htyped : typed ++ rest = s.keys) :
    ∃ s', ShellTurn handlers s ⟨s.keys, typed⟩ s' ∧ OnScreen b₀ s'.vga ∧
      256 ≤ s'.commandBuffer.length ∧ s'.keys = rest ∧ s'.rest = s.rest := by
  obtain ⟨v, hprompt, hv'⟩ := OnScreen.printPrompt hv
  obtain ⟨r, hr, hline, hlen, hread⟩ := hloop v hv'
  have hroom : r.i < r.buffer.length :=
    Nat.lt_of_lt_of_le (hline.i_eq ▸ hlen) hr.length
  have hbuffer : Holds (r.buffer.set r.i 0) word := by
    obtain ⟨tail, heq⟩ := hline.buffer_eq
    rw [heq, hline.i_eq] at hroom ⊢
    cases tail with
    | nil =>
        rw [List.append_nil] at hroom
        exact absurd hroom (Nat.lt_irrefl _)
    | cons d tail =>
        rw [set_length_append]
        exact ⟨fun hmem ↦ (hword.plain 0 hmem).2.2.2 rfl, tail, rfl⟩
  obtain ⟨c, w, heq, hnames⟩ := hword.head
  let s₁ : Session ω :=
    { s with vga := r.vga, commandBuffer := r.buffer.set r.i 0, keys := rest }
  have hline₁ : Holds s₁.commandBuffer (c :: w) := heq ▸ hbuffer
  obtain ⟨vga, hexec, hvga⟩ := executeCommand_word handlers hline₁
    (fun d hd ↦ (hword.plain d (heq ▸ hd)).1) hnames hr.vga
  refine ⟨_, ⟨v, _, rest, hprompt, keyboardReadline_of_loop hread hroom, rfl, htyped, hexec⟩, hvga,
    ?_, rfl, rfl⟩
  change 256 ≤ (r.buffer.set r.i 0).length
  rw [List.length_set]
  exact hr.length

/-- A word of 255 characters is executed as soon as they are there. -/
theorem exists_turn_full (hv : OnScreen b₀ s.vga) (hb : 256 ≤ s.commandBuffer.length)
    (hword : UnknownWord word) (hlen : word.length = 255) (hkeys : word ++ rest = s.keys) :
    ∃ s', ShellTurn handlers s ⟨s.keys, word⟩ s' ∧ OnScreen b₀ s'.vga ∧
      256 ≤ s'.commandBuffer.length ∧ s'.keys = rest ∧ s'.rest = s.rest := by
  apply exists_shellTurn hv hword ?_ hkeys
  intro v hv'
  have hstart : Enters [] ⟨0, s.commandBuffer, v⟩ := ⟨rfl, _, rfl⟩
  have hroom : ([] : List UInt8).length + word.length ≤ 255 := by simp [hlen]
  obtain ⟨r, hloop, hr, hline⟩ := readlineLoop_word rest ⟨hv', hb⟩ hstart hroom
    fun d hd ↦ ⟨(hword.plain d hd).2.1, (hword.plain d hd).2.2.1⟩
  have hfull : ¬ r.i < sub32 256 1 := by
    change ¬ r.i < 255
    rw [hline.i_eq, List.nil_append, hlen]
    exact Nat.lt_irrefl _
  refine ⟨r, hr, hline, by omega, ?_⟩
  rw [← hkeys, hloop]
  cases rest with
  | nil => exact if_neg hfull
  | cons d rest => exact if_neg hfull

/-- A shorter word is executed at the newline. -/
theorem exists_turn_newline (hv : OnScreen b₀ s.vga) (hb : 256 ≤ s.commandBuffer.length)
    (hword : UnknownWord word) (hlen : word.length < 255)
    (hkeys : word ++ 0x0A :: rest = s.keys) :
    ∃ s', ShellTurn handlers s ⟨s.keys, word ++ [0x0A]⟩ s' ∧ OnScreen b₀ s'.vga ∧
      256 ≤ s'.commandBuffer.length ∧ s'.keys = rest ∧ s'.rest = s.rest := by
  apply exists_shellTurn hv hword ?_ (by rw [← List.append_cons, hkeys])
  intro v hv'
  have hstart : Enters [] ⟨0, s.commandBuffer, v⟩ := ⟨rfl, _, rfl⟩
  have hroom : ([] : List UInt8).length + word.length ≤ 255 := by
    rw [List.length_nil, Nat.zero_add]
    exact Nat.le_of_lt hlen
  obtain ⟨r, hloop, hr, hline⟩ := readlineLoop_word (0x0A :: rest) ⟨hv', hb⟩ hstart hroom
    fun d hd ↦ ⟨(hword.plain d hd).2.1, (hword.plain d hd).2.2.1⟩
  have hmore : r.i < sub32 256 1 := by
    change r.i < 255
    rw [hline.i_eq, List.nil_append]
    exact hlen
  obtain ⟨vga, hput, hvga⟩ := hr.vga.vgaPutchar 0x0A
  refine ⟨{ r with vga := vga }, ⟨hvga, hr.length⟩, ⟨hline.i_eq, hline.buffer_eq⟩, by omega, ?_⟩
  rw [← hkeys, hloop, readlineLoop, if_pos hmore, if_pos rfl, hput]
  rfl

/-- The shell after start-up, with characters to come, and commands that do nothing. -/
def freshSession (keys : List UInt8) : Session Unit :=
  ⟨vgaInit fun _ ↦ 0, List.replicate 256 0, keys, ()⟩

/-- `a`, 255 times. -/
def longWord : List UInt8 := List.replicate 255 0x61

theorem le_length_commandBuffer (keys : List UInt8) :
    256 ≤ (freshSession keys).commandBuffer.length := Nat.le_of_eq List.length_replicate.symm

theorem unknownWord_longWord : UnknownWord longWord := by
  refine ⟨fun d hd ↦ ?_, 0x61, List.replicate 254 0x61, rfl, by decide⟩
  rw [List.eq_of_mem_replicate hd]
  decide

theorem unknownWord_b : UnknownWord [0x62] := by
  refine ⟨fun d hd ↦ ?_, 0x62, [], rfl, by decide⟩
  rw [List.mem_singleton.mp hd]
  decide

/-- **Two commands for one line**: 255 characters are executed before Enter is pressed, and the
character after them is executed as another command when it is. -/
theorem exists_run_two_commands : ∃ turns s', Run (ShellTurn fun _ _ _ s ↦ some s)
      (freshSession (longWord ++ [0x62, 0x0A])) turns s' ∧ turns.length = 2 ∧
    (freshSession (longWord ++ [0x62, 0x0A])).keys.count 0x0A = 1 ∧
    ¬ ∀ turn ∈ turns, OneLine turn.typed := by
  have hv := onScreen_vgaInit fun _ ↦ 0
  obtain ⟨s₁, hturn₁, hv₁, hb₁, hkeys₁, _⟩ := exists_turn_full
    (s := freshSession (longWord ++ [0x62, 0x0A])) hv (le_length_commandBuffer _)
    unknownWord_longWord
    List.length_replicate rfl
  obtain ⟨s₂, hturn₂, _⟩ := exists_turn_newline hv₁ hb₁ unknownWord_b (by decide)
    (hkeys₁.symm : [0x62] ++ 0x0A :: [] = s₁.keys)
  have hcount : (longWord ++ [0x62, 0x0A]).count 0x0A = 1 := by
    rw [List.count_append, longWord, List.count_replicate]
    rfl
  refine ⟨_, s₂, .cons hturn₁ (.single hturn₂), rfl, hcount, fun hlines ↦ ?_⟩
  obtain ⟨t, heq, _⟩ := hlines _ List.mem_cons_self
  have hmem : 0x0A ∈ longWord := by
    rw [show longWord = t ++ [0x0A] from heq]
    exact List.mem_append_right t (List.mem_singleton.mpr rfl)
  exact absurd (List.eq_of_mem_replicate hmem) (by decide)

/-- A short line. -/
theorem run_oneLine_iff_b : ∃ s', Run (ShellTurn fun _ _ _ s ↦ some s)
      (freshSession [0x62, 0x0A]) [⟨[0x62, 0x0A], [0x62, 0x0A]⟩] s' ∧
    (OneLine [0x62, 0x0A] ↔ ¬ FillsBuffer [0x62, 0x0A]) := by
  have hv := onScreen_vgaInit fun _ ↦ 0
  obtain ⟨s', hturn, _⟩ := exists_turn_newline
    (s := freshSession [0x62, 0x0A]) hv (le_length_commandBuffer _) unknownWord_b
    (by decide) rfl
  have hrun := Run.single hturn
  have hiff := (run_oneLine_iff hrun).1
  have hone : OneLine [0x62, 0x0A] := ⟨[0x62], rfl, by decide⟩
  have hall : ∀ turn ∈ [(⟨[0x62, 0x0A], [0x62, 0x0A]⟩ : Turn)], OneLine turn.typed := by
    intro turn hmem
    rw [List.mem_singleton.mp hmem]
    exact hone
  exact ⟨s', hrun, fun _ ↦ hiff.mp ⟨hall, rfl⟩ _ List.mem_cons_self, fun _ ↦ hone⟩

end KontolOS.Shell
