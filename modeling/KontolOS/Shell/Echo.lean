import KontolOS.Drivers.Output
import KontolOS.Shell.Arguments

/-!
# `echo`

The command `echo` of `src/kernel/shell.c` prints the arguments that it is given, with a space
between them.  It is given the words of the line, but for those that `argv` has no room for: of a
line with more than `MAX_ARGS` words, `echo` among them, only the first ones are printed
(`executeCommand_echo`).
-/

namespace KontolOS.Shell

open KontolOS.Lib KontolOS.Strings KontolOS.Drivers

/-! ## The command -/

/-- The loop of `cmd_echo`, with `n` rounds to go: what it does with the screen. -/
def echoLoop (text : List UInt8) (argv : List Nat) : Nat → Nat → Option (List VgaCall)
  | 0, _ => some []
  | n + 1, i => do
      let arg ← argv[i]?
      let calls ← echoLoop text argv n (i + 1)
      return (if 1 < i then [.putchar 0x20] else []) ++ .print (text.drop arg) :: calls

/-- `cmd_echo` -/
def cmdEcho {ω : Type} : Handler ω := fun argc argv s ↦ do
  let calls ← echoLoop s.commandBuffer argv (argc - 1) 1
  let vga ← runCalls (calls ++ [.putchar 0x0A]) s.vga
  return { s with vga := vga }

/-- What `echo` is to print for some words. -/
def echoText (ws : List (List UInt8)) : List UInt8 := [0x20].intercalate ws ++ [0x0A]

variable {ω : Type} {handlers : Nat → Handler ω} {s : Session ω} {b₀ : Nat → UInt16}
  {text line rest : List UInt8} {argv starts : List Nat} {w : List UInt8}
  {ws : List (List UInt8)}

/-! ## What it prints -/

/-- The loop, after the first round. -/
theorem echoLoop_puts (hwords : ∀ p ∈ starts, 0 ∈ text.drop p) (argv : List Nat)
    (hargv : 1 < argv.length) :
    ∃ calls, echoLoop text (argv ++ starts) starts.length argv.length = some calls ∧
      ∀ {calls' text'}, Puts calls' text' → Puts (calls ++ calls')
        ((starts.map fun p ↦ cstr (text.drop p)).flatMap ([0x20] ++ ·) ++ text') := by
  induction starts generalizing argv with
  | nil => exact ⟨[], rfl, id⟩
  | cons p starts ih =>
      obtain ⟨hp, hstarts⟩ := List.forall_mem_cons.mp hwords
      have hlen : (argv ++ [p]).length = argv.length + 1 := List.length_append
      obtain ⟨calls, hloop, hputs⟩ := ih hstarts (argv ++ [p]) (by omega)
      rw [hlen, List.append_assoc, List.singleton_append] at hloop
      refine ⟨.putchar 0x20 :: .print (text.drop p) :: calls, ?_, fun h ↦ ?_⟩
      · have harg : (argv ++ p :: starts)[argv.length]? = some p := getElem?_length_append ..
        rw [List.length_cons, echoLoop, harg, Option.bind_eq_bind, Option.bind_some, hloop,
          if_pos hargv]
        rfl
      · rw [List.map_cons, List.flatMap_cons, List.append_assoc, List.append_assoc,
          List.singleton_append]
        exact .putchar 0x20 (.print (.of_mem hp) (hputs h))

/-- **`cmd_echo` prints its arguments**, separated by spaces, and a newline. -/
theorem cmdEcho_eq (arg : Nat) (hwords : ∀ p ∈ starts, 0 ∈ s.commandBuffer.drop p) :
    cmdEcho (arg :: starts).length (arg :: starts) s =
      (putDigits (echoText (starts.map fun p ↦ cstr (s.commandBuffer.drop p))) s.vga).map
        fun vga ↦ { s with vga := vga } := by
  obtain ⟨calls, hloop, hputs⟩ : ∃ calls,
      echoLoop s.commandBuffer (arg :: starts) starts.length 1 = some calls ∧
      Puts (calls ++ [.putchar 0x0A])
        (echoText (starts.map fun p ↦ cstr (s.commandBuffer.drop p))) := by
    have hnl : Puts [.putchar 0x0A] [0x0A] := .putchar 0x0A .nil
    cases starts with
    | nil => exact ⟨[], rfl, hnl⟩
    | cons p starts =>
        obtain ⟨hp, hstarts⟩ := List.forall_mem_cons.mp hwords
        obtain ⟨calls, hloop, hputs⟩ := echoLoop_puts hstarts [arg, p] Nat.one_lt_two
        refine ⟨.print (s.commandBuffer.drop p) :: calls, ?_, ?_⟩
        · change (echoLoop _ _ starts.length 2).bind _ = _
          rw [show arg :: p :: starts = [arg, p] ++ starts from rfl]
          exact (congrArg (Option.bind · _) hloop).trans rfl
        · rw [List.map_cons, echoText, intercalate_cons, List.append_assoc]
          exact .print (.of_mem hp) (hputs hnl)
  have hcalls : ((arg :: starts).length - 1) = starts.length := rfl
  rw [cmdEcho, hcalls, hloop, Option.bind_eq_bind, Option.bind_some, hputs]
  cases putDigits (echoText (starts.map fun p ↦ cstr (s.commandBuffer.drop p))) s.vga with
  | none => rfl
  | some vga => rfl

/-! ## The whole command -/

theorem findCommand_echo (h : Holds text [0x65, 0x63, 0x68, 0x6F]) :
    findCommand text commands 0 = some (some 2) := by
  obtain ⟨_, rest, rfl⟩ := h
  rfl

/-- What `execute_command` does with a line whose first word is `echo`. -/
theorem executeCommand_eq (hecho : handlers 2 = cmdEcho) (hline : Holds s.commandBuffer line)
    (hfirst : words isBlank line = [0x65, 0x63, 0x68, 0x6F] :: ws) :
    ∃ text, executeCommand handlers s = (putDigits (echoText (ws.take 15)) s.vga).map
      fun vga ↦ { s with vga := vga, commandBuffer := text } := by
  obtain ⟨hzero, rest, hbuffer⟩ := hline
  obtain ⟨line', argv, hcut, hparse⟩ := parseArgs_cut hzero maxArgs
  have hwords := hcut.map_cstr rest
  have hparse := hparse rest
  have hmem : ∀ p ∈ argv, 0 ∈ (line' ++ 0 :: rest).drop p := fun p hp ↦ by
    obtain ⟨_, tail, heq⟩ := hcut.holds hp rest
    rw [heq]
    exact List.mem_append_right _ List.mem_cons_self
  rw [← hbuffer] at hparse
  rw [hfirst, maxArgs, List.take_succ_cons] at hwords
  cases argv with
  | nil => cases hwords
  | cons arg starts =>
      obtain ⟨hhead, htail⟩ := List.cons_eq_cons.mp hwords
      obtain ⟨harg, hstarts⟩ := List.forall_mem_cons.mp hmem
      have hname : Holds ((line' ++ 0 :: rest).drop arg) [0x65, 0x63, 0x68, 0x6F] :=
        hhead ▸ Holds.of_mem harg
      refine ⟨line' ++ 0 :: rest, ?_⟩
      have hrun := cmdEcho_eq (s := { s with commandBuffer := line' ++ 0 :: rest }) arg hstarts
      rw [htail] at hrun
      rw [executeCommand, hparse]
      simp only [findCommand_echo hname, Option.bind_eq_bind, Option.bind_some, hecho]
      exact hrun

/-- More words take more characters. -/
theorem length_echoText_lt {u v : List (List UInt8)} (hu : u ≠ []) (hv : v ≠ []) :
    (echoText u).length < (echoText (u ++ v)).length := by
  obtain ⟨w, u, rfl⟩ := List.exists_cons_of_ne_nil hu
  obtain ⟨x, v, rfl⟩ := List.exists_cons_of_ne_nil hv
  rw [List.cons_append, echoText, echoText, intercalate_cons, intercalate_cons, List.flatMap_append,
    List.flatMap_cons]
  simp only [List.length_append, List.length_singleton]
  omega

/-- Fifteen words are all of them if there are no more. -/
theorem putDigits_take_iff {v vga : Vga} (hv : OnScreen b₀ v)
    (hput : putDigits (echoText (ws.take 15)) v = some vga) :
    putDigits (echoText ws) v = some vga ↔ ws.length ≤ 15 := by
  constructor
  · intro hall
    by_contra hlong
    have htake : ws.take 15 ≠ [] := fun h ↦ by
      rcases List.take_eq_nil_iff.mp h with h | rfl
      · cases h
      · exact hlong (Nat.zero_le 15)
    have hlt : (echoText (ws.take 15)).length < (echoText (ws.take 15 ++ ws.drop 15)).length :=
      length_echoText_lt htake fun h ↦ hlong (List.drop_eq_nil_iff.mp h)
    rw [List.take_append_drop] at hlt
    exact Nat.ne_of_lt hlt (hv.length_eq_of_putDigits (hput.trans hall.symm))
  · intro hshort
    rw [← hput, List.take_of_length_le hshort]

/-- **`echo` prints the words of the line within the first `MAX_ARGS`**, in order, separated
by single spaces, and a newline; and that is every further word of the line if and only if the line
has at most `MAX_ARGS` words. -/
theorem executeCommand_echo (hecho : handlers 2 = cmdEcho) (hline : Holds s.commandBuffer line)
    (hfirst : (words isBlank line).head? = some [0x65, 0x63, 0x68, 0x6F])
    (hv : OnScreen b₀ s.vga) :
    ∃ s', executeCommand handlers s = some s' ∧
      putDigits (echoText ((words isBlank line).take maxArgs).tail) s.vga = some s'.vga ∧
      (putDigits (echoText (words isBlank line).tail) s.vga = some s'.vga ↔
        (words isBlank line).length ≤ maxArgs) := by
  obtain ⟨ws, hws⟩ := List.head?_eq_some_iff.mp hfirst
  obtain ⟨text, hexec⟩ := executeCommand_eq hecho hline hws
  obtain ⟨vga, hput, _⟩ : ∃ vga, putDigits (echoText (ws.take 15)) s.vga = some vga ∧ _ :=
    hv.putDigits_emits
  rw [hput] at hexec
  rw [hws]
  refine ⟨_, hexec, hput, (putDigits_take_iff hv hput).trans ?_⟩
  exact Nat.succ_le_succ_iff.symm

/-- The shell after start-up, with a line in its buffer, and no command but `echo` that does
something. -/
def echoSession (line : List UInt8) : Session Unit := ⟨vgaInit fun _ ↦ 0, line ++ [0], [], ()⟩

def echoHandlers (i : Nat) : Handler Unit := if i = 2 then cmdEcho else fun _ _ s ↦ some s

/-- `echo a  b` -/
theorem executeCommand_echo_two : ∃ s', executeCommand echoHandlers
      (echoSession [0x65, 0x63, 0x68, 0x6F, 0x20, 0x61, 0x20, 0x20, 0x62]) = some s' ∧
    putDigits [0x61, 0x20, 0x62, 0x0A] (vgaInit fun _ ↦ 0) = some s'.vga := by
  have hecho : echoHandlers 2 = cmdEcho := rfl
  obtain ⟨s', hexec, hput, _⟩ := executeCommand_echo hecho
    (s := echoSession [0x65, 0x63, 0x68, 0x6F, 0x20, 0x61, 0x20, 0x20, 0x62])
    ⟨by decide, [], rfl⟩ rfl (onScreen_vgaInit _)
  exact ⟨s', hexec, hput⟩

/-- `echo`, and sixteen words. -/
def longEcho : List UInt8 :=
  [0x65, 0x63, 0x68, 0x6F] ++ (List.replicate 16 [0x20, 0x61]).flatten

/-- **The sixteenth word is not printed**, although the line is short. -/
theorem executeCommand_echo_long : longEcho.length < 256 ∧
    ∃ s', executeCommand echoHandlers (echoSession longEcho) = some s' ∧
      putDigits (echoText (words isBlank longEcho).tail) (echoSession longEcho).vga ≠
        some s'.vga := by
  have hwords : words isBlank longEcho =
      [0x65, 0x63, 0x68, 0x6F] :: List.replicate 16 [0x61] := rfl
  have hline : Holds (echoSession longEcho).commandBuffer longEcho := ⟨by decide, [], rfl⟩
  have hv : OnScreen (fun _ ↦ 0) (echoSession longEcho).vga := onScreen_vgaInit _
  have hecho : echoHandlers 2 = cmdEcho := rfl
  obtain ⟨text, hexec⟩ := executeCommand_eq hecho hline hwords
  obtain ⟨vga, hput, _⟩ : ∃ vga, putDigits (echoText ((List.replicate 16 [0x61]).take 15))
      (echoSession longEcho).vga = some vga ∧ _ := hv.putDigits_emits
  rw [hput] at hexec
  refine ⟨by decide, _, hexec, fun hall ↦ ?_⟩
  rw [hwords] at hall
  exact absurd ((putDigits_take_iff hv hput).mp hall) (by decide)

end KontolOS.Shell
