import KontolOS.Drivers.Timer
import KontolOS.Memory.Invariants
import KontolOS.Shell.Command
import KontolOS.Shell.Files

/-!
# The commands that report

The commands `help`, `info`, `uptime`, `memory` and `version` of `src/kernel/shell.c` print tables
and figures, and change nothing.  The figures are computed with `size_t` and `int`: in a heap that
is in order none of this overflows, so that what `memory` prints is the sum of the used blocks,
what is left of the heap, and a bar of 40 characters (`prints_memoryCalls`).
-/

namespace KontolOS.Shell

open KontolOS.Lib KontolOS.Memory KontolOS.Strings KontolOS.Drivers KontolOS.Fs

/-! ## `help` -/

/-- The names and the descriptions in `commands`. -/
def commandTexts : List (String × String) := [
  ("help", "Display available commands"), ("clear", "Clear the screen"),
  ("echo", "Echo text to the screen"), ("info", "Display system information"),
  ("uptime", "Show system uptime"), ("memory", "Display memory statistics"),
  ("reboot", "Reboot the system"), ("halt", "Halt the system"),
  ("shutdown", "Power off the system"), ("version", "Display OS version"),
  ("color", "Change text color (0-15)"), ("ls", "List files"), ("cat", "Display file contents"),
  ("touch", "Create empty file"), ("rm", "Remove file"), ("nano", "Edit file"),
  ("mkdir", "Create directory"), ("rmdir", "Remove directory"), ("cd", "Change directory"),
  ("pwd", "Print working directory")]

example : commandTexts.map (fun t ↦ literal t.1) = commands := rfl

/-- What is printed for a command: the name is filled up to 10 characters. -/
def helpCalls (name description : String) : Option (List VgaCall) := do
  let len ← strlen (literal name)
  return [.setColor 10 0, .print (literal "  "), .print (literal name), .setColor 8 0] ++
    (List.replicate (10 - len) (.putchar 0x20) ++
      [.print (literal " - "), .setColor 7 0, .print (literal description), .putchar 0x0A])

/-- The loop of `cmd_help`. -/
def helpLoop : List (String × String) → Option (List VgaCall)
  | [] => some []
  | (name, description) :: rest => do
      let calls ← helpCalls name description
      return calls ++ (← helpLoop rest)

/-- `cmd_help` -/
def cmdHelp : Command := fun _ s ↦ do
  let calls ← helpLoop commandTexts
  return ([.setColor 11 0, .print (literal "\nAvailable commands:\n"),
    .print (literal "-------------------\n"), .setColor 15 0] ++
      (calls ++ [.setColor 15 0, .putchar 0x0A]), s)

/-- The line of a command. -/
def helpLine (t : String × String) : List UInt8 :=
  chars "  " ++ (chars t.1 ++ (List.replicate (10 - (chars t.1).length) 0x20 ++
    (chars " - " ++ (chars t.2 ++ [0x0A]))))

/-- The text of `help`. -/
def helpText : List UInt8 :=
  chars "\nAvailable commands:\n" ++ (chars "-------------------\n" ++
    (commandTexts.flatMap helpLine ++ [0x0A]))

theorem helpLoop_prints (ts : List (String × String)) :
    ∃ calls, helpLoop ts = some calls ∧ Prints calls (ts.flatMap helpLine) := by
  induction ts with
  | nil => exact ⟨[], rfl, .nil⟩
  | cons t ts ih =>
      obtain ⟨calls, hloop, hprints⟩ := ih
      have hlen : strlen (literal t.1) = some (chars t.1).length :=
        (Holds.of_mem (zero_mem_literal t.1)).strlen_eq
      have hline : ∃ calls, helpCalls t.1 t.2 = some calls ∧ Prints calls (helpLine t) := by
        rw [helpCalls, hlen]
        refine ⟨_, rfl, ?_⟩
        exact ((((((Prints.nil.putchar 0x0A).literal t.2).color 7 0).literal " - ").putchars 0x20
          (10 - (chars t.1).length)).color 8 0).literal t.1 |>.literal "  " |>.color 10 0
      obtain ⟨first, hfirst, hprints₁⟩ := hline
      refine ⟨first ++ calls, ?_, hprints₁.append hprints⟩
      rw [helpLoop, hfirst, hloop]
      rfl

theorem cmdHelp_prints (argv : List (List UInt8)) (s : Sys) :
    ∃ calls, cmdHelp argv s = some (calls, s) ∧ Prints calls helpText := by
  obtain ⟨calls, hloop, hprints⟩ := helpLoop_prints commandTexts
  refine ⟨_, by rw [cmdHelp, hloop]; rfl, ?_⟩
  have hend := hprints.append ((Prints.nil.putchar 0x0A).color 15 0)
  exact (((hend.color 15 0).literal "-------------------\n").literal
    "\nAvailable commands:\n").color 11 0

/-! ## `uptime` and `version` -/

/-- What `uptime` prints for the seconds. -/
def uptimeCalls (seconds : Nat) : List VgaCall :=
  let minutes := seconds / 60
  let hours := minutes / 60
  .print (literal "Uptime: ") ::
    ((if 0 < hours then [.printDec (toInt hours), .print (literal " hours, ")] else []) ++
      ((if 0 < minutes ∨ 0 < hours then
          [.printDec (toInt (minutes % 60)), .print (literal " minutes, ")] else []) ++
        [.printDec (toInt (seconds % 60)), .print (literal " seconds\n")]))

/-- `cmd_uptime` -/
def cmdUptime (t : Timer) : Command := fun _ s ↦ do
  let seconds ← timerGetUptime t
  return (uptimeCalls seconds, s)

/-- The text of `uptime`, with the hours and the minutes only from the first one on. -/
def uptimeText (seconds : Nat) : List UInt8 :=
  chars "Uptime: " ++
    ((if 3600 ≤ seconds then decimal (seconds / 3600) ++ chars " hours, " else []) ++
      ((if 60 ≤ seconds then decimal (seconds / 60 % 60) ++ chars " minutes, " else []) ++
        (decimal (seconds % 60) ++ chars " seconds\n")))

/-- A number and what it is a number of. -/
theorem prints_count {k : Nat} (hk : k < 2 ^ 31) (unit : String) :
    Prints [.printDec (toInt k), .print (literal unit)] (decimal k ++ chars unit) := by
  rw [toInt_of_lt hk]
  have hprints := (Prints.nil.literal unit).dec hk
  rwa [List.append_nil] at hprints

/-- Something that is printed only in a case. -/
theorem prints_ite {c c' : Prop} [Decidable c] [Decidable c'] {calls : List VgaCall}
    {text : List UInt8} (hc : c ↔ c') (h : Prints calls text) :
    Prints (if c then calls else []) (if c' then text else []) := by
  by_cases hif : c
  · rwa [if_pos hif, if_pos (hc.mp hif)]
  · rw [if_neg hif, if_neg fun hif' ↦ hif (hc.mpr hif')]
    exact .nil

theorem prints_uptimeCalls {seconds : Nat} (h : seconds < 2 ^ 32) :
    Prints (uptimeCalls seconds) (uptimeText seconds) := by
  unfold uptimeCalls uptimeText
  dsimp only
  have hhours : seconds / 60 / 60 = seconds / 3600 := Nat.div_div_eq_div_mul seconds 60 60
  rw [hhours]
  refine .print (Holds.of_mem (zero_mem_literal _)) (.append ?_ (.append ?_ ?_))
  · exact prints_ite (by omega) (prints_count (by omega) _)
  · exact prints_ite (by omega) (prints_count (by omega) _)
  · exact prints_count (by omega) _

/-- `cmd_version` -/
def cmdVersion : Command := fun _ s ↦
  some ([.setColor 11 0, .print (literal "KontolOS "), .setColor 15 0, .print (literal "v0.1.0\n"),
    .print (literal "Built from scratch with love!\n")], s)

/-- The text of `version`. -/
def versionText : List UInt8 :=
  chars "KontolOS " ++ (chars "v0.1.0\n" ++ (chars "Built from scratch with love!\n" ++ []))

/-! ## `memory` and `info` -/

/-- An amount of memory in KB and in bytes. -/
def amountCalls (label : String) (amount : Nat) (stop : String) : List VgaCall :=
  [.print (literal label), .printDec (toInt (amount / 1024)), .print (literal " KB ("),
    .printDec (toInt amount), .print (literal stop)]

/-- `(used * 100) / total` -/
def usedPercent (used total : Nat) : Int := toInt (mul32 used 100 / total)

/-- `int bar_width = 40` -/
def barWidth : Int := 40

/-- The bar with its percentage. -/
def barCalls (percent : Int) : List VgaCall :=
  let filled := (percent * barWidth).tdiv 100
  [.print (literal "  ["), .setColor 10 0] ++ (List.replicate filled.toNat (.putchar 0x23) ++
    (.setColor 8 0 :: (List.replicate (barWidth - filled).toNat (.putchar 0x2D) ++
      [.setColor 15 0, .print (literal "] "), .printDec percent, .print (literal "%\n\n")])))

/-- What `memory` prints. -/
def memoryCalls (total used free : Nat) : List VgaCall :=
  [.setColor 11 0, .print (literal "\n=== Memory Statistics ===\n\n"), .setColor 15 0] ++
    (amountCalls "  Total:  " total " bytes)\n" ++ (amountCalls "  Used:   " used " bytes)\n" ++
      (amountCalls "  Free:   " free " bytes)\n\n" ++ barCalls (usedPercent used total))))

/-- `cmd_memory`; there is no result for a division by zero. -/
def cmdMemory : Command := fun _ s ↦
  if memoryGetTotal s.heap = 0 then none
  else some (memoryCalls (memoryGetTotal s.heap) (memoryGetUsed s.heap) (memoryGetFree s.heap), s)

/-- The text of an amount. -/
def amountText (label : String) (amount : Nat) (stop : String) : List UInt8 :=
  chars label ++ (decimal (amount / 1024) ++ (chars " KB (" ++ (decimal amount ++ chars stop)))

/-- The text of the bar. -/
def barText (percent : Nat) : List UInt8 :=
  chars "  [" ++ (List.replicate (percent * 40 / 100) 0x23 ++
    (List.replicate (40 - percent * 40 / 100) 0x2D ++
      (chars "] " ++ (decimal percent ++ chars "%\n\n"))))

/-- The text of `memory`, when `used` of the bytes of the heap are used. -/
def memoryText (used : Nat) : List UInt8 :=
  chars "\n=== Memory Statistics ===\n\n" ++
    (amountText "  Total:  " heapSize " bytes)\n" ++ (amountText "  Used:   " used " bytes)\n" ++
      (amountText "  Free:   " (heapSize - used) " bytes)\n\n" ++
        barText (used * 100 / heapSize))))

theorem prints_amountCalls {amount : Nat} (h : amount ≤ heapSize) (label stop : String) :
    Prints (amountCalls label amount stop) (amountText label amount stop) := by
  have hbig : heapSize < 2 ^ 31 := by decide
  have hkb : amount / 1024 ≤ amount := Nat.div_le_self _ _
  rw [amountCalls, toInt_of_lt (by omega), toInt_of_lt (by omega)]
  have hprints := ((((Prints.nil.literal stop).dec (k := amount) (by omega)).literal " KB (").dec
    (k := amount / 1024) (by omega)).literal label
  rwa [List.append_nil] at hprints

theorem prints_barCalls {percent : Nat} (h : percent ≤ 100) :
    Prints (barCalls percent) (barText percent) := by
  have hfilled : ((percent : Int) * barWidth).tdiv 100 = (percent * 40 / 100 : Nat) := by
    unfold barWidth
    rw [Int.tdiv_eq_ediv_of_nonneg (by omega)]
    omega
  have hrest : (barWidth - (percent * 40 / 100 : Nat)).toNat = 40 - percent * 40 / 100 := by
    unfold barWidth
    omega
  rw [barCalls, hfilled, hrest, Int.toNat_natCast]
  have hend :=
    (((Prints.nil.literal "%\n\n").dec (k := percent) (by omega)).literal "] ").color 15 0
  rw [List.append_nil] at hend
  exact (((hend.putchars 0x2D _).color 8 0).putchars 0x23 _).color 10 0 |>.literal "  ["

variable {h : Heap} {bs : List Block} {s : Sys}

/-- The static variables of a heap that is in order. -/
theorem statistics_eq (hrep : Rep h bs) : memoryGetTotal h = heapSize ∧
    memoryGetUsed h = extent true bs ∧ memoryGetFree h = heapSize - extent true bs ∧
      extent true bs + extent false bs = heapSize := by
  have hsum := hrep.linked.tiles.extent_add
  have hend : heapEnd = heapStart + heapSize := rfl
  have hle : extent true bs ≤ heapSize := by omega
  refine ⟨hrep.total, hrep.used, ?_, by omega⟩
  rw [memoryGetFree, hrep.total, hrep.used, sub32_of_le hle (by decide)]

theorem usedPercent_eq {used : Nat} (hle : used ≤ heapSize) :
    usedPercent used heapSize = (used * 100 / heapSize : Nat) ∧ used * 100 / heapSize ≤ 100 := by
  have hmul : used * 100 < 2 ^ 32 := by
    unfold heapSize at hle
    omega
  have hpercent : used * 100 / heapSize ≤ 100 := by
    refine Nat.div_le_of_le_mul ?_
    rw [Nat.mul_comm heapSize]
    omega
  refine ⟨?_, hpercent⟩
  rw [usedPercent, mul32, Nat.mod_eq_of_lt hmul, toInt_of_lt (by omega)]

/-- **`memory`** tells the truth about a heap that is in order. -/
theorem cmdMemory_prints (hrep : Rep s.heap bs) (argv : List (List UInt8)) :
    ∃ calls, cmdMemory argv s = some (calls, s) ∧ Prints calls (memoryText (extent true bs)) := by
  obtain ⟨htotal, hused, hfree, hsum⟩ := statistics_eq hrep
  have hle : extent true bs ≤ heapSize := by omega
  obtain ⟨hpercent, hle100⟩ := usedPercent_eq hle
  refine ⟨memoryCalls heapSize (extent true bs) (heapSize - extent true bs), ?_, ?_⟩
  · rw [cmdMemory, htotal, hused, hfree, if_neg (by decide : heapSize ≠ 0)]
  · rw [memoryCalls, hpercent]
    have hlines := (prints_amountCalls (Nat.le_refl heapSize) "  Total:  " " bytes)\n").append
      ((prints_amountCalls hle "  Used:   " " bytes)\n").append
        ((prints_amountCalls (Nat.sub_le heapSize (extent true bs)) "  Free:   "
          " bytes)\n\n").append (prints_barCalls hle100)))
    exact ((hlines.color 15 0).literal "\n=== Memory Statistics ===\n\n").color 11 0

/-- `cmd_info` -/
def cmdInfo (t : Timer) : Command := fun _ s ↦ do
  let uptime ← timerGetUptime t
  return ([.setColor 11 0, .print (literal "\n=== System Information ===\n\n"), .setColor 15 0,
    .print (literal "  OS Name:        KontolOS\n"), .print (literal "  Version:        0.1.0\n"),
    .print (literal "  Architecture:   x86 (32-bit)\n"),
    .print (literal "  Author:         Built from scratch!\n"),
    .print (literal "\n  Memory Total:   "), .printDec (toInt (memoryGetTotal s.heap / 1024)),
    .print (literal " KB\n"),
    .print (literal "  Memory Free:    "), .printDec (toInt (memoryGetFree s.heap / 1024)),
    .print (literal " KB\n"),
    .print (literal "  Uptime:         "), .printDec (toInt uptime),
    .print (literal " seconds\n\n")], s)

/-- The text of `info`. -/
def infoText (used uptime : Nat) : List UInt8 :=
  chars "\n=== System Information ===\n\n" ++ (chars "  OS Name:        KontolOS\n" ++
    (chars "  Version:        0.1.0\n" ++ (chars "  Architecture:   x86 (32-bit)\n" ++
      (chars "  Author:         Built from scratch!\n" ++ (chars "\n  Memory Total:   " ++
        (decimal (heapSize / 1024) ++ (chars " KB\n" ++ (chars "  Memory Free:    " ++
          (decimal ((heapSize - used) / 1024) ++ (chars " KB\n" ++ (chars "  Uptime:         " ++
            (decimal uptime ++ chars " seconds\n\n"))))))))))))

theorem cmdInfo_prints (hrep : Rep s.heap bs) {t : Timer} {uptime : Nat}
    (htime : timerGetUptime t = some uptime) (hlt : uptime < 2 ^ 31) (argv : List (List UInt8)) :
    ∃ calls, cmdInfo t argv s = some (calls, s) ∧
      Prints calls (infoText (extent true bs) uptime) := by
  obtain ⟨htotal, _, hfree, _⟩ := statistics_eq hrep
  have hbig : heapSize / 1024 < 2 ^ 31 := by decide
  have hkb : (heapSize - extent true bs) / 1024 < 2 ^ 31 :=
    Nat.lt_of_le_of_lt (Nat.div_le_div_right (Nat.sub_le _ _)) hbig
  refine ⟨_, by rw [cmdInfo, htime]; rfl, ?_⟩
  rw [htotal, hfree, toInt_of_lt hbig, toInt_of_lt hkb, toInt_of_lt hlt]
  have hend := ((Prints.nil.literal " seconds\n\n").dec hlt).literal "  Uptime:         "
  rw [List.append_nil] at hend
  have hmiddle := (((hend.literal " KB\n").dec hkb).literal "  Memory Free:    ").literal " KB\n"
    |>.dec hbig |>.literal "\n  Memory Total:   "
  exact ((((hmiddle.literal "  Author:         Built from scratch!\n").literal
    "  Architecture:   x86 (32-bit)\n").literal "  Version:        0.1.0\n").literal
      "  OS Name:        KontolOS\n").color 15 0 |>.literal "\n=== System Information ===\n\n"
    |>.color 11 0

end KontolOS.Shell
