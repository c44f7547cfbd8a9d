import KontolOS.Boot.Transparent
import KontolOS.Drivers.Hexadecimal
import KontolOS.Drivers.Visible

/-!
# Exceptions

What `isr_handler` and `kernel_panic` do when the processor raises an exception: they tell on the
screen which one it was, with the error code, and where the program was, and the program never goes
on (`exception_reported`).
-/

namespace KontolOS.Boot

open KontolOS.Lib KontolOS.Strings KontolOS.Drivers

/-! ## The handler -/

/-- `exception_messages` -/
def exceptionMessages : List String := [
  "Division By Zero", "Debug", "Non Maskable Interrupt", "Breakpoint", "Overflow",
  "Bound Range Exceeded", "Invalid Opcode", "Device Not Available", "Double Fault",
  "Coprocessor Segment Overrun", "Invalid TSS", "Segment Not Present", "Stack-Segment Fault",
  "General Protection Fault", "Page Fault", "Reserved", "x87 Floating-Point Exception",
  "Alignment Check", "Machine Check", "SIMD Floating-Point Exception", "Virtualization Exception",
  "Control Protection Exception", "Reserved", "Reserved", "Reserved", "Reserved", "Reserved",
  "Reserved", "Hypervisor Injection Exception", "VMM Communication Exception",
  "Security Exception", "Reserved"]

/-- How a handler ends. -/
inductive Handled
  | /-- it returns -/ returned (v : Vga)
  | /-- it has disabled interrupts, and halts for ever -/ panicked (v : Vga)

/-- `kernel_panic` -/
def kernelPanic (message : List UInt8) (v : Vga) : Option Handled := do
  let v ← runCalls [.setColor 15 4, .print (literal "\n"),
    .print (literal
      "================================================================================"),
    .print (literal
      "                            KERNEL PANIC                                        "),
    .print (literal
      "================================================================================"),
    .print (literal "\n"), .setColor 15 0, .print (literal "Error: "), .print message,
    .print (literal "\n\nSystem halted. Please restart your computer.\n")] v
  return .panicked v

/-- `vga_print_hex` for a field of the frame -/
def printHex (x : BitVec 32) : VgaCall := .printHex (UInt32.ofBitVec x)

/-- `isr_handler` -/
def isrHandler (frame : InterruptFrame) (v : Vga) : Option Handled :=
  if frame.intNo.toNat < 32 then do
    let message ← exceptionMessages[frame.intNo.toNat]?
    let v ← runCalls [.setColor 15 4, .print (literal "\n\n*** EXCEPTION: "),
      .print (literal message), .print (literal " ***\n"), .setColor 15 0,
      .print (literal "Error Code: "), printHex frame.errCode, .print (literal "\n"),
      .print (literal "EIP: "), printHex frame.eip, .print (literal " CS: "), printHex frame.cs,
      .print (literal " EFLAGS: "), printHex frame.eflags, .print (literal "\n")] v
    kernelPanic (literal "Unhandled CPU Exception") v
  else some (.returned v)

/-! ## What is seen of it -/

/-- A number in base sixteen, as it is printed. -/
def hexadecimal (n : Nat) : List UInt8 := [0x30, 0x78] ++ hexText (digitsOf 16 n).reverse

/-- The text of `kernel_panic` -/
def panicText (message : List UInt8) : List UInt8 :=
  chars "\n" ++
    chars "================================================================================" ++
    chars "                            KERNEL PANIC                                        " ++
    chars "================================================================================" ++
    chars "\n" ++ chars "Error: " ++ message ++
    chars "\n\nSystem halted. Please restart your computer.\n"

/-- The report about the exception `v` in the state `c`. -/
def report (v : Nat) (err : BitVec 32) (c : Core) : List UInt8 :=
  chars "\n\n*** EXCEPTION: " ++ chars (exceptionMessages.getD v "") ++ chars " ***\n" ++
    chars "Error Code: " ++ hexadecimal (errorCode v err).toNat ++ chars "\n" ++
    chars "EIP: " ++ hexadecimal c.regs.eip.toNat ++
    chars " CS: " ++ hexadecimal c.regs.cs.toNat ++
    chars " EFLAGS: " ++ hexadecimal c.regs.eflags.toNat ++ chars "\n" ++
    panicText (chars "Unhandled CPU Exception")

variable {b₀ : Nat → UInt16} {calls calls' : List VgaCall} {text text' message : List UInt8}
  {vga : Vga} {c : Core} {v : Nat} {err ret : BitVec 32}

/-- Some calls print a text, wherever the cursor is. -/
def Puts (b₀ : Nat → UInt16) (calls : List VgaCall) (text : List UInt8) : Prop :=
  ∀ v, Visible b₀ v → ∃ v', runCalls calls v = some v' ∧ Visible b₀ v' ∧ Emits v text v'

namespace Puts

theorem nil : Puts b₀ [] [] := fun v hv ↦ ⟨v, rfl, hv, .nil v⟩

/-- A string, and what comes behind it -/
theorem print (hstr : Holds message text) (h : Puts b₀ calls text') :
    Puts b₀ (.print message :: calls) (text ++ text') := by
  intro v hv
  obtain ⟨v₁, hprint, hv₁, hemits⟩ := hv.vgaPrint hstr
  obtain ⟨v', hrest, hv', hemits'⟩ := h v₁ hv₁
  refine ⟨v', ?_, hv', hemits.append hemits'⟩
  rw [runCalls, VgaCall.exec, hprint]
  exact hrest

/-- A string literal -/
theorem literal (t : String) (h : Puts b₀ calls text') :
    Puts b₀ (.print (Strings.literal t) :: calls) (chars t ++ text') :=
  h.print (Holds.of_mem (zero_mem_literal t))

/-- A colour -/
theorem color (fg bg : UInt8) (h : Puts b₀ calls text') :
    Puts b₀ (.setColor fg bg :: calls) text' := by
  intro v hv
  obtain ⟨v', hrest, hv', hemits'⟩ := h _ (hv.vgaSetColor fg bg)
  exact ⟨v', hrest, hv', .color fg bg hemits'⟩

/-- A number -/
theorem hex (x : BitVec 32) (h : Puts b₀ calls text') :
    Puts b₀ (printHex x :: calls) (hexadecimal x.toNat ++ text') := by
  intro v hv
  obtain ⟨ds, hds, hprint⟩ := vgaPrintHex_eq (UInt32.ofBitVec x)
  have hdigits : ds = (digitsOf 16 x.toNat).reverse :=
    hds.unique (isNumeral_digitsOf (by decide) x.toNat) (by decide)
  obtain ⟨v₁, hput, hv₁, hemits⟩ := hv.putDigits (hexadecimal x.toNat)
  obtain ⟨v', hrest, hv', hemits'⟩ := h v₁ hv₁
  refine ⟨v', ?_, hv', hemits.append hemits'⟩
  rw [printHex, runCalls, VgaCall.exec, hprint, hdigits]
  rw [hexadecimal] at hput
  rw [hput]
  exact hrest

end Puts

/-- **`kernel_panic`** prints its message, and does not return. -/
theorem kernelPanic_spec (hv : Visible b₀ vga) (hmessage : Holds message text) :
    ∃ vga', kernelPanic message vga = some (.panicked vga') ∧ Visible b₀ vga' ∧
      Emits vga (panicText text) vga' := by
  have hnil : Puts b₀ [] [] := Puts.nil
  have hend := ((hnil.literal "\n\nSystem halted. Please restart your computer.\n").print
    hmessage).literal "Error: "
  have hputs := ((((hend.color 15 0).literal "\n").literal
    "================================================================================").literal
    "                            KERNEL PANIC                                        ").literal
    "================================================================================"
      |>.literal "\n" |>.color 15 4
  obtain ⟨vga', hrun, hv', hemits⟩ := hputs vga hv
  refine ⟨vga', ?_, hv', ?_⟩
  · rw [kernelPanic, hrun]
    rfl
  · simpa only [panicText, List.append_nil, List.append_assoc] using hemits

/-- **`isr_handler`**, for a frame that tells of the exception `v` -/
theorem isrHandler_spec (hvga : Visible b₀ vga) {frame : InterruptFrame} (hv : v < 32)
    (hframe : Tells frame c v err) :
    ∃ vga', isrHandler frame vga = some (.panicked vga') ∧ Emits vga (report v err c) vga' := by
  have hint : frame.intNo.toNat = v := by
    rw [hframe.intNo, BitVec.toNat_ofNat]
    exact Nat.mod_eq_of_lt (Nat.lt_trans hv (by decide))
  have hcs : frame.cs.toNat = c.regs.cs.toNat := by
    rw [hframe.cs, BitVec.toNat_setWidth]
    exact Nat.mod_eq_of_lt (Nat.lt_trans c.regs.cs.isLt (by decide))
  have hlen : v < exceptionMessages.length := hv
  have hmessage : exceptionMessages[v]? = some (exceptionMessages.getD v "") := by
    rw [List.getElem?_eq_getElem hlen, List.getD_eq_getElem?_getD, List.getElem?_eq_getElem hlen,
      Option.getD_some]
  have hnil : Puts b₀ [] [] := Puts.nil
  have hend := ((((hnil.literal "\n").hex frame.eflags).literal " EFLAGS: ").hex frame.cs).literal
    " CS: "
  have hputs := ((((hend.hex frame.eip).literal "EIP: ").literal "\n").hex frame.errCode).literal
    "Error Code: " |>.color 15 0 |>.literal " ***\n" |>.literal (exceptionMessages.getD v "")
      |>.literal "\n\n*** EXCEPTION: " |>.color 15 4
  obtain ⟨vga₁, hrun, hv₁, hemits₁⟩ := hputs vga hvga
  have hpanic : Holds (literal "Unhandled CPU Exception") (chars "Unhandled CPU Exception") :=
    Holds.of_mem (zero_mem_literal _)
  obtain ⟨vga', hpanic, _, hemits'⟩ := kernelPanic_spec hv₁ hpanic
  refine ⟨vga', ?_, ?_⟩
  · rw [isrHandler, if_pos (hint ▸ hv), hint, hmessage]
    simp only [Option.bind_eq_bind, Option.bind_some, hrun, hpanic]
  · have hall := hemits₁.append hemits'
    rw [hframe.eip, hframe.eflags, hframe.errCode, hcs] at hall
    rw [report, errorCode]
    simpa only [List.append_nil, List.append_assoc] using hall

/-! ## From the exception on -/

/-- **An exception is reported**, whatever the processor did, with the cursor on the screen: from
the gate of the vector the handler is called, which prints the name of the exception, the error code
if there is one, and where the program was, with which flags; and nothing leads back into the
program. -/
theorem exception_reported {H : Symbol → Core → Core → Prop} (hvga : Visible b₀ vga)
    (hH : ∀ t u, H .isrHandler t u →
      ∃ vga', isrHandler (readFrame t.mem t.frame) vga = some (.returned vga'))
    (hv : v < 32) (err ret : BitVec 32) (c : Core) :
    (∃ t code, StubSteps H ret (.stub (stub v) (c.interrupt v err))
      (.handler .isrHandler t code)) ∧
    (∀ f t code, StubSteps H ret (.stub (stub v) (c.interrupt v err)) (.handler f t code) →
      f = .isrHandler ∧ ∃ vga', isrHandler (readFrame t.mem t.frame) vga = some (.panicked vga') ∧
        Emits vga (report v err c) vga') ∧
    ∀ d, ¬ StubSteps H ret (.stub (stub v) (c.interrupt v err)) (.done d) := by
  have hhandler : handlerOf v = .isrHandler := if_pos hv
  have hcall : Settles (Config.next ret) (.stub (stub v) (c.interrupt v err))
      (.handler (handlerOf v) (c.called v err ret) (epilogue ++ [.iret])) :=
    settles_call (Nat.lt_trans hv (by decide))
  obtain ⟨vga', hpanic, hemits⟩ := isrHandler_spec hvga hv (called_tells c v err ret)
  -- the handler has not returned
  have hstuck : ∀ u, ¬ H (handlerOf v) (c.called v err ret) u := by
    intro u hu
    rw [hhandler] at hu
    obtain ⟨_, hreturned⟩ := hH _ _ hu
    cases hpanic.symm.trans hreturned
  refine ⟨?_, fun f t code hreach ↦ ?_, fun d hreach ↦ ?_⟩
  · rw [← hhandler]
    exact ⟨_, _, steps_of_settles hcall⟩
  · rcases OnTheWay.steps (.inl hcall) hreach with hthere | ⟨u, hu, _⟩
    · cases hthere.eq_of_none rfl
      exact ⟨hhandler, vga', hpanic, hemits⟩
    · exact absurd hu (hstuck u)
  · rcases OnTheWay.steps (.inl hcall) hreach with hthere | ⟨u, hu, _⟩
    · cases hthere.eq_of_none rfl
    · exact hstuck u hu

/-- A page fault on a fresh screen -/
theorem exception_reported_page : ∃ vga vga' t code,
    StubSteps (fun _ _ _ ↦ False) 0x100200 (.stub (stub 14) (idle.interrupt 14 2))
      (.handler .isrHandler t code) ∧
    isrHandler (readFrame t.mem t.frame) vga = some (.panicked vga') ∧
    Emits vga (report 14 2 idle) vga' := by
  obtain ⟨vga, _, hvga⟩ := Visible.of_vgaClear (v := vgaInit fun _ ↦ 0) fun i _ ↦ rfl
  obtain ⟨⟨t, code, hsteps⟩, hreports, _⟩ := exception_reported (H := fun _ _ _ ↦ False) hvga
    (fun _ _ h ↦ h.elim) (show 14 < 32 by decide) 2 0x100200 idle
  obtain ⟨_, vga', hpanic, hemits⟩ := hreports _ t code hsteps
  exact ⟨vga, vga', t, code, hsteps, hpanic, hemits⟩

end KontolOS.Boot
