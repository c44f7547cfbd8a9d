import KontolOS.Boot.Kernel
import KontolOS.Drivers.Timer
import KontolOS.Lib.Run

/-!
# Interrupts during the boot sequence

`kernel_main` calls `idt_init` twice.  The first call runs with interrupts disabled, fills the
table, and only then enables them; from there on every interrupt is dispatched, until the
second call, which starts by clearing the table while interrupts are enabled.
-/

namespace KontolOS.Boot

open KontolOS.Lib Function

variable {stubs : Nat → UInt32} {c : Cpu} {m m' : Machine}

/-! ## Delivery -/

/-- The same state after another number of ticks. -/
def Cpu.withTicks (c : Cpu) (n : Nat) : Cpu := { c with timerTicks := n }

/-- `irq_handler` changes at most the number of ticks. -/
theorem irqHandler_eq (c : Cpu) (irq : Nat) : ∃ n, irqHandler c irq = c.withTicks n ∧
    (c.irqHandlers irq = some .timer → n = add32 c.timerTicks 1) := by
  have heoi : ∀ c' : Cpu, (if 8 ≤ irq then c'.outb 0xA0 0x20 else c').outb 0x20 0x20 = c' := by
    intro c'
    split <;> rfl
  simp only [irqHandler, heoi]
  split
  · exact ⟨_, rfl, fun _ ↦ rfl⟩
  next hother => exact ⟨c.timerTicks, rfl, fun htimer ↦ absurd htimer hother⟩

/-- The vectors depend on the controllers only. -/
theorem Cpu.vector_congr {c' : Cpu} (h1 : c'.pic1 = c.pic1) (h2 : c'.pic2 = c.pic2) (irq : Nat) :
    c'.vector irq = c.vector irq := by
  rw [Cpu.vector, Cpu.vector, h1, h2]

namespace Ready

/-- The controllers give the vectors from 32 on. -/
theorem vector_eq (h : Ready stubs c) {irq : Nat} (hirq : irq < 16) : c.vector irq = 32 + irq := by
  rw [Cpu.vector, Pic.vector, Pic.vector, h.pic1.1, h.pic2.1]
  split <;> omega

/-- **A ready machine dispatches every interrupt to `irq_handler`.** -/
theorem deliver_eq (h : Ready stubs c) {irq : Nat} (hirq : irq < 16) :
    c.deliver stubs irq = irqHandler c irq := by
  have hv : 32 + irq < 48 := by omega
  simp only [Cpu.deliver, h.vector_eq hirq]
  rw [if_pos ⟨h.loaded, h.leadsTo _ hv, Nat.le_add_right .., hv⟩, Nat.add_sub_cancel_left]

/-- The number of ticks does not matter. -/
theorem ticks (h : Ready stubs c) (n : Nat) : Ready stubs (c.withTicks n) :=
  ⟨h.leadsTo, h.loaded, h.pic1, h.pic2, h.found⟩

/-- A ready machine is ready after an interrupt. -/
theorem deliver (h : Ready stubs c) {irq : Nat} (hirq : irq < 16) :
    Ready stubs (c.deliver stubs irq) ∧ (c.deliver stubs irq).iflag = c.iflag := by
  rw [h.deliver_eq hirq]
  obtain ⟨n, hn, _⟩ := irqHandler_eq c irq
  rw [hn]
  exact ⟨h.ticks n, rfl⟩

end Ready

/-! ## Operations that leave the table alone -/

/-- The operations that concern neither the table, nor the controllers, nor the flag. -/
def Op.Mild : Op → Prop
  | .outb port _ => port ≠ 0x20 ∧ port ≠ 0x21 ∧ port ≠ 0xA0 ∧ port ≠ 0xA1
  | .setFrequency _ | .resetTicks | .irqRegisterHandler .. | .timerSleepMs _ | .wait _ | .other =>
      True
  | _ => False

/-- A mild operation keeps a machine ready. -/
theorem Ready.exec (h : Ready stubs c) {op : Op} (hop : op.Mild) :
    Ready stubs (op.exec c) ∧ (op.exec c).iflag = c.iflag := by
  have hkeep : ∀ c' : Cpu, c'.idt = c.idt → c'.idtLoaded = c.idtLoaded → c'.pic1 = c.pic1 →
      c'.pic2 = c.pic2 → c'.lost = c.lost → c'.iflag = c.iflag →
      Ready stubs c' ∧ c'.iflag = c.iflag := by
    intro c' hidt hloaded h1 h2 hlost hiflag
    refine ⟨⟨hidt ▸ h.leadsTo, hloaded ▸ h.loaded, h1 ▸ h.pic1, h2 ▸ h.pic2, ?_⟩, hiflag⟩
    exact hlost.trans h.found
  cases op with
  | outb port value =>
      obtain ⟨h20, h21, hA0, hA1⟩ := hop
      rw [Op.exec, Cpu.outb, if_neg h20, if_neg h21, if_neg hA0, if_neg hA1]
      exact ⟨h, rfl⟩
  | setFrequency | resetTicks => exact hkeep _ rfl rfl rfl rfl rfl rfl
  | irqRegisterHandler irq handler =>
      rw [Op.exec]
      split
      · exact hkeep _ rfl rfl rfl rfl rfl rfl
      · exact ⟨h, rfl⟩
  | timerSleepMs | wait | other => exact ⟨h, rfl⟩
  | gate | inMask1 | inMask2 | outMask1 | outMask2 | idtLoad | enableInterrupts | shellRun =>
      exact hop.elim

/-! ## The invariant -/

/-- What is left to do after the first `idt_init`. -/
def afterInit (stubs : Nat → UInt32) : List Op :=
  timerInit 100 ++ showSplashScreen ++ initSystem stubs ++ [.other, .shellRun]

/-- What is done between the first `idt_init` and the first store of the second. -/
def betweenInits : List Op := timerInit 100 ++ showSplashScreen ++ [.other, .other]

/-- The next operation is a store of `idt_set_gate`. -/
def StartsWithGate (ops : List Op) : Prop := ∃ num st rest, ops = .gate num st :: rest

/-- **The invariant of the boot sequence**, up to the second `idt_init`. -/
inductive BootInv (stubs : Nat → UInt32) (m : Machine) : Prop
  | /-- Interrupts are disabled, and the machine will be ready when they are enabled. -/
    early (pre : List Op) (hops : ∀ op ∈ pre, op.Plain ∧ op ≠ .enableInterrupts)
      (htodo : m.todo = pre ++ .enableInterrupts :: afterInit stubs)
      (hiflag : m.cpu.iflag = false) (hlost : m.cpu.lost = false)
      (hready : Ready stubs (execs pre m.cpu))
  | /-- Interrupts are enabled, and the machine is ready. -/
    late (pre rest : List Op) (hops : ∀ op ∈ pre, op.Mild) (hrest : StartsWithGate rest)
      (htodo : m.todo = pre ++ rest) (hiflag : m.cpu.iflag = true) (hready : Ready stubs m.cpu)

/-- `kernel_main` is called by the boot loader with interrupts disabled. -/
structure Booted (stubs : Nat → UInt32) (m : Machine) : Prop where
  /-- all is left to do -/
  todo : m.todo = kernelMain stubs
  /-- the loader has disabled interrupts -/
  iflag : m.cpu.iflag = false
  /-- no interrupt was lost -/
  lost : m.cpu.lost = false

/-- All that `idt_set_gate` does is to store to the table. -/
theorem mem_setGates {b : Nat → UInt32} {sel flags : Nat} {nums : List Nat} {op : Op}
    (h : op ∈ nums.flatMap fun i ↦ idtSetGate i (b i) sel flags) :
    ∃ num st, op = .gate num st := by
  obtain ⟨i, _, hi⟩ := List.mem_flatMap.mp h
  simp only [idtSetGate, List.mem_cons, List.not_mem_nil, or_false] at hi
  rcases hi with rfl | rfl | rfl | rfl | rfl <;> exact ⟨_, _, rfl⟩

/-- `idt_init` is straight-line code, and enables interrupts last. -/
theorem plain_idtFill {op : Op} (h : op ∈ idtFill stubs) : op.Plain ∧ op ≠ .enableInterrupts := by
  have hgate : ∀ {num st}, op = .gate num st → op.Plain ∧ op ≠ .enableInterrupts := by
    rintro num st rfl
    exact ⟨trivial, by rintro ⟨⟩⟩
  simp only [idtFill, List.mem_append, List.mem_cons, List.not_mem_nil, or_false] at h
  rcases h with ((((rfl | h) | h) | h) | h) | rfl
  · exact ⟨trivial, by rintro ⟨⟩⟩
  · obtain ⟨_, _, hop⟩ := mem_setGates (b := fun _ ↦ 0) h
    exact hgate hop
  · obtain ⟨_, _, hop⟩ := mem_setGates h
    exact hgate hop
  · have hremap : ∀ op ∈ picRemap, op.Plain ∧ op ≠ .enableInterrupts := by
      simp [picRemap, ioWait, Op.Plain]
    exact hremap op h
  · obtain ⟨_, _, hop⟩ := mem_setGates h
    exact hgate hop
  · exact ⟨trivial, by rintro ⟨⟩⟩

/-- The kernel up to the end of the first `idt_init`. -/
theorem plain_start : ∀ op ∈ .other :: idtFill stubs, op.Plain ∧ op ≠ .enableInterrupts :=
  List.forall_mem_cons.mpr ⟨⟨trivial, nofun⟩, fun _ ↦ plain_idtFill⟩

/-- What comes before `idt_init` leaves the state as it is. -/
theorem execs_start (c : Cpu) : execs (.other :: idtFill stubs) c = execs (idtFill stubs) c := by
  rw [execs_cons, Op.exec]

/-- A plain operation enables interrupts only if it is `enable_interrupts`, and loses none. -/
theorem exec_flags (op : Op) (c : Cpu) :
    (op ≠ .enableInterrupts → (op.exec c).iflag = c.iflag) ∧ (op.exec c).lost = c.lost := by
  have hout : ∀ port value, (c.outb port value).iflag = c.iflag ∧
      (c.outb port value).lost = c.lost := by
    intro port value
    unfold Cpu.outb
    split_ifs <;> exact ⟨rfl, rfl⟩
  cases op with
  | outb port value => exact ⟨fun _ ↦ (hout port value).1, (hout port value).2⟩
  | outMask1 => exact ⟨fun _ ↦ (hout 0x21 _).1, (hout 0x21 _).2⟩
  | outMask2 => exact ⟨fun _ ↦ (hout 0xA1 _).1, (hout 0xA1 _).2⟩
  | enableInterrupts => exact ⟨fun h ↦ absurd rfl h, rfl⟩
  | irqRegisterHandler irq handler =>
      rw [Op.exec]
      split <;> exact ⟨fun _ ↦ rfl, rfl⟩
  | _ => exact ⟨fun _ ↦ rfl, rfl⟩

/-- A plain operation is done after one step. -/
theorem next_plain {op : Op} (hop : op.Plain) (c : Cpu) (rest : List Op) :
    Machine.next ⟨c, op :: rest⟩ = some ⟨op.exec c, rest⟩ := by
  cases op with
  | timerSleepMs | wait | shellRun => exact hop.elim
  | _ => rfl

/-- The second `idt_init` starts by clearing the table. -/
theorem exists_afterInit (stubs : Nat → UInt32) :
    ∃ rest, afterInit stubs = betweenInits ++ (clearGates (List.range 256) ++ rest) := by
  refine ⟨?rest, ?_⟩
  rotate_left
  · simp only [afterInit, initSystem, idtInit, idtFill, betweenInits, List.append_assoc,
      List.cons_append, List.nil_append]
    rfl

/-- Clearing the table starts with a store to it. -/
theorem startsWithGate_clearGates (rest : List Op) :
    StartsWithGate (clearGates (List.range 256) ++ rest) := by
  rw [clearGates, List.range_eq_range', List.range'_succ, List.flatMap_cons]
  exact ⟨_, _, _, rfl⟩

/-- What is done between the two calls leaves the table alone. -/
theorem mild_betweenInits {op : Op} (h : op ∈ betweenInits) : op.Mild := by
  have hloop : ∀ n, op ∈ splashLoop n → op.Mild := by
    intro n hn
    obtain ⟨l, hl, hop⟩ := List.mem_flatten.mp hn
    rw [(List.mem_replicate.mp hl).2] at hop
    simp only [List.mem_cons, List.not_mem_nil, or_false] at hop
    rcases hop with rfl | rfl <;> exact trivial
  simp only [betweenInits, timerInit, showSplashScreen, List.mem_append, List.mem_cons,
    List.not_mem_nil, or_false] at h
  rcases h with ((rfl | rfl | rfl | rfl | rfl | rfl) | (rfl | h) | rfl | rfl) | rfl | rfl
  case inl.inr.inl.inr => exact hloop 40 h
  all_goals simp only [Op.Mild, ne_eq]
  all_goals decide

/-- `kernel_main` starts with the first `idt_init`. -/
theorem kernelMain_eq (stubs : Nat → UInt32) :
    kernelMain stubs = (.other :: idtFill stubs) ++ .enableInterrupts :: afterInit stubs := by
  simp only [kernelMain, idtInit, afterInit, List.append_assoc, List.cons_append, List.nil_append]

/-- The boot sequence starts in the invariant. -/
theorem Booted.bootInv (hb : Booted stubs m) : BootInv stubs m := by
  refine .early _ plain_start (hb.todo.trans (kernelMain_eq stubs)) hb.iflag hb.lost ?_
  rw [execs_start]
  exact ready_idtFill stubs hb.lost

/-! ## Steps -/

/-- The kernel is about to store to the table while interrupts are enabled. -/
def Machine.Exposed (m : Machine) : Prop := m.cpu.iflag = true ∧ StartsWithGate m.todo

/-- A step that does not store to the table while interrupts are enabled. -/
def SafeStep (stubs : Nat → UInt32) (m : Machine) (e : Event) (m' : Machine) : Prop :=
  Step stubs m e m' ∧ (e = .run → ¬ m.Exposed)

/-- Plain operations can be run one after the other. -/
theorem run_execs (stubs : Nat → UInt32) {ops : List Op} (hops : ∀ op ∈ ops, op.Plain)
    (hlost : c.lost = false) (rest : List Op) :
    ∃ es, Run (Step stubs) ⟨c, ops ++ rest⟩ es ⟨execs ops c, rest⟩ := by
  induction ops generalizing c with
  | nil => exact ⟨[], .nil _⟩
  | cons op ops ih =>
      obtain ⟨es, hrun⟩ := ih (fun op h ↦ hops op (List.mem_cons_of_mem _ h))
        ((exec_flags op c).2.trans hlost)
      exact ⟨.run :: es, .cons ⟨hlost, next_plain (hops op List.mem_cons_self) c _⟩ hrun⟩

/-- While interrupts are disabled they can be run safely. -/
theorem run_execs_safe (stubs : Nat → UInt32) {ops : List Op}
    (hops : ∀ op ∈ ops, op.Plain ∧ op ≠ .enableInterrupts) (hlost : c.lost = false)
    (hiflag : c.iflag = false) (rest : List Op) :
    ∃ es, Run (SafeStep stubs) ⟨c, ops ++ rest⟩ es ⟨execs ops c, rest⟩ := by
  induction ops generalizing c with
  | nil => exact ⟨[], .nil _⟩
  | cons op ops ih =>
      obtain ⟨hop, hne⟩ := hops op List.mem_cons_self
      obtain ⟨hflag', hlost'⟩ := exec_flags op c
      obtain ⟨es, hrun⟩ := ih (fun op h ↦ hops op (List.mem_cons_of_mem _ h))
        (hlost'.trans hlost) ((hflag' hne).trans hiflag)
      refine ⟨.run :: es, .cons ⟨⟨hlost, next_plain hop c _⟩, fun _ hexp ↦ ?_⟩ hrun⟩
      exact Bool.false_ne_true (hiflag.symm.trans hexp.1)

/-- Interrupts may be enabled safely. -/
theorem safeStep_enable (hlost : c.lost = false) (hiflag : c.iflag = false) (rest : List Op) :
    SafeStep stubs ⟨c, .enableInterrupts :: rest⟩ .run ⟨{ c with iflag := true }, rest⟩ :=
  ⟨⟨hlost, rfl⟩, fun _ hexp ↦ Bool.false_ne_true (hiflag.symm.trans hexp.1)⟩

/-- The machine as the boot loader leaves it, with the controllers as the BIOS does. -/
def bootMachine (stubs : Nat → UInt32) : Machine where
  cpu :=
    { idt := fun _ ↦ ⟨0, 0, 0, 0, 0⟩
      idtLoaded := false
      iflag := false
      pic1 := ⟨0xB8, 0x08, 0⟩
      pic2 := ⟨0x8E, 0x70, 0⟩
      mask1 := 0
      mask2 := 0
      irqHandlers := fun _ ↦ none
      timerTicks := 0
      timerFrequency := 0
      lost := false }
  todo := kernelMain stubs

/-- Stubs of 16 bytes each, right above the start of the kernel. -/
def bootStubs (v : Nat) : UInt32 := .ofNat (0x100000 + 16 * v)

/-! ## Every run -/

/-- The kernel's own steps between the two calls keep the machine ready. -/
theorem BootInv.late_run {pre rest : List Op} (hops : ∀ op ∈ pre, op.Mild)
    (hrest : StartsWithGate rest) (htodo : m.todo = pre ++ rest) (hiflag : m.cpu.iflag = true)
    (hready : Ready stubs m.cpu) (hsafe : ¬ m.Exposed) (hnext : m.next = some m') :
    BootInv stubs m' := by
  cases pre with
  | nil => exact absurd ⟨hiflag, htodo ▸ hrest⟩ hsafe
  | cons op pre =>
      obtain ⟨c, todo⟩ := m
      cases htodo
      have hop := hops op List.mem_cons_self
      have hpre : ∀ op ∈ pre, op.Mild := fun op h ↦ hops op (List.mem_cons_of_mem _ h)
      have hplain : op.Plain → BootInv stubs m' := by
        intro h
        cases (next_plain h c _).symm.trans hnext
        obtain ⟨hready', hiflag'⟩ := hready.exec hop
        exact .late pre rest hpre hrest rfl (hiflag'.trans hiflag) hready'
      cases op with
      | timerSleepMs ms =>
          cases hnext
          refine .late (.wait _ :: pre) rest ?_ hrest rfl hiflag hready
          exact List.forall_mem_cons.mpr ⟨trivial, hpre⟩
      | wait stop =>
          cases hnext
          by_cases hwait : c.timerTicks < stop
          · rw [if_pos hwait]
            exact .late (.wait stop :: pre) rest hops hrest rfl hiflag hready
          · rw [if_neg hwait]
            exact .late pre rest hpre hrest rfl hiflag hready
      | shellRun => exact hop.elim
      | _ => exact hplain trivial

/-- The kernel's own steps in the first `idt_init` keep the invariant. -/
theorem BootInv.early_run {pre : List Op} (hops : ∀ op ∈ pre, op.Plain ∧ op ≠ .enableInterrupts)
    (htodo : m.todo = pre ++ .enableInterrupts :: afterInit stubs) (hiflag : m.cpu.iflag = false)
    (hlost : m.cpu.lost = false) (hready : Ready stubs (execs pre m.cpu))
    (hnext : m.next = some m') : BootInv stubs m' := by
  obtain ⟨c, todo⟩ := m
  cases htodo
  cases pre with
  | nil =>
      cases hnext
      obtain ⟨rest, hrest⟩ := exists_afterInit stubs
      refine .late betweenInits _ (fun _ ↦ mild_betweenInits) (startsWithGate_clearGates rest) hrest
        rfl ?_
      exact ⟨hready.leadsTo, hready.loaded, hready.pic1, hready.pic2, hready.found⟩
  | cons op pre =>
      obtain ⟨hop, hne⟩ := hops op List.mem_cons_self
      cases (next_plain hop c _).symm.trans hnext
      obtain ⟨hflag', hlost'⟩ := exec_flags op c
      exact .early pre (fun op h ↦ hops op (List.mem_cons_of_mem _ h)) rfl
        ((hflag' hne).trans hiflag) (hlost'.trans hlost) hready

/-- **A step keeps the invariant.** -/
theorem BootInv.step {e : Event} (hI : BootInv stubs m) (h : SafeStep stubs m e m') :
    BootInv stubs m' := by
  obtain ⟨hstep, hsafe⟩ := h
  cases e with
  | run =>
      cases hI with
      | early pre hops htodo hiflag hlost hready =>
          exact early_run hops htodo hiflag hlost hready hstep.2
      | late pre rest hops hrest htodo hiflag hready =>
          exact late_run hops hrest htodo hiflag hready (hsafe rfl) hstep.2
  | stop =>
      -- the shell does not run before the second `idt_init`
      obtain ⟨_, hhead, _⟩ := hstep
      cases hI with
      | early pre hops htodo _ _ _ =>
          rw [htodo] at hhead
          cases pre with
          | nil => cases hhead
          | cons op pre =>
              cases Option.some.inj hhead
              exact (hops _ List.mem_cons_self).1.elim
      | late pre rest hops hrest htodo _ _ =>
          rw [htodo] at hhead
          cases pre with
          | nil =>
              obtain ⟨_, _, _, rfl⟩ := hrest
              cases hhead
          | cons op pre =>
              cases Option.some.inj hhead
              exact (hops _ List.mem_cons_self).elim
  | irq n =>
      obtain ⟨_, hn, hif, _, rfl⟩ := hstep
      cases hI with
      | early _ _ _ hiflag _ _ => exact absurd (hiflag.symm.trans hif) Bool.false_ne_true
      | late pre rest hops hrest htodo hiflag hready =>
          obtain ⟨hready', hiflag'⟩ := hready.deliver hn
          exact .late pre rest hops hrest htodo (hiflag'.trans hiflag) hready'

/-- **Interrupts are dispatched**: in every interleaving of interrupts with the boot sequence in
which the table is not stored to while interrupts are enabled, whenever interrupts are enabled
every gate below 48 leads to its stub, every interrupt that may be delivered calls
`irq_handler`, and none was lost. -/
theorem run_dispatches {es : List Event} (hb : Booted stubs m)
    (hr : Run (SafeStep stubs) m es m') :
    m'.cpu.lost = false ∧ (m'.cpu.iflag = true →
      (∀ v < 48, (m'.cpu.idt v).LeadsTo (stubs v)) ∧
        ∀ irq < 16, m'.cpu.deliver stubs irq = irqHandler m'.cpu irq) := by
  have hI := hr.invariant (I := BootInv stubs) BootInv.step hb.bootInv
  cases hI with
  | early _ _ _ hiflag hlost _ =>
      exact ⟨hlost, fun hif ↦ absurd (hiflag.symm.trans hif) Bool.false_ne_true⟩
  | late _ _ _ _ _ _ hready =>
      exact ⟨hready.found, fun _ ↦ ⟨hready.leadsTo, fun irq hirq ↦ hready.deliver_eq hirq⟩⟩

theorem run_dispatches_boot : ∃ es m, Run (SafeStep bootStubs) (bootMachine bootStubs) es m ∧
    m.cpu.iflag = true ∧ ∀ v < 48, (m.cpu.idt v).LeadsTo (bootStubs v) := by
  have hb : Booted bootStubs (bootMachine bootStubs) := ⟨rfl, rfl, rfl⟩
  obtain ⟨es, hrun⟩ := run_execs_safe bootStubs plain_start hb.lost hb.iflag
    (.enableInterrupts :: afterInit bootStubs)
  rw [← kernelMain_eq, execs_start, execs_idtFill] at hrun
  have hrun' := hrun.snoc (safeStep_enable rfl rfl (afterInit bootStubs))
  exact ⟨_, _, hrun', rfl, ((run_dispatches hb hrun').2 rfl).1⟩

/-! ## Sleeping -/

/-- The timer of the machine. -/
def Cpu.timer (c : Cpu) : Drivers.Timer := ⟨c.timerTicks, c.timerFrequency⟩

/-- The machine goes to sleep as the driver of the timer does. -/
theorem next_timerSleepMs (c : Cpu) (ms : Nat) (rest : List Op) :
    Machine.next ⟨c, .timerSleepMs ms :: rest⟩ =
      some ⟨c, .wait (Drivers.timerSleepMs c.timer ms).stop :: rest⟩ := rfl

/-- The machine goes on when the driver returns. -/
theorem next_wait (c : Cpu) (stop : Nat) (rest : List Op) :
    Machine.next ⟨c, .wait stop :: rest⟩ = some ⟨c,
      if ((Drivers.Sleep.mk c.timer stop false).step .check).returned then rest
      else .wait stop :: rest⟩ := by
  rw [Machine.next]
  by_cases hlt : c.timerTicks < stop
  · simp [Drivers.Sleep.step, Cpu.timer, hlt]
  · simp [Drivers.Sleep.step, Cpu.timer, hlt]

/-! ## An interleaving that loses an interrupt -/

/-- Interrupts of the timer are counted. -/
structure Ticking (stubs : Nat → UInt32) (c : Cpu) : Prop where
  /-- interrupts are dispatched -/
  ready : Ready stubs c
  /-- interrupts are enabled -/
  iflag : c.iflag = true
  /-- the timer is not masked -/
  unmasked : c.pic1.mask.testBit 0 = false
  /-- `timer_handler` is registered -/
  timer : c.irqHandlers 0 = some .timer
  /-- the timer runs at 100 Hz -/
  frequency : c.timerFrequency = 100

namespace Ticking

/-- The timer gets through. -/
theorem passes (h : Ticking stubs c) : c.passes 0 = true := by
  rw [Cpu.passes, if_pos (by decide), Pic.passes, h.ready.pic1.2, h.unmasked]
  rfl

/-- The number of ticks does not matter. -/
theorem ticks (h : Ticking stubs c) (n : Nat) : Ticking stubs (c.withTicks n) :=
  ⟨h.ready.ticks n, h.iflag, h.unmasked, h.timer, h.frequency⟩

/-- An interrupt of the timer is a tick. -/
theorem step_irq (h : Ticking stubs c) {n : Nat} (hn : n + 1 < 2 ^ 32) (todo : List Op) :
    Step stubs ⟨c.withTicks n, todo⟩ (.irq 0) ⟨c.withTicks (n + 1), todo⟩ := by
  have h' := h.ticks n
  obtain ⟨n', heq, hn'⟩ := irqHandler_eq (c.withTicks n) 0
  cases hn' h.timer
  refine ⟨h.ready.found, by decide, h.iflag, h'.passes, ?_⟩
  have hadd : add32 (c.withTicks n).timerTicks 1 = n + 1 := add32_of_lt hn
  rw [h'.ready.deliver_eq (by decide), heq, hadd]
  rfl

/-- As many ticks as needed. -/
theorem run_irqs (h : Ticking stubs c) {n k : Nat} (hk : n + k < 2 ^ 32) (todo : List Op) :
    Run (Step stubs) ⟨c.withTicks n, todo⟩ (List.replicate k (.irq 0))
      ⟨c.withTicks (n + k), todo⟩ := by
  induction k generalizing n with
  | zero => exact .nil _
  | succ k ih =>
      have hmore : n + (k + 1) = n + 1 + k := by omega
      rw [hmore] at hk ⊢
      exact .cons (h.step_irq (by omega) todo) (ih hk)

/-- `timer_sleep_ms` returns after enough ticks. -/
theorem run_sleep (h : Ticking stubs c) {n ms k : Nat} (hk : sleepTicks c ms = k)
    (hlt : n + k < 2 ^ 32) (rest : List Op) :
    ∃ es, Run (Step stubs) ⟨c.withTicks n, .timerSleepMs ms :: rest⟩ es
      ⟨c.withTicks (n + k), rest⟩ := by
  have hcall : Step stubs ⟨c.withTicks n, .timerSleepMs ms :: rest⟩ .run
      ⟨c.withTicks n, .wait (n + k) :: rest⟩ := by
    have hstop : add32 (c.withTicks n).timerTicks (sleepTicks (c.withTicks n) ms) = n + k :=
      (congrArg (add32 n) hk).trans (add32_of_lt hlt)
    refine ⟨h.ready.found, ?_⟩
    simp only [Machine.next, hstop]
  have hreturn : Step stubs ⟨c.withTicks (n + k), .wait (n + k) :: rest⟩ .run
      ⟨c.withTicks (n + k), rest⟩ :=
    ⟨h.ready.found, congrArg some (if_neg (Nat.lt_irrefl _))⟩
  exact ⟨_, .cons hcall ((h.run_irqs hlt _).snoc hreturn)⟩

/-- A step of the loading bar takes 7 ticks. -/
theorem run_splashLoop (h : Ticking stubs c) {n k : Nat} (hk : n + 7 * k < 2 ^ 32)
    (rest : List Op) :
    ∃ es, Run (Step stubs) ⟨c.withTicks n, splashLoop k ++ rest⟩ es
      ⟨c.withTicks (n + 7 * k), rest⟩ := by
  induction k generalizing n with
  | zero => exact ⟨[], .nil _⟩
  | succ k ih =>
      have hticks : sleepTicks c (3000 / 40) = 7 := by
        rw [sleepTicks, h.frequency]
        decide
      obtain ⟨es, hsleep⟩ := h.run_sleep hticks (n := n) (by omega) (splashLoop k ++ rest)
      obtain ⟨es', hloop⟩ := ih (n := n + 7) (by omega)
      have hdraw : Step stubs ⟨c.withTicks n, .other :: .timerSleepMs (3000 / 40) ::
          (splashLoop k ++ rest)⟩ .run ⟨c.withTicks n, .timerSleepMs (3000 / 40) ::
            (splashLoop k ++ rest)⟩ := ⟨h.ready.found, rfl⟩
      have hmore : n + 7 * (k + 1) = n + 7 + 7 * k := by omega
      rw [hmore]
      exact ⟨_, .cons hdraw (hsleep.append hloop)⟩

/-- The splash screen is over after 300 ticks. -/
theorem run_splash (h : Ticking stubs c) (rest : List Op) :
    ∃ es, Run (Step stubs)
      ⟨c.withTicks 0, .other :: (splashLoop 40 ++ .timerSleepMs 200 :: rest)⟩ es
      ⟨c.withTicks 300, rest⟩ := by
  have hdraw : Step stubs ⟨c.withTicks 0, .other :: (splashLoop 40 ++ .timerSleepMs 200 :: rest)⟩
      .run ⟨c.withTicks 0, splashLoop 40 ++ .timerSleepMs 200 :: rest⟩ := ⟨h.ready.found, rfl⟩
  have hticks : sleepTicks c 200 = 20 := by
    rw [sleepTicks, h.frequency]
    decide
  obtain ⟨es, hloop⟩ := h.run_splashLoop (n := 0) (k := 40) (by decide) (.timerSleepMs 200 :: rest)
  obtain ⟨es', hsleep⟩ := h.run_sleep hticks (n := 280) (by decide) rest
  exact ⟨_, .cons hdraw (hloop.append hsleep)⟩

/-- Once the gate of the timer is cleared, its next interrupt is lost. -/
theorem run_clear (h : Ticking stubs c) {ops : List Op} (hops : ∀ op ∈ ops, op = .other)
    (rest : List Op) :
    ∃ es m₁ m₂, Run (Step stubs) ⟨c, ops ++ clearGates (List.range 33) ++ rest⟩ es m₁ ∧
      m₁.cpu.iflag = true ∧ ¬ (m₁.cpu.idt 32).LeadsTo (stubs 32) ∧
      Step stubs m₁ (.irq 0) m₂ ∧ m₂.cpu.lost = true := by
  have hplain : ∀ op ∈ ops ++ clearGates (List.range 33), op.Plain := by
    intro op hop
    rcases List.mem_append.mp hop with hop | hop
    · rw [hops op hop]
      trivial
    · obtain ⟨_, _, rfl⟩ := mem_setGates (b := fun _ ↦ 0) hop
      trivial
  have hidle : execs ops c = c := by
    clear hplain
    induction ops with
    | nil => rfl
    | cons op ops ih =>
        cases hops op List.mem_cons_self
        exact ih fun op h ↦ hops op (List.mem_cons_of_mem _ h)
  obtain ⟨es, hrun⟩ := run_execs stubs hplain h.ready.found rest
  rw [execs_append, hidle, clearGates, execs_setGates fun _ ↦ 0] at hrun
  have hgate : ¬ (ite ((32 : Nat) ∈ List.range 33) (gateOf 0 0 0) (c.idt 32)).LeadsTo
      (stubs 32) := by
    rw [if_pos (by decide)]
    exact not_leadsTo_clear 0 (stubs 32) 0
  refine ⟨es, _, _, hrun, h.iflag, hgate, ⟨h.ready.found, by decide, h.iflag, h.passes, rfl⟩, ?_⟩
  have hvector : Cpu.vector
      { c with idt := fun v ↦ if v ∈ List.range 33 then gateOf 0 0 0 else c.idt v } 0 = 32 :=
    (Cpu.vector_congr rfl rfl 0).trans (h.ready.vector_eq (by decide))
  simp only [Cpu.deliver, hvector]
  rw [if_neg fun hfound ↦ hgate hfound.2.1]

end Ticking

/-- Interrupts of the timer are counted after the first `timer_init`. -/
theorem ticking_timerInit (h : Ready stubs c) (hmask : c.pic1.mask.testBit 0 = false) :
    ∃ c', execs (.enableInterrupts :: timerInit 100) c = c'.withTicks 0 ∧ Ticking stubs c' := by
  refine ⟨execs (.enableInterrupts :: timerInit 100) c, rfl,
    ⟨h.leadsTo, h.loaded, h.pic1, h.pic2, h.found⟩, rfl, hmask, ?_, rfl⟩
  change update c.irqHandlers 0 (some .timer) 0 = some .timer
  exact update_self ..

/-- The boot sequence up to the point where the second `idt_init` has cleared the gate of the
timer. -/
theorem exists_kernelMain (stubs : Nat → UInt32) :
    ∃ rest, kernelMain stubs =
      (.other :: idtFill stubs ++ .enableInterrupts :: timerInit 100) ++
        .other :: (splashLoop 40 ++ .timerSleepMs 200 ::
          ([.other, .other, .other] ++ clearGates (List.range 33) ++ rest)) := by
  obtain ⟨rest, hafter⟩ := exists_afterInit stubs
  have hrange : List.range 256 = List.range 33 ++ List.range' 33 223 := by
    rw [List.range_eq_range', List.range_eq_range']
    exact (List.range'_append_1 (s := 0) (m := 33) (n := 223)).symm
  have hclear : clearGates (List.range 256) =
      clearGates (List.range 33) ++ clearGates (List.range' 33 223) := by
    rw [hrange]
    exact List.flatMap_append
  refine ⟨clearGates (List.range' 33 223) ++ rest, ?_⟩
  rw [kernelMain_eq, hafter, hclear]
  simp only [betweenInits, showSplashScreen, List.append_assoc, List.cons_append, List.nil_append]

/-- **An interrupt may be lost**: if the boot loader leaves the timer unmasked, then there is an
interleaving in which an interrupt of the timer is delivered through a gate that has been
cleared. -/
theorem Booted.exists_lost (hb : Booted stubs m) (hmask : m.cpu.pic1.mask.testBit 0 = false) :
    ∃ es m₁ m₂, Run (Step stubs) m es m₁ ∧ m₁.cpu.iflag = true ∧
      ¬ (m₁.cpu.idt 32).LeadsTo (stubs 32) ∧ Step stubs m₁ (.irq 0) m₂ ∧ m₂.cpu.lost = true := by
  obtain ⟨c, todo⟩ := m
  obtain ⟨rest, hmain⟩ := exists_kernelMain stubs
  obtain rfl : todo = _ := hb.todo.trans hmain
  have hready : Ready stubs (execs (.other :: idtFill stubs) c) := by
    rw [execs_start]
    exact ready_idtFill stubs hb.lost
  have hmask' : (execs (.other :: idtFill stubs) c).pic1.mask.testBit 0 = false := by
    rw [execs_start, execs_idtFill]
    exact hmask
  obtain ⟨c', hc', hT⟩ := ticking_timerInit hready hmask'
  have hops : ∀ op ∈ .other :: idtFill stubs ++ .enableInterrupts :: timerInit 100, op.Plain := by
    intro op hop
    rcases List.mem_append.mp hop with hop | hop
    · exact (plain_start op hop).1
    · simp only [timerInit, List.mem_cons, List.not_mem_nil, or_false] at hop
      rcases hop with rfl | rfl | rfl | rfl | rfl | rfl | rfl <;> trivial
  obtain ⟨es₁, hinit⟩ := run_execs stubs hops hb.lost
    (.other :: (splashLoop 40 ++ .timerSleepMs 200 ::
      ([.other, .other, .other] ++ clearGates (List.range 33) ++ rest)))
  rw [execs_append, hc'] at hinit
  obtain ⟨es₂, hsplash⟩ := hT.run_splash
    ([.other, .other, .other] ++ clearGates (List.range 33) ++ rest)
  have hother : ∀ op ∈ [Op.other, .other, .other], op = .other :=
    fun op hop ↦ List.eq_of_mem_replicate (n := 3) hop
  obtain ⟨es₃, m₁, m₂, hclear, hlost⟩ := (hT.ticks 300).run_clear hother rest
  exact ⟨_, m₁, m₂, hinit.append (hsplash.append hclear), hlost⟩

theorem interrupt_lost : ∃ es m₁ m₂, Booted bootStubs (bootMachine bootStubs) ∧
    Run (Step bootStubs) (bootMachine bootStubs) es m₁ ∧ m₁.cpu.iflag = true ∧
      ¬ (m₁.cpu.idt 32).LeadsTo (bootStubs 32) ∧
      Step bootStubs m₁ (.irq 0) m₂ ∧ m₂.cpu.lost = true := by
  have hb : Booted bootStubs (bootMachine bootStubs) := ⟨rfl, rfl, rfl⟩
  obtain ⟨es, m₁, m₂, hrun⟩ := hb.exists_lost (by decide)
  exact ⟨es, m₁, m₂, hb, hrun⟩

end KontolOS.Boot
