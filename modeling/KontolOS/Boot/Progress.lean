import KontolOS.Boot.Gates
import KontolOS.Boot.Startup

/-!
# From `kernel_main` to the prompt

The two views of `kernel_main` in one machine: its operations act on the processor and the
controllers, or on what is seen, and interrupts come in between, as in the boot sequence.  A sleep
lasts as long as the timer lets it, and an interrupt that is lost ends everything.

What is seen does not depend on the interrupts: not while the splash screen is there (`run_loads`),
and not when `shell_run` is called.  Interrupts are set up then, unless one was lost
(`kernelMain_starts`).  If the timer is not masked, `shell_run` can be reached
(`exists_run_shell`).
-/

namespace KontolOS.Boot.Startup

open KontolOS.Lib KontolOS.Memory KontolOS.Strings KontolOS.Drivers KontolOS.Fs KontolOS.Shell

/-! ## Steps -/

/-- A machine that executes `kernel_main`, with what is seen of it. -/
structure Progress where
  /-- the processor and the controllers -/
  cpu : Cpu
  /-- what is left to do -/
  todo : List Act
  /-- the screen, the heap and the files -/
  seen : Startup

namespace Progress

/-- The next step of the kernel itself. -/
def next (p : Progress) : Option Progress :=
  match p.todo with
  | [] => none
  | a :: rest =>
      match a.op? with
      | some o => (Machine.next ⟨p.cpu, [o]⟩).map fun m ↦ ⟨m.cpu, m.todo.map .op ++ rest, p.seen⟩
      | none => (a.exec p.seen).map fun s ↦ ⟨p.cpu, rest, s⟩

/-- One step, unless an interrupt was lost.  No handler does anything to what is seen. -/
def Step (stubs : Nat → UInt32) (p : Progress) : Event → Progress → Prop
  | .run, p' => p.cpu.lost = false ∧ p.next = some p'
  | .stop, _ => False
  | .irq n, p' => p.cpu.lost = false ∧ n < 16 ∧ p.cpu.iflag = true ∧ p.cpu.passes n = true ∧
      p' = { p with cpu := p.cpu.deliver stubs n }

variable {stubs : Nat → UInt32} {p p' : Progress} {e : Event} {es : List Event} {c c' : Cpu}
  {s s' : Startup} {acts rest : List Act} {ops : List Op}

theorem op?_eq_some {a : Act} {o : Op} (h : a.op? = some o) : a = .op o := by
  cases a with
  | op o' => rw [Option.some.inj h]
  | _ => cases h

/-- What a step can do: an interrupt, an operation that concerns them, or one that is seen. -/
theorem step_cases (h : Step stubs p e p') :
    (∃ n, p' = { p with cpu := p.cpu.deliver stubs n }) ∨
    (∃ o rest m, p.todo = .op o :: rest ∧ Machine.next ⟨p.cpu, [o]⟩ = some m ∧
      p' = ⟨m.cpu, m.todo.map .op ++ rest, p.seen⟩) ∨
    ∃ a rest s, p.todo = a :: rest ∧ a.op? = none ∧ a.exec p.seen = some s ∧
      p' = ⟨p.cpu, rest, s⟩ := by
  obtain ⟨c, todo, s⟩ := p
  cases e with
  | stop => exact h.elim
  | irq n =>
      obtain ⟨_, _, _, _, rfl⟩ := h
      exact .inl ⟨n, rfl⟩
  | run =>
      obtain ⟨_, hnext⟩ := h
      cases todo with
      | nil => cases hnext
      | cons a rest =>
          cases hop : a.op? with
          | some o =>
              simp only [next, hop] at hnext
              obtain ⟨m, hm, rfl⟩ := Option.map_eq_some_iff.mp hnext
              exact .inr (.inl ⟨o, rest, m, by rw [op?_eq_some hop], hm, rfl⟩)
          | none =>
              simp only [next, hop] at hnext
              obtain ⟨s', hexec, rfl⟩ := Option.map_eq_some_iff.mp hnext
              exact .inr (.inr ⟨a, rest, s', rfl, hop, hexec, rfl⟩)

theorem Step.lost (h : Step stubs p e p') : p.cpu.lost = false := by
  cases e with
  | stop => exact h.elim
  | _ => exact h.1

/-! ## What is seen -/

/-- What concerns interrupts is not seen. -/
theorem execActs_ops (ops : List Op) (rest : List Act) (s : Startup) :
    execActs (ops.map .op ++ rest) s = execActs rest s := by
  induction ops with
  | nil => rfl
  | cons o ops ih => exact ih

/-- What has been seen and what is still to be seen are the same together. -/
theorem seen_step (h : Step stubs p e p') :
    execActs p'.todo p'.seen = execActs p.todo p.seen := by
  rcases step_cases h with ⟨n, rfl⟩ | ⟨o, rest, m, htodo, _, rfl⟩ |
    ⟨a, rest, s, htodo, _, hexec, rfl⟩
  · rfl
  · rw [htodo]
    exact execActs_ops m.todo rest p.seen
  · rw [htodo]
    exact (execActs_cons hexec).symm

/-- What `acts` shows has been seen when as much is left to do as behind it. -/
def Shows (acts rest : List Act) (s : Startup) (p : Progress) : Prop :=
  (∃ first last, p.todo = first ++ last ∧ last.length = rest.length ∧
    execActs first p.seen = execActs acts s) ∨ p.todo.length < rest.length

/-- A single operation leaves itself or nothing. -/
theorem next_length {o : Op} {m : Machine} (h : Machine.next ⟨c, [o]⟩ = some m) :
    m.todo.length ≤ 1 := by
  cases o with
  | wait stop =>
      obtain rfl := Option.some.inj h
      split
      · exact Nat.le_refl 1
      · exact Nat.zero_le 1
  | timerSleepMs ms =>
      obtain rfl := Option.some.inj h
      exact Nat.le_refl 1
  | shellRun =>
      obtain rfl := Option.some.inj h
      exact Nat.le_refl 1
  | _ =>
      obtain rfl := Option.some.inj h
      exact Nat.zero_le 1

/-- A step keeps that: a wait takes as long as it takes, and shows nothing. -/
theorem Shows.step (hp : Shows acts rest s p) (h : Step stubs p e p') : Shows acts rest s p' := by
  rcases step_cases h with ⟨n, rfl⟩ | ⟨o, tail, m, htodo, hm, rfl⟩ |
    ⟨a, tail, s₁, htodo, _, hexec, rfl⟩
  · exact hp
  · have hlen := next_length hm
    rcases hp with ⟨first, last, hsplit, hlast, hshow⟩ | hless
    · cases first with
      | nil =>
          -- it is the first operation behind
          have hsame : last = .op o :: tail := hsplit.symm.trans htodo
          rw [hsame, List.length_cons] at hlast
          rcases Nat.lt_or_ge m.todo.length 1 with hzero | hone
          · refine .inr ?_
            simp only [List.length_append, List.length_map]
            omega
          · refine .inl ⟨[], m.todo.map .op ++ tail, rfl, ?_, hshow⟩
            simp only [List.length_append, List.length_map]
            omega
      | cons a first =>
          obtain ⟨rfl, rfl⟩ := List.cons.inj (htodo.symm.trans hsplit)
          refine .inl ⟨m.todo.map .op ++ first, last, (List.append_assoc _ _ _).symm, hlast, ?_⟩
          exact (execActs_ops m.todo first p.seen).trans hshow
    · refine .inr ?_
      rw [htodo, List.length_cons] at hless
      simp only [List.length_append, List.length_map]
      omega
  · rcases hp with ⟨first, last, hsplit, hlast, hshow⟩ | hless
    · cases first with
      | nil =>
          have hsame : last = a :: tail := hsplit.symm.trans htodo
          rw [hsame, List.length_cons] at hlast
          exact .inr (Nat.lt_of_succ_le hlast.le)
      | cons b first =>
          obtain ⟨rfl, rfl⟩ := List.cons.inj (htodo.symm.trans hsplit)
          exact .inl ⟨first, last, rfl, hlast, (execActs_cons hexec).symm.trans hshow⟩
    · rw [htodo, List.length_cons] at hless
      exact .inr (Nat.lt_of_succ_lt hless)

/-- **What is seen on the way**, in every run. -/
theorem seen_of_length (hr : Run (Step stubs) ⟨c, acts ++ rest, s⟩ es p)
    (hlen : p.todo.length = rest.length) : execActs acts s = some p.seen := by
  have hshows := hr.invariant (I := Shows acts rest s) Shows.step (.inl ⟨acts, rest, rfl, rfl, rfl⟩)
  rcases hshows with ⟨first, last, hsplit, hlast, hshow⟩ | hless
  · rw [hsplit, List.length_append, hlast] at hlen
    obtain rfl := List.eq_nil_of_length_eq_zero (Nat.add_eq_right.mp hlen)
    exact hshow.symm
  · exact absurd hlen hless.ne

/-! ## Interrupts -/

/-- An operation does the same, whatever the number of ticks. -/
theorem exec_withTicks (o : Op) (c : Cpu) (n : Nat) :
    (o.exec (c.withTicks n)).withTicks 0 = (o.exec c).withTicks 0 := by
  have hout : ∀ port value, ((c.withTicks n).outb port value).withTicks 0 =
      (c.outb port value).withTicks 0 := by
    intro port value
    simp only [Cpu.outb]
    split_ifs <;> rfl
  cases o with
  | outb port value => exact hout port value
  | outMask1 => exact hout 0x21 c.mask1
  | outMask2 => exact hout 0xA1 c.mask2
  | irqRegisterHandler irq handler =>
      simp only [Op.exec]
      split <;> rfl
  | _ => rfl

/-- So do operations one after the other. -/
theorem execs_congr (h : c.withTicks 0 = c'.withTicks 0) (ops : List Op) :
    (execs ops c).withTicks 0 = (execs ops c').withTicks 0 := by
  induction ops generalizing c c' with
  | nil => exact h
  | cons o ops ih =>
      refine ih ?_
      rw [← exec_withTicks o c 0, h, exec_withTicks]

/-- An interrupt is lost, or it changes at most the number of ticks. -/
theorem deliver_withTicks (stubs : Nat → UInt32) (c : Cpu) (n : Nat) :
    (c.deliver stubs n).lost = true ∨ (c.deliver stubs n).withTicks 0 = c.withTicks 0 := by
  simp only [Cpu.deliver]
  split
  · obtain ⟨k, heq, _⟩ := irqHandler_eq c (c.vector n - 32)
    rw [heq]
    exact .inr rfl
  · exact .inl rfl

/-- What concerns nothing changes nothing. -/
theorem execs_filter (ops : List Op) (c : Cpu) : execs (ops.filter concerns) c = execs ops c := by
  induction ops generalizing c with
  | nil => rfl
  | cons o ops ih =>
      cases o with
      | other => exact ih c
      | _ => exact ih _

/-- A step of a single operation, which goes on with what comes behind. -/
theorem execs_next {o : Op} {m : Machine} (h : Machine.next ⟨c, [o]⟩ = some m) :
    execs m.todo m.cpu = o.exec c := by
  cases o with
  | wait stop =>
      obtain rfl := Option.some.inj h
      split <;> rfl
  | _ =>
      obtain rfl := Option.some.inj h
      rfl

/-- Where the machine gets to, unless an interrupt is lost. -/
def Heads (c : Cpu) (p : Progress) : Prop :=
  p.cpu.lost = true ∨ (execs (about p.todo) p.cpu).withTicks 0 = c.withTicks 0

/-- **A step keeps the direction.** -/
theorem Heads.step (hp : Heads c p) (h : Step stubs p e p') : Heads c p' := by
  have hdir := hp.resolve_left (Bool.eq_false_iff.mp h.lost)
  rcases step_cases h with ⟨n, rfl⟩ | ⟨o, rest, m, htodo, hm, rfl⟩ |
    ⟨a, rest, s, htodo, hop, _, rfl⟩
  · exact (deliver_withTicks stubs p.cpu n).imp_right fun hsame ↦ (execs_congr hsame _).trans hdir
  · refine .inr (Eq.trans ?_ hdir)
    have hhead : about p.todo = about [.op o] ++ about rest := by
      rw [htodo, ← about_append]
      rfl
    have hone : execs (about [.op o]) p.cpu = o.exec p.cpu := execs_filter [o] p.cpu
    rw [hhead, about_append, about_map, execs_append, execs_append, execs_filter, hone,
      execs_next hm]
  · refine .inr (Eq.trans ?_ hdir)
    rw [htodo, about, about, List.filterMap_cons_none hop]

/-! ## When the shell is called -/

theorem lost_execs (ops : List Op) (c : Cpu) : (execs ops c).lost = c.lost := by
  induction ops generalizing c with
  | nil => rfl
  | cons o ops ih => exact (ih (o.exec c)).trans (exec_flags o c).2

/-- Interrupts are set up. -/
structure Serving (stubs : Nat → UInt32) (c : Cpu) : Prop where
  /-- they are dispatched -/
  ready : Ready stubs c
  /-- they are enabled -/
  iflag : c.iflag = true
  /-- the timer counts -/
  timer : c.irqHandlers 0 = some .timer
  /-- keys are received -/
  keyboard : c.irqHandlers 1 = some .keyboard

theorem execs_timerInit (c : Cpu) : execs (timerInit 100) c =
    { c with
      timerFrequency := 100
      timerTicks := 0
      irqHandlers := Function.update c.irqHandlers 0 (some .timer) } := rfl

theorem execs_keyboardInit (c : Cpu) : execs Boot.keyboardInit c =
    { c with irqHandlers := Function.update c.irqHandlers 1 (some .keyboard) } := rfl

/-- What comes behind the second `idt_init` -/
theorem Serving.of_ready (h : Ready stubs c) : Serving stubs
    (execs (.enableInterrupts :: .other :: timerInit 100 ++ .other :: Boot.keyboardInit ++
      [.other, .other, .shellRun]) c) := by
  simp only [List.cons_append, execs_cons, execs_append, execs_timerInit, execs_keyboardInit]
  exact ⟨⟨h.leadsTo, h.loaded, h.pic1, h.pic2, h.found⟩, rfl, rfl, rfl⟩

/-- `kernel_main` up to the second `idt_init`, and behind it -/
theorem kernelMain_split (stubs : Nat → UInt32) : ∃ ops, Boot.kernelMain stubs =
    ops ++ (idtFill stubs ++ (.enableInterrupts :: .other :: timerInit 100 ++
      .other :: Boot.keyboardInit ++ [.other, .other, .shellRun])) := by
  refine ⟨.other :: idtInit stubs ++ timerInit 100 ++ Boot.showSplashScreen ++ [.other], ?_⟩
  simp only [Boot.kernelMain, Boot.initSystem, idtInit, List.append_assoc, List.cons_append,
    List.nil_append]

/-- The second `idt_init` fills the table as the first one did, and the handlers are registered
behind it. -/
theorem serving_execs (stubs : Nat → UInt32) (hlost : c.lost = false) :
    Serving stubs (execs (Boot.kernelMain stubs) c) := by
  obtain ⟨ops, hsplit⟩ := kernelMain_split stubs
  rw [hsplit, execs_append, execs_append]
  exact .of_ready (ready_idtFill stubs ((lost_execs ops c).trans hlost))

/-- The number of ticks does not matter. -/
theorem Serving.of_withTicks (h : Serving stubs c) (heq : c'.withTicks 0 = c.withTicks 0) :
    Serving stubs c' := by
  have hsame : (c'.withTicks 0).withTicks c'.timerTicks =
      (c.withTicks 0).withTicks c'.timerTicks := by rw [heq]
  change c' = c.withTicks c'.timerTicks at hsame
  rw [hsame]
  exact ⟨h.ready.ticks _, h.iflag, h.timer, h.keyboard⟩

/-! ## Runs without a loss -/

/-- Operations that do not wait are done one after the other. -/
theorem run_acts (stubs : Nat → UInt32) (hops : ∀ o ∈ acts.filterMap Act.op?, o.Plain)
    (hlost : c.lost = false) (hexec : execActs acts s = some s') (rest : List Act) :
    ∃ es, Run (Step stubs) ⟨c, acts ++ rest, s⟩ es
      ⟨execs (acts.filterMap Act.op?) c, rest, s'⟩ := by
  induction acts generalizing c s with
  | nil =>
      cases hexec
      exact ⟨[], .nil _⟩
  | cons a acts ih =>
      obtain ⟨s₁, hone, hmore⟩ := Option.bind_eq_some_iff.mp hexec
      cases hop : a.op? with
      | none =>
          rw [List.filterMap_cons_none hop] at hops ⊢
          obtain ⟨es, hrun⟩ := ih hops hlost hmore
          refine ⟨.run :: es, .cons ⟨hlost, ?_⟩ hrun⟩
          simp only [List.cons_append, next, hop, hone, Option.map_some]
      | some o =>
          rw [List.filterMap_cons_some hop, List.forall_mem_cons] at hops
          rw [List.filterMap_cons_some hop]
          obtain rfl := op?_eq_some hop
          obtain rfl : s = s₁ := Option.some.inj hone
          obtain ⟨es, hrun⟩ := ih hops.2 ((exec_flags o c).2.trans hlost) hmore
          refine ⟨.run :: es, .cons ⟨hlost, ?_⟩ hrun⟩
          simp only [List.cons_append, next, hop, next_plain hops.1, Option.map_some]
          rfl

/-- An interrupt in the boot sequence -/
theorem step_irq {ops' : List Op} {n : Nat} (h : Boot.Step stubs ⟨c, ops⟩ (.irq n) ⟨c', ops'⟩)
    (acts : List Act) (s : Startup) : Step stubs ⟨c, acts, s⟩ (.irq n) ⟨c', acts, s⟩ := by
  obtain ⟨hlost, hn, hif, hpass, heq⟩ := h
  cases heq
  exact ⟨hlost, hn, hif, hpass, rfl⟩

/-- As many ticks as needed. -/
theorem run_irqs (h : Ticking stubs c) {n k : Nat} (hk : n + k < 2 ^ 32) (acts : List Act)
    (s : Startup) :
    Run (Step stubs) ⟨c.withTicks n, acts, s⟩ (List.replicate k (.irq 0))
      ⟨c.withTicks (n + k), acts, s⟩ := by
  induction k generalizing n with
  | zero => exact .nil _
  | succ k ih =>
      have hmore : n + (k + 1) = n + 1 + k := by omega
      rw [hmore] at hk ⊢
      exact .cons (step_irq (h.step_irq (by omega) []) acts s) (ih hk)

/-- `timer_sleep_ms` returns after enough ticks, as in the driver of the timer. -/
theorem run_sleep (h : Ticking stubs c) {n ms k : Nat} (hk : sleepTicks c ms = k)
    (hlt : n + k < 2 ^ 32) (rest : List Act) (s : Startup) :
    ∃ es, Run (Step stubs) ⟨c.withTicks n, .op (.timerSleepMs ms) :: rest, s⟩ es
      ⟨c.withTicks (n + k), rest, s⟩ := by
  have hstop : (Drivers.timerSleepMs (c.withTicks n).timer ms).stop = n + k :=
    (congrArg (add32 n) hk).trans (add32_of_lt hlt)
  have hcall : Step stubs ⟨c.withTicks n, .op (.timerSleepMs ms) :: rest, s⟩ .run
      ⟨c.withTicks n, .op (.wait (n + k)) :: rest, s⟩ := by
    refine ⟨h.ready.found, ?_⟩
    simp only [next, Act.op?, next_timerSleepMs, hstop, Option.map_some]
    rfl
  have hreturn : Step stubs ⟨c.withTicks (n + k), .op (.wait (n + k)) :: rest, s⟩ .run
      ⟨c.withTicks (n + k), rest, s⟩ := by
    have hover : ((Drivers.Sleep.mk (c.withTicks (n + k)).timer (n + k) false).step
        .check).returned = true := by
      simp [Drivers.Sleep.step, Cpu.timer, Cpu.withTicks]
    refine ⟨h.ready.found, ?_⟩
    simp only [next, Act.op?, next_wait, hover, if_true, Option.map_some]
    rfl
  exact ⟨_, .cons hcall ((run_irqs h hlt _ s).snoc hreturn)⟩

/-- A round of the loop takes 7 ticks. -/
theorem run_rounds (h : Ticking stubs c) {n t : Nat} (ht : t + 7 * n < 2 ^ 32)
    (hexec : execActs ((List.range n).flatMap splashStep) s = some s') (rest : List Act) :
    ∃ es, Run (Step stubs) ⟨c.withTicks t, (List.range n).flatMap splashStep ++ rest, s⟩ es
      ⟨c.withTicks (t + 7 * n), rest, s'⟩ := by
  induction n generalizing s' rest with
  | zero =>
      cases hexec
      exact ⟨[], .nil _⟩
  | succ n ih =>
      rw [List.range_succ, List.flatMap_append, List.flatMap_singleton] at hexec ⊢
      obtain ⟨s₁, hrounds, hstep⟩ := exists_of_execActs_append hexec
      have hsplit : splashStep n = (splashStep n).dropLast ++ [.op (.timerSleepMs (3000 / 40))] :=
        rfl
      rw [hsplit] at hstep ⊢
      obtain ⟨s₂, hdraw, hsleep⟩ := exists_of_execActs_append hstep
      cases hsleep
      have hticks : sleepTicks c (3000 / 40) = 7 := by
        rw [sleepTicks, h.frequency]
        decide
      obtain ⟨es₁, hrun₁⟩ := ih (by omega) hrounds
        ((splashStep n).dropLast ++ (.op (.timerSleepMs (3000 / 40)) :: rest))
      obtain ⟨es₂, hrun₂⟩ := run_acts stubs (c := c.withTicks (t + 7 * n))
        (fun o ho ↦ absurd ho List.not_mem_nil) h.ready.found hdraw
        (.op (.timerSleepMs (3000 / 40)) :: rest)
      obtain ⟨es₃, hrun₃⟩ := run_sleep h (n := t + 7 * n) hticks (by omega) rest s'
      refine ⟨es₁ ++ (es₂ ++ es₃), ?_⟩
      rw [List.append_assoc, List.append_assoc]
      exact hrun₁.append (hrun₂.append hrun₃)

end Progress

open Progress (seen_step seen_of_length Heads execs_filter Serving serving_execs run_acts run_sleep
  run_rounds lost_execs)

variable {stubs : Nat → UInt32} {start stop : UInt8} {v : Vga} {sys : Sys} {c : Cpu}
  {es : List Event} {p : Progress} {buffer : List UInt8}

/-- `kernel_main` before the loop that animates the bar -/
def beforeLoop (stubs : Nat → UInt32) : List Act :=
  [.vgaInit, .vga .clear] ++ (idtInit stubs).map .op ++ (timerInit 100).map .op ++ splashPicture

/-- `kernel_main` behind its last sleep -/
def afterSleep (stubs : Nat → UInt32) (start stop : UInt8) : List Act :=
  [.vga .clear, .vgaShowCursor start stop] ++ initSystem stubs ++
    [.vga (.setColor 10 0), .vga (.print (literal "\n[+] System initialization complete!\n")),
      .vga (.setColor 15 0), .vga (.print (literal "[*] Starting shell...\n\n"))]

/-- The sleeps are in between. -/
theorem kernelMain_eq (stubs : Nat → UInt32) (start stop : UInt8) : kernelMain stubs start stop =
    beforeLoop stubs ++ ((List.range 40).flatMap splashStep ++
      ([.op (.timerSleepMs 200)] ++ (afterSleep stubs start stop ++ [.op .shellRun]))) := by
  simp only [kernelMain, showSplashScreen, beforeLoop, afterSleep, List.append_assoc,
    List.cons_append, List.nil_append]

/-- `kernel_main` behind `n` rounds of the loop -/
def behindRounds (stubs : Nat → UInt32) (start stop : UInt8) (n : Nat) : List Act :=
  (List.range' n (40 - n)).flatMap splashStep ++
    ([.op (.timerSleepMs 200)] ++ (afterSleep stubs start stop ++ [.op .shellRun]))

theorem kernelMain_rounds {n : Nat} (hn : n ≤ 40) (stubs : Nat → UInt32) (start stop : UInt8) :
    kernelMain stubs start stop =
      (beforeLoop stubs ++ (List.range n).flatMap splashStep) ++
        behindRounds stubs start stop n := by
  have hrange : List.range 40 = List.range n ++ List.range' n (40 - n) := by
    have happend : List.range' 0 n ++ List.range' (0 + 1 * n) (40 - n) =
        List.range' 0 (n + (40 - n)) := List.range'_append
    rw [Nat.one_mul, Nat.zero_add, Nat.add_sub_cancel' hn] at happend
    rw [List.range_eq_range', List.range_eq_range', happend]
  rw [kernelMain_eq, behindRounds, hrange, List.flatMap_append]
  simp only [List.append_assoc]

/-- The picture is there before the loop. -/
theorem loading_beforeLoop (stubs : Nat → UInt32) (v : Vga) (sys : Sys) :
    ∃ v', execActs (beforeLoop stubs) ⟨v, sys⟩ = some ⟨v', sys⟩ ∧ Loading v.vgaBuffer 0 v' := by
  obtain ⟨v₁, hbefore, hv₁⟩ := exec_beforeSplash stubs v sys
  obtain ⟨v', hpicture, h⟩ := loading_splashPicture hv₁.beyond sys
  exact ⟨v', execActs_append hbefore hpicture, h⟩

/-- **The splash screen in a run**: however interrupts come in between, while round `n` of the loop
sleeps the bar has `n + 1` segments and the text says as much, and it stays so until the sleep
ends. -/
theorem run_loads {n : Nat} (hn : n < 40) {start stop : UInt8} {o : Op}
    (hr : Run (Progress.Step stubs) ⟨c, kernelMain stubs start stop, ⟨v, sys⟩⟩ es p)
    (htodo : p.todo = .op o :: behindRounds stubs start stop (n + 1)) :
    Loading v.vgaBuffer (n + 1) p.seen.vga ∧ p.seen.sys = sys := by
  obtain ⟨v₀, hbefore, h₀⟩ := loading_beforeLoop stubs v sys
  obtain ⟨v₁, hrounds, h₁⟩ := h₀.rounds sys hn
  have hall := execActs_append hbefore hrounds
  -- the sleep is the last operation of the round
  have hround : (List.range (n + 1)).flatMap splashStep =
      ((List.range n).flatMap splashStep ++ (splashStep n).dropLast) ++
        [.op (.timerSleepMs (3000 / 40))] := by
    rw [List.range_succ, List.flatMap_append, List.flatMap_singleton, List.append_assoc]
    rfl
  rw [hround, ← List.append_assoc] at hall
  obtain ⟨s, hdraw, hsleep⟩ := exists_of_execActs_append hall
  cases hsleep
  rw [kernelMain_rounds hn, hround, ← List.append_assoc, List.append_assoc _ [_]] at hr
  have hseen := seen_of_length hr (by rw [htodo]; rfl)
  have hsame : _ = p.seen := Option.some.inj (hdraw.symm.trans hseen)
  rw [← hsame]
  exact ⟨h₁, rfl⟩

theorem filterMap_map_op (ops : List Op) : (ops.map Act.op).filterMap Act.op? = ops := by
  rw [List.filterMap_map]
  exact List.filterMap_some

theorem ops_beforeLoop (stubs : Nat → UInt32) : (beforeLoop stubs).filterMap Act.op? =
    idtFill stubs ++ .enableInterrupts :: timerInit 100 := by
  have hpicture : splashPicture.filterMap Act.op? = [] := rfl
  have hinit : [Act.vgaInit, .vga .clear].filterMap Act.op? = [] := rfl
  rw [beforeLoop, List.filterMap_append, List.filterMap_append, List.filterMap_append,
    filterMap_map_op, filterMap_map_op, hpicture, hinit, idtInit]
  simp only [List.nil_append, List.append_nil, List.append_assoc, List.cons_append]

theorem ops_component (text : String) (acts : List Act) :
    (component text acts).filterMap Act.op? = acts.filterMap Act.op? := by
  rw [component, List.cons_append, List.filterMap_cons_none rfl, List.filterMap_append]
  exact List.append_nil _

theorem ops_afterSleep (stubs : Nat → UInt32) (start stop : UInt8) :
    (afterSleep stubs start stop).filterMap Act.op? =
      idtInit stubs ++ timerInit 100 ++ Boot.keyboardInit := by
  have hsystem : (initSystem stubs).filterMap Act.op? =
      idtInit stubs ++ timerInit 100 ++ Boot.keyboardInit := by
    rw [initSystem, List.cons_append, List.cons_append, List.cons_append, List.cons_append,
      List.filterMap_cons_none rfl]
    simp only [List.filterMap_append, ops_component, filterMap_map_op]
    exact List.append_nil _
  rw [afterSleep, List.filterMap_append, List.filterMap_append, hsystem]
  exact List.append_nil _

theorem plain_idtInit {o : Op} (h : o ∈ idtInit stubs) : o.Plain := by
  rcases List.mem_append.mp h with h | h
  · exact (plain_idtFill h).1
  · rw [List.mem_singleton.mp h]
    trivial

theorem plain_timerInit {o : Op} (h : o ∈ timerInit 100) : o.Plain := by
  simp only [timerInit, List.mem_cons, List.not_mem_nil, or_false] at h
  rcases h with rfl | rfl | rfl | rfl | rfl | rfl <;> trivial

/-- **`shell_run` can be reached**: if the boot loader leaves the timer unmasked, there is a run in
which no interrupt is lost and `kernel_main` calls it. -/
theorem exists_run_shell (stubs : Nat → UInt32) (start stop : UInt8) (v : Vga) (sys : Sys)
    (hlost : c.lost = false) (hmask : c.pic1.mask.testBit 0 = false) :
    ∃ es p, Run (Progress.Step stubs) ⟨c, kernelMain stubs start stop, ⟨v, sys⟩⟩ es p ∧
      p.todo = [.op .shellRun] ∧ p.cpu.lost = false := by
  obtain ⟨_, v', hexec, _⟩ := exec_kernelMain stubs start stop v sys
  rw [kernelMain_eq] at hexec ⊢
  obtain ⟨s₁, hbefore, hexec⟩ := exists_of_execActs_append hexec
  obtain ⟨s₂, hrounds, hexec⟩ := exists_of_execActs_append hexec
  obtain ⟨s₃, hsleep, hexec⟩ := exists_of_execActs_append hexec
  obtain ⟨s₄, hafter, _⟩ := exists_of_execActs_append hexec
  cases hsleep
  -- the timer is started
  have hready := ready_idtFill stubs hlost
  have hmask' : (execs (idtFill stubs) c).pic1.mask.testBit 0 = false := by
    rw [execs_idtFill]
    exact hmask
  obtain ⟨c₁, hc₁, hticking⟩ := ticking_timerInit hready hmask'
  have hops : ∀ o ∈ (beforeLoop stubs).filterMap Act.op?, o.Plain := by
    intro o ho
    rw [ops_beforeLoop] at ho
    rcases List.mem_append.mp ho with ho | ho
    · exact (plain_idtFill ho).1
    · rcases List.mem_cons.mp ho with rfl | ho
      · trivial
      · exact plain_timerInit ho
  obtain ⟨es₁, hrun₁⟩ := run_acts stubs hops hlost hbefore ((List.range 40).flatMap splashStep ++
    ([.op (.timerSleepMs 200)] ++ (afterSleep stubs start stop ++ [.op .shellRun])))
  rw [ops_beforeLoop, execs_append, hc₁] at hrun₁
  -- it lets the sleeps end
  obtain ⟨es₂, hrun₂⟩ := run_rounds hticking (t := 0) (by decide) hrounds
    ([.op (.timerSleepMs 200)] ++ (afterSleep stubs start stop ++ [.op .shellRun]))
  have hticks : sleepTicks c₁ 200 = 20 := by
    rw [sleepTicks, hticking.frequency]
    decide
  obtain ⟨es₃, hrun₃⟩ := run_sleep hticking (n := 0 + 7 * 40) hticks (by decide)
    (afterSleep stubs start stop ++ [.op .shellRun]) s₂
  -- and no interrupt comes during the second `idt_init`
  have hops' : ∀ o ∈ (afterSleep stubs start stop).filterMap Act.op?, o.Plain := by
    intro o ho
    rw [ops_afterSleep] at ho
    rcases List.mem_append.mp ho with ho | ho
    · rcases List.mem_append.mp ho with ho | ho
      · exact plain_idtInit ho
      · exact plain_timerInit ho
    · rcases List.mem_cons.mp ho with rfl | ho
      · trivial
      · rw [List.mem_singleton.mp ho]
        trivial
  have hfound : (c₁.withTicks (0 + 7 * 40 + 20)).lost = false := hticking.ready.found
  obtain ⟨es₄, hrun₄⟩ := run_acts stubs hops' hfound hafter [.op .shellRun]
  exact ⟨_, _, hrun₁.append (hrun₂.append (hrun₃.append hrun₄)), rfl,
    (lost_execs _ _).trans hfound⟩

/-- **`kernel_main` gets to the prompt**: in every run, however interrupts come in between and
whatever memory and screen contain when it starts, if no interrupt is lost then, when it calls
`shell_run`, the screen was cleared and shows the log, the heap is one free block, there are no
files, and interrupts are set up.  From there on the shell does what the abstract shell does. -/
theorem kernelMain_starts (hnames : ∀ i, (sys.fileTable i).name.length = fsMaxFilename)
    (hcwd : sys.currentDir = rootDir) (hbuffer : buffer.length = shellBufferSize)
    (keys : List UInt8)
    (hr : Run (Progress.Step stubs) ⟨c, kernelMain stubs start stop, ⟨v, sys⟩⟩ es p)
    (htodo : p.todo = [.op .shellRun]) (hlost : p.cpu.lost = false) :
    (∃ v₀, Images ⟨0, fun _ ↦ 0x20⟩ v₀ ∧ Emits v₀ bootLog p.seen.vga) ∧
      Starts v.vgaBuffer ⟨p.seen.vga, buffer, keys, ⟨p.seen.sys, [], p.cpu.iflag, .running⟩⟩ ∧
      Serving stubs p.cpu := by
  have hfirst : c.lost = false := by
    cases hr with
    | nil => exact hlost
    | cons hstep _ => exact hstep.lost
  obtain ⟨v₀, v', hexec, hblank, hemits, hv'⟩ := exec_kernelMain stubs start stop v sys
  have habout := about_kernelMain stubs start stop
  generalize kernelMain stubs start stop = acts at hr hexec habout
  -- what is seen
  have hseen := hr.invariant (I := fun p ↦ execActs p.todo p.seen = execActs acts ⟨v, sys⟩)
    (fun hp h ↦ (seen_step h).trans hp) rfl
  rw [htodo, hexec] at hseen
  have hsame : p.seen = _ := Option.some.inj hseen
  rw [hsame]
  -- the interrupts
  have hstart : Heads (execs (Boot.kernelMain stubs) c) ⟨c, acts, ⟨v, sys⟩⟩ := by
    refine .inr ?_
    rw [habout, execs_filter]
  have hheads := hr.invariant (I := Heads (execs (Boot.kernelMain stubs) c)) Heads.step hstart
  have hcpu := hheads.resolve_left (Bool.eq_false_iff.mp hlost)
  rw [htodo] at hcpu
  exact ⟨⟨v₀, hblank, hemits⟩, ⟨hv', hbuffer, rfl, ⟨⟨_, [], .nil _⟩,
    { sys with heap := memoryInit sys.heap.mem }, hnames, hcwd, rfl⟩⟩,
    (serving_execs stubs hfirst).of_withTicks hcpu⟩

/-- The screen is full of letters at first, and the memory of ones. -/
theorem kernelMain_starts_boot : ∃ es p,
    Run (Progress.Step bootStubs) ⟨(bootMachine bootStubs).cpu, kernelMain bootStubs 0 15,
      ⟨vgaInit fun _ ↦ 0x0741, (bootWorld (Clients.init fun _ ↦ 0xFF)).sys⟩⟩ es p ∧
    p.todo = [.op .shellRun] ∧
    (∃ v₀, Images ⟨0, fun _ ↦ 0x20⟩ v₀ ∧ Emits v₀ bootLog p.seen.vga) ∧
    Starts (fun _ ↦ 0x0741) ⟨p.seen.vga, List.replicate 256 0, chars "ls\n",
      ⟨p.seen.sys, [], p.cpu.iflag, .running⟩⟩ ∧
    Serving bootStubs p.cpu := by
  obtain ⟨es, p, hr, htodo, hlost⟩ := exists_run_shell bootStubs 0 15 (vgaInit fun _ ↦ 0x0741)
    (bootWorld (Clients.init fun _ ↦ 0xFF)).sys (c := (bootMachine bootStubs).cpu) rfl (by decide)
  have hbuffer : (List.replicate 256 (0 : UInt8)).length = shellBufferSize := List.length_replicate
  have hstarts := kernelMain_starts (fun _ ↦ rfl) rfl hbuffer (chars "ls\n") hr htodo hlost
  exact ⟨es, p, hr, htodo, hstarts⟩

end KontolOS.Boot.Startup
