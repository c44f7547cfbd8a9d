import KontolOS.Lib.Memory
import KontolOS.Lib.Run

/-!
# Sleeping

The timer counts its interrupts modulo `2 ^ 32`, and the functions of `src/drivers/timer.c` that
sleep wait until the count is not below a sum that is computed modulo `2 ^ 32`.  While they wait,
interrupts come as they please: a sleep is followed along any list of events (`Sleep.step`).

A comparison of two such numbers is right as long as the counter does not wrap from one of them to
the other, whole turns of it left out.  `timer_sleep_ticks` returns when it should if, and only if,
this is so at every check up to the one at which it should return (`sleepsFor_iff`).  The other two
functions compute a number of ticks by a multiplication that wraps, and one of them by a division
that rounds down (`longEnough_iff`).
-/

namespace KontolOS.Drivers

open KontolOS.Lib

/-! ## The functions -/

/-- The static variables of `timer.c`. -/
structure Timer where
  /-- `timer_ticks` -/
  timerTicks : Nat
  /-- `timer_frequency` -/
  timerFrequency : Nat

/-- `timer_handler` -/
def timerHandler (t : Timer) : Timer := { t with timerTicks := add32 t.timerTicks 1 }

/-- `timer_get_uptime`; there is no result for a division by zero. -/
def timerGetUptime (t : Timer) : Option Nat :=
  if t.timerFrequency = 0 then none else some (t.timerTicks / t.timerFrequency)

/-- What happens during a sleep. -/
inductive SleepEvent
  | /-- an interrupt of the timer is handled -/ interrupt
  | /-- the loop evaluates its condition -/ check
  deriving DecidableEq

/-- A call of `timer_sleep_ticks` that has computed `end`. -/
structure Sleep where
  /-- the timer -/
  timer : Timer
  /-- `end` -/
  stop : Nat
  /-- whether the call has returned -/
  returned : Bool

/-- `timer_sleep_ticks`: `uint32_t end = timer_ticks + ticks` -/
def timerSleepTicks (t : Timer) (ticks : Nat) : Sleep := ⟨t, add32 t.timerTicks ticks, false⟩

/-- `while (timer_ticks < end) halt()`; a call that has returned makes no more checks. -/
def Sleep.step (s : Sleep) : SleepEvent → Sleep
  | .interrupt => { s with timer := timerHandler s.timer }
  | .check => { s with returned := s.returned || !decide (s.timer.timerTicks < s.stop) }

/-- The number of ticks that `timer_sleep_ms` passes on. -/
def Timer.msTicks (t : Timer) (ms : Nat) : Nat :=
  let ticks := mul32 ms t.timerFrequency / 1000
  if ticks = 0 then 1 else ticks

/-- `timer_sleep_ms` -/
def timerSleepMs (t : Timer) (ms : Nat) : Sleep := timerSleepTicks t (t.msTicks ms)

/-- The number of ticks that `timer_sleep` passes on. -/
def Timer.secondsTicks (t : Timer) (seconds : Nat) : Nat := mul32 seconds t.timerFrequency

/-- `timer_sleep` -/
def timerSleep (t : Timer) (seconds : Nat) : Sleep := timerSleepTicks t (t.secondsTicks seconds)

/-! ## Returning in time -/

/-- How many interrupts were handled. -/
def interrupts (es : List SleepEvent) : Nat := es.count .interrupt

/-- A check was made after `n` interrupts. -/
def Due (n : Nat) (es : List SleepEvent) : Prop :=
  ∃ p, p ++ [.check] <+: es ∧ n ≤ interrupts p

/-- **A sleep of `n` ticks**: at every moment, the call has returned exactly if a check was made
after `n` interrupts. -/
def SleepsFor (t : Timer) (n : Nat) (es : List SleepEvent) : Prop :=
  ∀ p, p <+: es → ((p.foldl Sleep.step (timerSleepTicks t n)).returned = true ↔ Due n p)

/-- A counter modulo `2 ^ 32` does not wrap from `a` to `b`, whole turns of it left out. -/
def NoWrap (a b : Nat) : Prop := a % 2 ^ 32 + (b - a) % 2 ^ 32 < 2 ^ 32

/-- At a check after `k` interrupts, the counter does not wrap between there and the end. -/
def InTurn (t : Timer) (n k : Nat) : Prop :=
  if k < n then NoWrap (t.timerTicks + k) (t.timerTicks + n)
  else NoWrap (t.timerTicks + n) (t.timerTicks + k)

variable {t : Timer} {n k a b : Nat} {es : List SleepEvent}

theorem noWrap_iff_le (h : a ≤ b) : NoWrap a b ↔ a % 2 ^ 32 ≤ b % 2 ^ 32 := by
  unfold NoWrap
  omega

theorem noWrap_iff_lt (h : a < b) (hnear : b < a + 2 ^ 32) :
    NoWrap a b ↔ a % 2 ^ 32 < b % 2 ^ 32 := by
  unfold NoWrap
  omega

/-- **The comparison is right** exactly if the counter does not wrap in between. -/
theorem inTurn_iff (hn : n < 2 ^ 32) (k : Nat) :
    InTurn t n k ↔ ((t.timerTicks + n) % 2 ^ 32 ≤ (t.timerTicks + k) % 2 ^ 32 ↔ n ≤ k) := by
  unfold InTurn
  split
  next hlt =>
    rw [noWrap_iff_lt (by omega) (by omega), ← Nat.not_le]
    exact (iff_false_right (Nat.not_le.mpr hlt)).symm
  next hge =>
    rw [noWrap_iff_le (by omega)]
    exact (iff_true_right (Nat.not_lt.mp hge)).symm

theorem interrupts_concat (es : List SleepEvent) (e : SleepEvent) :
    interrupts (es ++ [e]) = interrupts es + if e = .interrupt then 1 else 0 := by
  rw [interrupts, interrupts, List.count_append, List.count_singleton]
  simp

theorem not_due_nil (n : Nat) : ¬ Due n [] := by
  rintro ⟨p, hp, _⟩
  exact List.append_ne_nil_of_right_ne_nil p (List.cons_ne_nil _ _) (List.prefix_nil.mp hp)

theorem due_concat (n : Nat) (es : List SleepEvent) (e : SleepEvent) :
    Due n (es ++ [e]) ↔ Due n es ∨ e = .check ∧ n ≤ interrupts es := by
  constructor
  · rintro ⟨p, hp, hn⟩
    rcases List.prefix_concat_iff.mp hp with heq | hp
    · obtain ⟨rfl, hlast⟩ := List.append_inj' heq rfl
      exact .inr ⟨(List.singleton_inj.mp hlast).symm, hn⟩
    · exact .inl ⟨p, hp, hn⟩
  · rintro (⟨p, hp, hn⟩ | ⟨rfl, hn⟩)
    · exact ⟨p, hp.trans (List.prefix_append es [e]), hn⟩
    · exact ⟨es, List.prefix_rfl, hn⟩

/-- The counter and the end during a sleep. -/
theorem sleep_state (ht : t.timerTicks < 2 ^ 32) (n : Nat) (es : List SleepEvent) :
    (es.foldl Sleep.step (timerSleepTicks t n)).timer.timerTicks =
        (t.timerTicks + interrupts es) % 2 ^ 32 ∧
      (es.foldl Sleep.step (timerSleepTicks t n)).stop = (t.timerTicks + n) % 2 ^ 32 := by
  induction es using List.reverseRecOn with
  | nil => exact ⟨(Nat.mod_eq_of_lt ht).symm, rfl⟩
  | append_singleton es e ih =>
      obtain ⟨hticks, hstop⟩ := ih
      rw [List.foldl_concat, interrupts_concat]
      cases e with
      | interrupt =>
          refine ⟨?_, hstop⟩
          change add32 (List.foldl Sleep.step _ es).timer.timerTicks 1 = _
          rw [hticks, add32, Nat.mod_add_mod]
          rfl
      | check => exact ⟨hticks, hstop⟩

/-- **`timer_sleep_ticks` returns when it should** if, and only if, the counter does not wrap
between the end and any check that is made until then. -/
theorem sleepsFor_iff (ht : t.timerTicks < 2 ^ 32) (hn : n < 2 ^ 32) (es : List SleepEvent) :
    SleepsFor t n es ↔
      ∀ p e, p ++ [e] <+: es → e = .check → ¬ Due n p → InTurn t n (interrupts p) := by
  refine forall_prefix_iff (iff_of_false Bool.false_ne_true (not_due_nil n)) fun p e _ hp ↦ ?_
  rw [List.foldl_concat, due_concat]
  cases e with
  | interrupt =>
      refine iff_of_true (hp.trans (or_iff_left nofun).symm) nofun
  | check =>
      obtain ⟨hticks, hstop⟩ := sleep_state ht n p
      have hreturned (s : Sleep) : (s.step .check).returned = true ↔
          s.returned = true ∨ s.stop ≤ s.timer.timerTicks := by
        simp [Sleep.step]
      rw [hreturned, hticks, hstop, inTurn_iff hn, hp]
      by_cases hdue : Due n p
      · simp [hdue]
      · simp [hdue]

/-- A sleep of two ticks. -/
theorem sleepsFor_iff_two :
    SleepsFor ⟨10, 100⟩ 2 [.check, .interrupt, .check, .interrupt, .check] := by
  refine (sleepsFor_iff (by decide) (by decide) _).mpr ?_
  simp only [forall_snoc_cons, forall_snoc_nil]
  refine ⟨fun _ _ ↦ ?_, nofun, fun _ _ ↦ ?_, nofun, fun _ _ ↦ ?_, trivial⟩
  · change 10 % 2 ^ 32 + 2 % 2 ^ 32 < 2 ^ 32
    decide
  · change 11 % 2 ^ 32 + 1 % 2 ^ 32 < 2 ^ 32
    decide
  · change 12 % 2 ^ 32 + 0 % 2 ^ 32 < 2 ^ 32
    decide

/-- **A sleep may end at once**, if the sum wraps, and **it may miss its end**, if the counter
does. -/
theorem not_sleepsFor : ¬ SleepsFor ⟨2 ^ 32 - 1, 100⟩ 1 [.check] ∧
    ¬ SleepsFor ⟨2 ^ 32 - 2, 100⟩ 1 [.check, .interrupt, .interrupt, .check] := by
  constructor
  · intro h
    rcases (due_concat 1 [] .check).mp ((h _ List.prefix_rfl).mp rfl) with hdue | ⟨_, hle⟩
    · exact not_due_nil 1 hdue
    · exact absurd hle (by decide)
  · intro h
    have hdue : Due 1 [.check, .interrupt, .interrupt, .check] :=
      ⟨[.check, .interrupt, .interrupt], List.prefix_rfl, by decide⟩
    exact Bool.false_ne_true ((h _ List.prefix_rfl).mpr hdue)

/-! ## Ticks for milliseconds and seconds -/

/-- **The ticks are enough** for the time, wherever 32 bits are enough for the ticks. -/
def LongEnough (t : Timer) (ms seconds : Nat) : Prop :=
  ((∃ T < 2 ^ 32, ms * t.timerFrequency ≤ T * 1000) →
    ms * t.timerFrequency ≤ t.msTicks ms * 1000) ∧
  ((∃ T < 2 ^ 32, seconds * t.timerFrequency ≤ T) →
    seconds * t.timerFrequency ≤ t.secondsTicks seconds)

/-- The ticks for milliseconds are enough if nothing wraps, and nothing is left over. -/
theorem le_msTicks_iff (t : Timer) (ms : Nat) :
    ms * t.timerFrequency ≤ t.msTicks ms * 1000 ↔
      ms * t.timerFrequency ≤ 1000 ∨
        ms * t.timerFrequency < 2 ^ 32 ∧ 1000 ∣ ms * t.timerFrequency := by
  unfold Timer.msTicks mul32
  generalize ms * t.timerFrequency = product
  change product ≤ (if product % 2 ^ 32 / 1000 = 0 then 1 else product % 2 ^ 32 / 1000) * 1000 ↔ _
  by_cases hwrap : product < 2 ^ 32
  · rw [Nat.mod_eq_of_lt hwrap]
    split
    next hzero => omega
    next hpos => omega
  · -- what is left of the product is too little
    split
    next hzero => omega
    next hpos => omega

/-- Those for seconds are enough if 32 bits are. -/
theorem le_secondsTicks (hfits : ∃ T < 2 ^ 32, k * t.timerFrequency ≤ T) :
    k * t.timerFrequency ≤ t.secondsTicks k := by
  obtain ⟨T, hT, hle⟩ := hfits
  exact (mul32_of_lt (Nat.lt_of_le_of_lt hle hT)).ge

/-- **The ticks are enough exactly if** the product for the milliseconds does not wrap and is
divided by 1000 without a remainder, very short times apart. -/
theorem longEnough_iff (t : Timer) (ms seconds : Nat) : LongEnough t ms seconds ↔
    ((∃ T < 2 ^ 32, ms * t.timerFrequency ≤ T * 1000) → ms * t.timerFrequency ≤ 1000 ∨
      ms * t.timerFrequency < 2 ^ 32 ∧ 1000 ∣ ms * t.timerFrequency) := by
  rw [LongEnough, and_iff_left le_secondsTicks]
  exact forall_congr' fun _ ↦ le_msTicks_iff t ms

/-- **The ticks are too few** for a step of the splash screen, and if the product wraps. -/
theorem not_longEnough :
    ¬ LongEnough ⟨0, 100⟩ 75 0 ∧ ¬ LongEnough ⟨0, 100⟩ 42949673 0 := by
  constructor
  · intro h
    exact absurd (h.1 ⟨8, by decide, by decide⟩) (by decide)
  · intro h
    exact absurd (h.1 ⟨4294968, by decide, by decide⟩) (by decide)

end KontolOS.Drivers
