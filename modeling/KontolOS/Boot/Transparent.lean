import KontolOS.Boot.Isr

/-!
# Interrupts are transparent

The stubs push what `struct interrupt_frame` declares, below what the processor has pushed, and
take it off again.  So the handler finds the registers of the interrupted program in its frame,
and if it leaves the frame alone and returns as cdecl has it, all of them are as before after the
`iret` (`interrupt_transparent`).
-/

namespace KontolOS.Boot

open KontolOS.Lib Relation

/-! ## Code without jumps -/

/-- Instructions that go on to the next one. -/
def Instr.Plain : Instr → Prop
  | .call _ | .jmp _ | .iret => False
  | _ => True

/-- What a list of plain instructions does. -/
def Core.run (c : Core) (is : List Instr) : Core := is.foldl Instr.exec c

theorem Core.run_cons (c : Core) (i : Instr) (is : List Instr) :
    c.run (i :: is) = (i.exec c).run is := rfl

section

variable {ret : BitVec 32} {c : Core} {is code : List Instr}

theorem next_stub {i : Instr} (hi : i.Plain) :
    (Config.stub (i :: code) c).next ret = some (.stub code (i.exec c)) := by
  cases i <;> first | rfl | exact hi.elim

/-- Plain instructions are executed one after the other. -/
theorem steps_plain (his : ∀ i ∈ is, i.Plain) :
    ReflTransGen (fun x y ↦ Config.next ret x = some y) (.stub (is ++ code) c)
      (.stub code (c.run is)) := by
  induction is generalizing c with
  | nil => exact .refl
  | cons i is ih =>
      exact .head (next_stub (his i List.mem_cons_self))
        (ih fun j hj ↦ his j (List.mem_cons_of_mem i hj))

end

/-! ## The stack -/

/-- The words `ws` lie on the stack. -/
def Core.Stack (c : Core) (ws : List (BitVec 32)) : Prop := StackAt c.mem c.regs.esp ws

namespace Core

variable {c : Core} {ws : List (BitVec 32)} {w : BitVec 32}

/-- There is always room for the few words that are pushed here. -/
theorem Stack.push (h : c.Stack ws) (hlen : ws.length < 64) (w : BitVec 32) :
    (c.push w).Stack (w :: ws) :=
  StackAt.push h (by omega) w

theorem push_regs (c : Core) (w : BitVec 32) :
    (c.push w).regs = { c.regs with esp := c.regs.esp - 4 } := rfl

/-- `pusha` -/
theorem Stack.pusha (h : c.Stack ws) (hlen : ws.length < 32) :
    c.pusha.Stack (c.regs.edi :: c.regs.esi :: c.regs.ebp :: c.regs.esp :: c.regs.ebx ::
      c.regs.edx :: c.regs.ecx :: c.regs.eax :: ws) := by
  have h₁ := h.push (by omega) c.regs.eax
  have h₂ := h₁.push (by simp only [List.length_cons]; omega) c.regs.ecx
  have h₃ := h₂.push (by simp only [List.length_cons]; omega) c.regs.edx
  have h₄ := h₃.push (by simp only [List.length_cons]; omega) c.regs.ebx
  have h₅ := h₄.push (by simp only [List.length_cons]; omega) c.regs.esp
  have h₆ := h₅.push (by simp only [List.length_cons]; omega) c.regs.ebp
  have h₇ := h₆.push (by simp only [List.length_cons]; omega) c.regs.esi
  exact h₇.push (by simp only [List.length_cons]; omega) c.regs.edi

theorem pusha_regs (c : Core) : c.pusha.regs = { c.regs with esp := c.regs.esp - 32 } := by
  have hesp : c.regs.esp - 4 - 4 - 4 - 4 - 4 - 4 - 4 - 4 = c.regs.esp - 32 := by bv_omega
  simp only [pusha, List.foldl_cons, List.foldl_nil, push_regs, hesp]

end Core

/-! ## In front of the handler -/

/-- The instructions of a common stub between `pusha` and the call. -/
def loadSegs : List Instr :=
  [.movAxDs, .pushEax, .movAx 0x10, .movDsAx, .movEsAx, .movFsAx, .movGsAx, .pushEsp]

/-- The instructions between the call and the `iret`. -/
def epilogue : List Instr :=
  [.addEsp 4, .popEax, .movDsAx, .movEsAx, .movFsAx, .movGsAx, .popa, .addEsp 8]

theorem commonStub_eq (f : Symbol) :
    commonStub f = (.pusha :: loadSegs) ++ .call f :: (epilogue ++ [.iret]) := rfl

/-- The words that a common stub pushes for the frame. -/
def saved (r : Registers) : List (BitVec 32) :=
  [r.eax.extractLsb' 16 16 ++ r.ds, r.edi, r.esi, r.ebp, r.esp, r.ebx, r.edx, r.ecx, r.eax]

section

variable {c : Core} {ws : List (BitVec 32)}

/-- The data segment and the frame pointer are pushed. -/
theorem run_loadSegs (c : Core) :
    (c.run loadSegs).mem =
        ((c.push (c.regs.eax.extractLsb' 16 16 ++ c.regs.ds)).push (c.regs.esp - 4)).mem ∧
      (c.run loadSegs).regs.esp = c.regs.esp - 4 - 4 ∧
      (c.run loadSegs).regs.ss = c.regs.ss := by
  simp only [Core.run, loadSegs, List.foldl_cons, List.foldl_nil, Instr.exec, Core.setAx,
    Core.push, and_self]

/-- **The code in front of the call** saves the registers, and pushes a pointer to them. -/
theorem Core.Stack.prologue (h : c.Stack ws) (hlen : ws.length < 16) :
    (c.run (.pusha :: Boot.loadSegs)).Stack ((c.regs.esp - 36) :: (saved c.regs ++ ws)) ∧
      (c.run (.pusha :: Boot.loadSegs)).regs.esp = c.regs.esp - 40 ∧
      (c.run (.pusha :: Boot.loadSegs)).regs.ss = c.regs.ss := by
  have hframe : c.regs.esp - 32 - 4 = c.regs.esp - 36 := by bv_omega
  have hesp : c.regs.esp - 36 - 4 = c.regs.esp - 40 := by bv_omega
  have hsaved := ((h.pusha (by omega)).push (by simp only [List.length_cons]; omega)
    (c.regs.eax.extractLsb' 16 16 ++ c.regs.ds)).push (by simp only [List.length_cons]; omega)
    (c.regs.esp - 36)
  obtain ⟨hmem, hend, hss⟩ := run_loadSegs c.pusha
  rw [Core.Stack, Core.push_regs, Core.push_regs, Core.pusha_regs] at hsaved
  rw [Core.pusha_regs] at hmem hend hss
  simp only [hframe, hesp] at hsaved hmem hend hss
  rw [Core.run_cons, Instr.exec, Core.Stack, hmem, hend, hss]
  exact ⟨hsaved, rfl, rfl⟩

end

/-! ## Behind the handler -/

/-- **The code behind the call** takes the registers off the stack. -/
theorem restore_eq {u : Core}
    {frame ds edi esi ebp esp ebx edx ecx eax v err eip cs eflags : BitVec 32}
    (hesp : u.regs.esp + 4 = frame)
    (h : StackAt u.mem frame
      [ds, edi, esi, ebp, esp, ebx, edx, ecx, eax, v, err, eip, cs, eflags]) :
    (u.run epilogue).iret.regs =
      { eax, ecx, edx, ebx, ebp, esi, edi, eip, eflags
        esp := frame + 56
        cs := cs.setWidth 16
        ds := ds.setWidth 16
        es := ds.setWidth 16
        fs := ds.setWidth 16
        gs := ds.setWidth 16
        ss := u.regs.ss } := by
  have hds := h.top
  have hedi := h 1 edi rfl
  have hesi := h 2 esi rfl
  have hebp := h 3 ebp rfl
  have hebx := h 5 ebx rfl
  have hedx := h 6 edx rfl
  have hecx := h 7 ecx rfl
  have heax := h 8 eax rfl
  have heip := h 11 eip rfl
  have hcs := h 12 cs rfl
  have heflags := h 13 eflags rfl
  subst hesp
  simp only [Nat.reduceMul, BitVec.ofNat_eq_ofNat, BitVec.add_assoc, BitVec.reduceAdd]
    at hds hedi hesi hebp hebx hedx hecx heax heip hcs heflags
  simp only [Core.run, epilogue, List.foldl_cons, List.foldl_nil, Instr.exec, Core.ax, Core.popa,
    Core.iret, BitVec.ofNat_eq_ofNat, BitVec.add_assoc, BitVec.reduceAdd, hds, hedi, hesi,
    hebp, hebx, hedx, hecx, heax, heip, hcs, heflags]

/-! ## The stubs -/

/-- The handler that the stub of a vector calls. -/
def handlerOf (v : Nat) : Symbol := if v < 32 then .isrHandler else .irqHandler

/-- What a stub pushes itself. -/
def pushes (v : Nat) : List Instr :=
  (if pushesErrorCode v then [] else [.push 0]) ++ [.push (BitVec.ofNat 32 v)]

/-- The label that a stub jumps to. -/
def labelOf (v : Nat) : Label := if v < 32 then .isrCommonStub else .irqCommonStub

/-- **The stubs differ only in what they push.** -/
theorem stub_eq {v : Nat} (hv : v < 48) : stub v = pushes v ++ [.jmp (labelOf v)] := by
  revert v
  decide

theorem labelOf_code (v : Nat) : (labelOf v).code = commonStub (handlerOf v) := by
  unfold labelOf handlerOf
  split <;> rfl

/-- The error code, as the frame shows it. -/
def errorCode (v : Nat) (err : BitVec 32) : BitVec 32 := if pushesErrorCode v then err else 0

/-- **The frame begins with an error code and a vector**, whether the processor pushes an error
code or not. -/
theorem Core.interrupt_pushes (c : Core) (v : Nat) (err : BitVec 32) :
    ((c.interrupt v err).run (pushes v)).Stack [BitVec.ofNat 32 v, errorCode v err, c.regs.eip,
        c.regs.cs.setWidth 32, c.regs.eflags] ∧
      ((c.interrupt v err).run (pushes v)).regs = { c.regs with
        esp := c.regs.esp - 20, cs := 0x08, eflags := c.regs.eflags &&& ~~~gateFlags } := by
  have hesp : c.regs.esp - 4 - 4 - 4 - 4 - 4 = c.regs.esp - 20 := by bv_omega
  have hstack : ∀ e, (((((c.push c.regs.eflags).push (c.regs.cs.setWidth 32)).push
      c.regs.eip).push e).push (BitVec.ofNat 32 v)).Stack [BitVec.ofNat 32 v, e, c.regs.eip,
        c.regs.cs.setWidth 32, c.regs.eflags] := by
    intro e
    have h : c.Stack [] := StackAt.nil _ _
    exact ((((h.push (by simp) _).push (by simp) _).push (by simp) _).push
      (by simp) e).push (by simp) _
  cases hv : pushesErrorCode v with
  | false =>
      rw [errorCode, pushes, Core.interrupt, hv]
      refine ⟨hstack 0, ?_⟩
      simp only [Core.run, List.cons_append, List.nil_append, List.foldl_cons, List.foldl_nil,
        Instr.exec, Core.push_regs, hesp, if_false, Bool.false_eq_true]
  | true =>
      rw [errorCode, pushes, Core.interrupt, hv]
      refine ⟨hstack err, ?_⟩
      simp only [Core.run, List.nil_append, List.foldl_cons, List.foldl_nil, Instr.exec,
        Core.push_regs, hesp, if_true]

/-! ## The whole interrupt -/

section

variable {c u : Core} {v : Nat} {err ret : BitVec 32}

/-- The state in which the stub of `v` calls its handler. -/
def Core.called (c : Core) (v : Nat) (err ret : BitVec 32) : Core :=
  (((c.interrupt v err).run (pushes v)).run (.pusha :: loadSegs)).push ret

/-- The words of the frame. -/
def frameWords (c : Core) (v : Nat) (err : BitVec 32) : List (BitVec 32) :=
  [c.regs.eax.extractLsb' 16 16 ++ c.regs.ds, c.regs.edi, c.regs.esi, c.regs.ebp,
    c.regs.esp - 20, c.regs.ebx, c.regs.edx, c.regs.ecx, c.regs.eax, BitVec.ofNat 32 v,
    errorCode v err, c.regs.eip, c.regs.cs.setWidth 32, c.regs.eflags]

/-- **The stub runs up to the call.** -/
theorem settles_call (hv : v < 48) :
    Settles (Config.next ret) (.stub (stub v) (c.interrupt v err))
      (.handler (handlerOf v) (c.called v err ret) (epilogue ++ [.iret])) := by
  have hpushes : ∀ i ∈ pushes v, i.Plain := by
    unfold pushes
    split <;> simp [Instr.Plain]
  have hprologue : ∀ i ∈ .pusha :: loadSegs, i.Plain := by simp [loadSegs, Instr.Plain]
  refine ⟨?_, rfl⟩
  rw [stub_eq hv]
  refine (steps_plain hpushes).trans (.head rfl ?_)
  rw [labelOf_code, commonStub_eq]
  exact (steps_plain hprologue).tail rfl

/-- **It runs from there to the end.** -/
theorem settles_done (u : Core) (ret : BitVec 32) :
    Settles (Config.next ret) (.stub (epilogue ++ [.iret]) u) (.done (u.run epilogue).iret) := by
  have hepilogue : ∀ i ∈ epilogue, i.Plain := by simp [epilogue, Instr.Plain]
  exact ⟨(steps_plain hepilogue).tail rfl, rfl⟩

/-- What lies on the stack when the handler is called. -/
theorem Core.called_stack (c : Core) (v : Nat) (err ret : BitVec 32) :
    (c.called v err ret).Stack (ret :: (c.regs.esp - 56) :: frameWords c v err) ∧
      (c.called v err ret).regs.esp = c.regs.esp - 64 ∧
      (c.called v err ret).regs.ss = c.regs.ss := by
  obtain ⟨hstack, hregs⟩ := c.interrupt_pushes v err
  obtain ⟨hsaved, hesp, hss⟩ := hstack.prologue (by simp)
  have hframe : c.regs.esp - 20 - 36 = c.regs.esp - 56 := by bv_omega
  have hend : c.regs.esp - 20 - 40 - 4 = c.regs.esp - 64 := by bv_omega
  rw [hregs] at hsaved hesp hss
  simp only [hframe, saved] at hsaved hesp hss
  refine ⟨hsaved.push (by simp) ret, ?_, ?_⟩
  · rw [Core.called, Core.push_regs, hesp, hend]
  · rw [Core.called, Core.push_regs, hss]

/-- The handler gets a pointer to the frame. -/
theorem Core.called_frame (c : Core) (v : Nat) (err ret : BitVec 32) :
    (c.called v err ret).frame = c.regs.esp - 56 ∧
      StackAt (c.called v err ret).mem (c.regs.esp - 56) (frameWords c v err) := by
  obtain ⟨hstack, hesp, _⟩ := c.called_stack v err ret
  have haddr : (c.called v err ret).regs.esp + 4 + 4 = c.regs.esp - 56 := by
    rw [hesp]
    bv_omega
  refine ⟨hstack.pop.top, ?_⟩
  rw [← haddr]
  exact hstack.pop.pop

/-- The low half of a word. -/
theorem low_append (x y : BitVec 16) : (x ++ y).setWidth 16 = y := by
  rw [BitVec.setWidth_append, dif_pos (Nat.le_refl 16), BitVec.setWidth_eq]

/-- **The frame tells of the interrupted program.** -/
theorem called_tells (c : Core) (v : Nat) (err ret : BitVec 32) :
    Tells (readFrame (c.called v err ret).mem (c.called v err ret).frame) c v err := by
  obtain ⟨hframe, h⟩ := c.called_frame v err ret
  rw [hframe]
  refine ⟨⟨h 8 _ rfl, h 7 _ rfl, h 6 _ rfl, h 5 _ rfl, h 3 _ rfl, h 2 _ rfl, h 1 _ rfl⟩, ?_,
    h 11 _ rfl, h 12 _ rfl, h 13 _ rfl, h 9 _ rfl, h 10 _ rfl⟩
  rw [readFrame, h.top]
  exact low_append _ _

/-- **The registers are restored**, if the handler obeys cdecl and keeps the frame. -/
theorem restored (hu : Cdecl (c.called v err ret) u) (hkeeps : KeepsFrame (c.called v err ret) u)
    (hsegs : c.regs.es = c.regs.ds ∧ c.regs.fs = c.regs.ds ∧ c.regs.gs = c.regs.ds) :
    (u.run epilogue).iret.regs = c.regs := by
  obtain ⟨_, hesp, hss⟩ := c.called_stack v err ret
  obtain ⟨hframe, h⟩ := c.called_frame v err ret
  rw [KeepsFrame, hframe] at hkeeps
  have haddr : u.regs.esp + 4 = c.regs.esp - 56 := by
    rw [hu.esp, hesp]
    bv_omega
  have hds : (c.regs.eax.extractLsb' 16 16 ++ c.regs.ds).setWidth 16 = c.regs.ds :=
    low_append _ _
  have hcs : (c.regs.cs.setWidth 32).setWidth 16 = c.regs.cs := by
    rw [BitVec.setWidth_setWidth_of_le _ (by decide), BitVec.setWidth_eq]
  have hend : c.regs.esp - 56 + 56 = c.regs.esp := by bv_omega
  rw [restore_eq haddr (h.congr hkeeps), hds, hcs, hend, hu.segs.2, hss]
  obtain ⟨hes, hfs, hgs⟩ := hsegs
  cases c with
  | mk regs mem =>
      cases regs
      cases hes
      cases hfs
      cases hgs
      rfl

end

/-- What is reached from a stub of `v`: it is on its way to the call of its handler, or the handler
has returned and it is on its way to the end. -/
def OnTheWay (H : Symbol → Core → Core → Prop) (ret : BitVec 32) (c : Core) (v : Nat)
    (err : BitVec 32) (x : Config) : Prop :=
  Settles (Config.next ret) x
      (.handler (handlerOf v) (c.called v err ret) (epilogue ++ [.iret])) ∨
    ∃ u, H (handlerOf v) (c.called v err ret) u ∧
      Settles (Config.next ret) x (.done (u.run epilogue).iret)

section

variable {H : Symbol → Core → Core → Prop} {c : Core} {v : Nat} {err ret : BitVec 32} {x y : Config}

/-- One step on the way. -/
theorem OnTheWay.step (h : OnTheWay H ret c v err x) (hstep : StubStep H ret x y) :
    OnTheWay H ret c v err y := by
  cases hstep with
  | next hnext => exact h.imp (·.step hnext) fun ⟨u, hu, hdone⟩ ↦ ⟨u, hu, hdone.step hnext⟩
  | back hH hret =>
      rcases h with hcall | ⟨u, _, hdone⟩
      · cases hcall.eq_of_none rfl
        exact .inr ⟨_, hH, settles_done _ ret⟩
      · cases hdone.eq_of_none rfl

/-- Every state that is reached is on the way. -/
theorem OnTheWay.steps (h : OnTheWay H ret c v err x) (hsteps : StubSteps H ret x y) :
    OnTheWay H ret c v err y := by
  induction hsteps with
  | refl => exact h
  | tail _ hstep ih => exact ih.step hstep

/-- The steps of the stub alone. -/
theorem steps_of_settles (h : Settles (Config.next ret) x y) : StubSteps H ret x y :=
  ReflTransGen.mono (fun _ _ hnext ↦ StubStep.next hnext) _ _ h.1

end

/-- **Interrupts are transparent**, for every vector and any state in which the data segments are
the same: the handler of the vector is called, with a frame that tells of the interrupted program;
if it returns, so does the interrupt; and whenever the interrupt is over, all registers are as they
were before. -/
theorem interrupt_transparent {H : Symbol → Core → Core → Prop}
    (hH : ∀ f t u, H f t u → Cdecl t u ∧ KeepsFrame t u) {v : Nat} (hv : v < 48)
    (err ret : BitVec 32) {c : Core}
    (hsegs : c.regs.es = c.regs.ds ∧ c.regs.fs = c.regs.ds ∧ c.regs.gs = c.regs.ds) :
    (∃ t code, StubSteps H ret (.stub (stub v) (c.interrupt v err))
      (.handler (handlerOf v) t code)) ∧
    (∀ f t code, StubSteps H ret (.stub (stub v) (c.interrupt v err)) (.handler f t code) →
      f = handlerOf v ∧ Tells (readFrame t.mem t.frame) c v err ∧
        ∀ u, H f t u → ∃ d, StubSteps H ret (.handler f t code) (.done d)) ∧
    ∀ d, StubSteps H ret (.stub (stub v) (c.interrupt v err)) (.done d) → d.regs = c.regs := by
  have hcall : Settles (Config.next ret) (.stub (stub v) (c.interrupt v err))
      (.handler (handlerOf v) (c.called v err ret) (epilogue ++ [.iret])) := settles_call hv
  refine ⟨⟨_, _, steps_of_settles hcall⟩, fun f t code hreach ↦ ?_, fun d hreach ↦ ?_⟩
  · rcases OnTheWay.steps (.inl hcall) hreach with hthere | ⟨u, _, hdone⟩
    · cases hthere.eq_of_none rfl
      refine ⟨rfl, called_tells c v err ret, fun u hu ↦ ⟨_, .head (.back hu ?_)
        (steps_of_settles (settles_done u ret))⟩⟩
      rw [(hH _ _ _ hu).1.eip]
      exact (c.called_stack v err ret).1.top
    · cases hdone.eq_of_none rfl
  · rcases OnTheWay.steps (.inl hcall) hreach with hthere | ⟨u, hu, hdone⟩
    · cases hthere.eq_of_none rfl
    · cases hdone.eq_of_none rfl
      obtain ⟨hcdecl, hkeeps⟩ := hH _ _ _ hu
      exact restored hcdecl hkeeps hsegs

/-- A handler that returns at once. -/
def returnAtOnce (_ : Symbol) (t u : Core) : Prop :=
  u = { t with regs := { t.regs with eip := t.mem.load t.regs.esp, esp := t.regs.esp + 4 } }

/-- A processor that waits in the kernel with interrupts enabled. -/
def idle : Core where
  regs := {
    eax := 1, ecx := 2, edx := 3, ebx := 4, esp := 0x90000, ebp := 5, esi := 6, edi := 7
    cs := 0x08, ds := 0x10, es := 0x10, fs := 0x10, gs := 0x10, ss := 0x10
    eip := 0x100040, eflags := 0x202 }
  mem := fun _ ↦ 0

theorem interrupt_transparent_idle : ∃ d,
    StubSteps returnAtOnce 0x100200 (.stub (stub 32) (idle.interrupt 32 0)) (.done d) ∧
      d.regs = idle.regs := by
  have hH : ∀ f t u, returnAtOnce f t u → Cdecl t u ∧ KeepsFrame t u := by
    rintro f t u rfl
    exact ⟨⟨rfl, rfl, ⟨rfl, rfl, rfl, rfl⟩, rfl, rfl⟩, fun _ _ ↦ rfl⟩
  obtain ⟨⟨t, code, hcall⟩, hhandler, hdone⟩ :=
    interrupt_transparent hH (show 32 < 48 by decide) 0 0x100200 (c := idle) ⟨rfl, rfl, rfl⟩
  obtain ⟨_, _, hret⟩ := hhandler _ t code hcall
  obtain ⟨d, hd⟩ := hret _ rfl
  exact ⟨d, hcall.trans hd, hdone d (hcall.trans hd)⟩

end KontolOS.Boot
