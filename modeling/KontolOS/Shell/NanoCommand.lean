import KontolOS.Shell.Balance
import KontolOS.Shell.Machine
import KontolOS.Shell.NanoDraw

/-!
# The editor as a command

The whole of `cmd_nano`: it draws the screen in front of every key, and clears it at the end.  Its
keys are the first of those that the shell would read.  Where they do not suffice, it waits.

What it does to the files and the heap is what `cmdNano` does, which draws nothing, for the keys
that were taken (`nano_eq_cmdNano`); so it gives back what it takes (`nano_gives_back`).
-/

namespace KontolOS.Shell

open KontolOS.Lib KontolOS.Memory KontolOS.Strings KontolOS.Drivers KontolOS.Fs

/-! ## The command -/

/-- How the main loop of the editor ends. -/
inductive Edited
  | /-- it is left, and these keys are left -/ left (y : Nano × Sys) (v : Vga) (keys : List UInt8)
  | /-- it waits for a key -/ waiting (y : Nano × Sys) (v : Vga)

/-- The main loop of `cmd_nano`, of which `k` turns are over. -/
def nanoEdit (x : Surroundings) (filename : List UInt8) :
    Nat → List UInt8 → Nano × Sys → Vga → Option Edited
  | k, [], (e, s), v =>
      if e.running then do
        let v ← nanoDraw (x.shape k).1 (x.shape k).2 filename e v
        return .waiting (e, s) v
      else some (.left (e, s) v [])
  | k, c :: keys, (e, s), v =>
      if e.running then do
        let v ← nanoDraw (x.shape k).1 (x.shape k).2 filename e v
        let y ← nanoKey (x.junk (k + 1)) filename c e s
        nanoEdit x filename (k + 1) keys y v
      else some (.left (e, s) v (c :: keys))

/-- `cmd_nano` from its main loop to its end. -/
def nanoFinish (x : Surroundings) (filename : List UInt8) (b : NanoBlocks) (y : Nano × Sys)
    (s : Session Kontol) : Option (Session Kontol) := do
  match ← nanoEdit x filename 0 s.keys y s.vga with
  | .waiting (_, sys) v =>
      return { s with vga := v, keys := [], rest := { s.rest with sys := sys, phase := .waiting } }
  | .left (_, sys) v keys =>
      let sys ← nanoClose b sys
      let v ← vgaClear v
      return { s with vga := vgaSetColor 15 0 v, keys := keys, rest := { s.rest with sys := sys } }

/-- `cmd_nano` -/
def nano (x : Surroundings) : Handler Kontol := fun _ argv s ↦
  match argv with
  | _ :: p :: _ => do
      let filename := s.commandBuffer.drop p
      let (blocks, sys) ← nanoAllocate filename s.rest.sys
      match blocks with
      | none =>
          let v ← vgaPrint (literal "Error: Out of memory\n") s.vga
          return { s with vga := v, rest := { s.rest with sys := sys } }
      | some b =>
          let y ← nanoOpen (x.junk 0) filename b sys
          nanoFinish x filename b y s
  | _ => do
      let v ← vgaPrint (literal "Usage: nano <filename>\n") s.vga
      return { s with vga := v }

variable {x : Surroundings} {k : Nat} {keys rest filename n : List UInt8} {y z : Nano × Sys}
  {v v' : Vga} {b : NanoBlocks} {b₀ : Nat → UInt16} {e : Nano} {s s' : Session Kontol}
  {others : Live}

/-! ## The files and the heap -/

/-- The keys with the memory that is found when they are handled. -/
def Surroundings.typed (x : Surroundings) (k : Nat) : List UInt8 → List (Mem × UInt8)
  | [] => []
  | c :: keys => (x.junk (k + 1), c) :: x.typed (k + 1) keys

/-- The loop does to the files what it does when nothing is drawn. -/
theorem nanoLoop_of_nanoEdit (h : nanoEdit x filename k keys y v = some (.left z v' rest)) :
    ∃ taken, keys = taken ++ rest ∧ nanoLoop filename (x.typed k taken) y = some z := by
  induction keys generalizing k y v with
  | nil =>
      obtain ⟨e, s⟩ := y
      rw [nanoEdit] at h
      split at h
      · obtain ⟨w, _, hw⟩ := Option.bind_eq_some_iff.mp h
        cases hw
      next hrunning =>
        cases h
        exact ⟨[], rfl, if_neg hrunning⟩
  | cons c keys ih =>
      obtain ⟨e, s⟩ := y
      rw [nanoEdit] at h
      split at h
      next hrunning =>
        obtain ⟨w, _, h⟩ := Option.bind_eq_some_iff.mp h
        obtain ⟨y, hkey, h⟩ := Option.bind_eq_some_iff.mp h
        obtain ⟨taken, rfl, hloop⟩ := ih h
        refine ⟨c :: taken, rfl, ?_⟩
        simp only [Surroundings.typed, nanoLoop, if_pos hrunning, hkey, Option.bind_eq_bind,
          Option.bind_some, hloop]
      next hrunning =>
        cases h
        exact ⟨[], rfl, if_neg hrunning⟩

/-- **The files after `nano`** are those that `cmdNano` computes, for the keys that it takes. -/
theorem nano_eq_cmdNano {argc : Nat} {argv : List Nat} (h : nano x argc argv s = some s')
    (hphase : s'.rest.phase = .running) :
    ∃ taken, s.keys = taken ++ s'.keys ∧
      cmdNano (x.junk 0) (argv.map (s.commandBuffer.drop ·)) (x.typed 0 taken) s.rest.sys =
        some s'.rest.sys := by
  cases argv with
  | nil =>
      obtain ⟨v, _, hv⟩ := Option.bind_eq_some_iff.mp h
      cases hv
      exact ⟨[], rfl, rfl⟩
  | cons arg args =>
      cases args with
      | nil =>
          obtain ⟨v, _, hv⟩ := Option.bind_eq_some_iff.mp h
          cases hv
          exact ⟨[], rfl, rfl⟩
      | cons p args =>
          obtain ⟨⟨blocks, sys⟩, halloc, h⟩ := Option.bind_eq_some_iff.mp h
          simp only [List.map_cons, cmdNano, halloc, Option.bind_eq_bind, Option.bind_some]
          cases blocks with
          | none =>
              obtain ⟨v, _, hv⟩ := Option.bind_eq_some_iff.mp h
              cases hv
              exact ⟨[], rfl, rfl⟩
          | some b =>
              obtain ⟨y, hopen, h⟩ := Option.bind_eq_some_iff.mp h
              obtain ⟨r, hedit, h⟩ := Option.bind_eq_some_iff.mp h
              cases r with
              | waiting z v =>
                  cases h
                  cases hphase
              | left z v rest =>
                  obtain ⟨sys', hclose, h⟩ := Option.bind_eq_some_iff.mp h
                  obtain ⟨w, _, h⟩ := Option.bind_eq_some_iff.mp h
                  cases h
                  obtain ⟨taken, hkeys, hloop⟩ := nanoLoop_of_nanoEdit hedit
                  refine ⟨taken, hkeys, ?_⟩
                  simp only [hopen, hloop, Option.bind_some, hclose]

/-- A loop that is over takes no more keys. -/
theorem nanoLoop_append {keys : List (Mem × UInt8)} (more : List (Mem × UInt8))
    (h : nanoLoop filename keys y = some z) : nanoLoop filename (keys ++ more) y = some z := by
  induction keys generalizing y with
  | nil =>
      obtain ⟨e, s⟩ := y
      rw [nanoLoop] at h
      split at h
      next => cases h
      next hrunning =>
        cases more with
        | nil => rwa [List.nil_append, nanoLoop, if_neg hrunning]
        | cons key more => rwa [List.nil_append, nanoLoop, if_neg hrunning]
  | cons key keys ih =>
      obtain ⟨e, s⟩ := y
      rw [nanoLoop] at h
      rw [List.cons_append, nanoLoop]
      split at h
      next hrunning =>
        obtain ⟨y, hkey, h⟩ := Option.bind_eq_some_iff.mp h
        rw [if_pos hrunning, hkey]
        exact ih h
      next hrunning => rwa [if_neg hrunning]

/-- Nor does the command. -/
theorem cmdNano_append {junk : Mem} {argv : List (List UInt8)} {keys : List (Mem × UInt8)}
    {sys sys' : Sys} (more : List (Mem × UInt8)) (h : cmdNano junk argv keys sys = some sys') :
    cmdNano junk argv (keys ++ more) sys = some sys' := by
  match argv with
  | [] | [_] => exact h
  | _ :: filename :: _ =>
      obtain ⟨⟨blocks, sys₁⟩, halloc, h⟩ := Option.bind_eq_some_iff.mp h
      simp only [cmdNano, halloc, Option.bind_eq_bind, Option.bind_some]
      cases blocks with
      | none => exact h
      | some b =>
          obtain ⟨y, hopen, h⟩ := Option.bind_eq_some_iff.mp h
          obtain ⟨z, hloop, h⟩ := Option.bind_eq_some_iff.mp h
          simp only [hopen, nanoLoop_append more hloop, Option.bind_some]
          exact h

/-- The first Ctrl+X, if there is one at the end -/
theorem exists_first_exit (last : Mem) (keys : List (Mem × UInt8)) : ∃ init m rest,
    keys ++ [(last, 24)] = init ++ (m, 24) :: rest ∧ ∀ key ∈ init, key.2 ≠ 24 := by
  induction keys with
  | nil => exact ⟨[], last, [], rfl, fun _ h ↦ absurd h List.not_mem_nil⟩
  | cons key keys ih =>
      obtain ⟨m, c⟩ := key
      by_cases hc : c = 24
      · exact ⟨[], m, keys ++ [(last, 24)], by rw [hc]; rfl, fun _ h ↦ absurd h List.not_mem_nil⟩
      · obtain ⟨init, m', rest, heq, hinit⟩ := ih
        exact ⟨(m, c) :: init, m', rest, by rw [List.cons_append, heq]; rfl,
          List.forall_mem_cons.mpr ⟨hc, hinit⟩⟩

/-- **The command gives back what it takes**: if its lines can be allocated then, whatever is
typed, when the editor is left the used blocks of the heap are as before, but for the data of the
file. -/
theorem nano_gives_back {argc p : Nat} {argv : List Nat} (hI : Inv False s.rest.sys others)
    (hargv : ∀ arg ∈ argv, ∃ n, Holds (s.commandBuffer.drop arg) n) (hp : argv[1]? = some p)
    (hentry : ∀ b s₁, nanoAllocate (s.commandBuffer.drop p) s.rest.sys = some (some b, s₁) →
      ∀ ptr ∈ b.ptrs, ptr ≠ null)
    (h : nano x argc argv s = some s') (hphase : s'.rest.phase = .running)
    (hn : Holds (s.commandBuffer.drop p) n) :
    usedBlocks s'.rest.sys.heap \ dataBlocks s'.rest.sys n =
      usedBlocks s.rest.sys.heap \ dataBlocks s.rest.sys n := by
  obtain ⟨taken, _, hcall⟩ := nano_eq_cmdNano h hphase
  obtain ⟨init, last, rest, hkeys, hinit⟩ := exists_first_exit (x.junk 0) (x.typed 0 taken)
  have hname : (argv.map (s.commandBuffer.drop ·))[1]? = some (s.commandBuffer.drop p) := by
    rw [List.getElem?_map, hp, Option.map_some]
  have hargs : ∀ arg ∈ argv.map (s.commandBuffer.drop ·), ∃ n, Holds arg n := by
    intro arg harg
    obtain ⟨a, ha, rfl⟩ := List.mem_map.mp harg
    exact hargv a ha
  obtain ⟨sys', hcall', _, hblocks⟩ := nano_balanced hI (x.junk 0) last _ init rest hargs hinit
    fun _ b s₁ hfile halloc ↦ by
      obtain rfl := Option.some.inj (hfile.symm.trans hname)
      exact hentry b s₁ halloc
  -- with a Ctrl+X behind the keys that it takes, `cmdNano` does the same
  have hmore := cmdNano_append [(x.junk 0, 24)] hcall
  rw [hkeys] at hmore
  obtain rfl := Option.some.inj (hcall'.symm.trans hmore)
  exact hblocks _ n hname hn

/-! ## The screen -/

/-- **A redraw** succeeds, and leaves the cursor on the screen. -/
theorem Drawable.nanoDraw_visible (h : Drawable e) (hn : Holds filename n) (hv : Visible b₀ v)
    (start stop : UInt8) : ∃ v', nanoDraw start stop filename e v = some v' ∧ Visible b₀ v' := by
  obtain ⟨v₁, hclear, hv₁⟩ := hv.vgaClear
  obtain ⟨v₂, htitle, hv₂, _⟩ :=
    (hv₁.vgaHideCursor.vgaSetColor 0 15).putDigits (titleText n e.modified)
  have hbody : ∀ i w, 0 ≤ i → i < 0 + min 22 e.numLines.toNat → Visible b₀ w →
      ∃ w', drawLine e.lines i w = some w' ∧ Visible b₀ w' := by
    intro i w _ hi hw
    rw [Nat.zero_add] at hi
    have hmax : i < nanoMaxLines :=
      Nat.lt_of_lt_of_le (Nat.lt_of_lt_of_le hi (Nat.min_le_left _ _)) (by decide)
    obtain ⟨w', hput, hw', _⟩ := (hw.vgaSetCursor (i + 1) 0).putDigits (lineText e.lines i)
    exact ⟨w', by rw [h.drawLine_eq hmax, hput], hw'⟩
  obtain ⟨v₃, hdraw, hv₃⟩ :=
    forLoop_invariant (I := fun _ w ↦ Visible b₀ w) hbody (hv₂.vgaSetColor 15 0)
  obtain ⟨v₄, hstatus, hv₄, _⟩ :=
    ((hv₃.vgaSetCursor 23 0).vgaSetColor 0 7).putDigits (statusText e.line e.curCol.toNat)
  refine ⟨_, ?_, ((hv₄.vgaSetColor 15 0).vgaSetCursor (sizeT (e.curLine + 1))
    (sizeT e.curCol)).vgaShowCursor start stop⟩
  have hdrawLines : drawLines e (vgaSetColor 15 0 v₂) = some v₃ := hdraw
  simp only [nanoDraw, hclear, drawTitle_eq hn, htitle, hdrawLines, h.drawStatus_eq, hstatus,
    Option.bind_eq_bind, Option.bind_some]
  rfl

end KontolOS.Shell
