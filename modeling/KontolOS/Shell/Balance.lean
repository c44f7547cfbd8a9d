import KontolOS.Drivers.Output
import KontolOS.Fs.Blocks
import KontolOS.Shell.NanoRoundTrip

/-!
# What the commands give back

The command `cat` of `src/kernel/shell.c` reads a file into a block of its own, and `nano` keeps
its lines in 101 blocks, and uses another one whenever it reads the file or puts a text together.
Both give them all back: the used blocks of the heap are the same afterwards, but for the block of
the file that Ctrl+S writes (`gives_back`).  Which keys are typed, how often the text is saved,
and which of the allocations after those of the lines fail, does not matter.
-/

namespace KontolOS.Shell

open KontolOS.Lib KontolOS.Memory KontolOS.Strings KontolOS.Drivers KontolOS.Fs Function

/-! ## The commands -/

/-- `cmd_cat`: what it prints, and the filesystem and the heap afterwards. -/
def cmdCat (junk : Mem) (argv : List (List UInt8)) (s : Sys) : Option (List VgaCall × Sys) :=
  match argv with
  | _ :: filename :: _ => do
      let file ← fsOpen s filename
      if file = none then
        return ([.setColor 12 0, .print (literal "Error: File '"), .print filename,
          .print (literal "' not found\n"), .setColor 15 0], s)
      let size := fsGetSize s file
      if size = 0 then
        return ([.setColor 8 0, .print (literal "(empty file)\n"), .setColor 15 0], s)
      let (ptr, heap) ← kmalloc s.heap (add32 size 1)
      let s := { s with heap := heap }
      if ptr = null then return ([], s)
      let (_, buffer) ← fsRead s file (some (junk.bytes ptr (add32 size 1))) size 0
      let buffer ← store (← buffer) size 0
      let last ← buffer[size - 1]?
      let heap ← kfree s.heap ptr
      let rest := if last ≠ 0x0A then [.print (literal "\n")] else []
      return (.print buffer :: rest, { s with heap := heap })
  | _ => some ([.print (literal "Usage: cat <filename>\n")], s)

/-- The main loop of `cmd_nano`, for the keys to come, each with what memory contains when it is
handled.  There is no result if they do not suffice. -/
def nanoLoop (filename : List UInt8) : List (Mem × UInt8) → Nano × Sys → Option (Nano × Sys)
  | [], (e, s) => if e.running then none else some (e, s)
  | (junk, c) :: keys, (e, s) =>
      if e.running then do
        let x ← nanoKey junk filename c e s
        nanoLoop filename keys x
      else some (e, s)

/-- `cmd_nano`: the filesystem and the heap afterwards. -/
def cmdNano (junk : Mem) (argv : List (List UInt8)) (keys : List (Mem × UInt8)) (s : Sys) :
    Option Sys :=
  match argv with
  | _ :: filename :: _ => do
      let (blocks, s) ← nanoAllocate filename s
      match blocks with
      | none => return s
      | some b =>
          let x ← nanoOpen junk filename b s
          let (_, s) ← nanoLoop filename keys x
          nanoClose b s
  | _ => some s

/-! ## What they are to give back -/

/-- `cat` returns, on whatever arguments, and the used blocks are as before. -/
def CatBalanced (s : Sys) : Prop :=
  ∀ (junk : Mem) (argv : List (List UInt8)), (∀ arg ∈ argv, ∃ n, Holds arg n) →
    ∃ calls s', cmdCat junk argv s = some (calls, s') ∧ usedBlocks s'.heap = usedBlocks s.heap

/-- If its lines can be allocated, `nano` returns when Ctrl+X is typed, and the used blocks are
as before, if Ctrl+S was not typed, and as before but for the data of the file, if it was. -/
def NanoBalanced (s : Sys) : Prop :=
  ∀ (junk last : Mem) (argv : List (List UInt8)) (keys rest : List (Mem × UInt8)),
    (∀ arg ∈ argv, ∃ n, Holds arg n) → (∀ key ∈ keys, key.2 ≠ 24) →
    (∀ filename b s₁, argv[1]? = some filename → nanoAllocate filename s = some (some b, s₁) →
      ∀ p ∈ b.ptrs, p ≠ null) →
    ∃ s', cmdNano junk argv (keys ++ (last, 24) :: rest) s = some s' ∧
      ((∀ key ∈ keys, key.2 ≠ 19) → usedBlocks s'.heap = usedBlocks s.heap) ∧
      ∀ filename n, argv[1]? = some filename → Holds filename n →
        usedBlocks s'.heap \ dataBlocks s' n = usedBlocks s.heap \ dataBlocks s n

section

variable {tight : Prop} {s s' : Sys} {others : Live} {filename n c : List UInt8} {heap : Heap}
  {ptrs : List Nat} {m : Nat} {e e' : Nano}

/-! ## Saving -/

/-- The file is where it was, and no other block was changed. -/
structure SameBlocks (s s' : Sys) (n : List UInt8) : Prop where
  /-- the slot of the file -/
  slot : slotOf s' n = slotOf s n
  /-- the blocks, but for its data -/
  blocks : usedBlocks s'.heap \ dataBlocks s' n = usedBlocks s.heap \ dataBlocks s n

theorem SameBlocks.refl (s : Sys) (n : List UInt8) : SameBlocks s s n := ⟨rfl, rfl⟩

theorem SameBlocks.trans {s₁ s₂ s₃ : Sys} (h : SameBlocks s₁ s₂ n) (h' : SameBlocks s₂ s₃ n) :
    SameBlocks s₁ s₃ n := ⟨h'.slot.trans h.slot, h'.blocks.trans h.blocks⟩

theorem nanoWrite_sameBlocks {content : List UInt8} {found : Bool} (hI : Inv tight s others)
    (hn : Holds filename n) (hc : Holds content c) (hlen : c.length ≤ fsMaxFilesize)
    (hcall : nanoWrite filename content s = some (found, s')) :
    SameBlocks s s' n ∧ Inv tight s' others := by
  rcases nanoWrite_spec hI hn hc hlen with
    ⟨_, hw⟩ | ⟨i, s₂, hslot, hw, hI₂, hwhy⟩
  · cases hw.symm.trans hcall
    exact ⟨.refl s n, hI⟩
  cases hw.symm.trans hcall
  obtain ⟨data, size, hfile⟩ : ∃ data size,
      s'.fileTable i = { s.fileTable i with data := data, size := size } := by
    rcases hwhy with ⟨_, hstored⟩ | ⟨_, _, _, hfile⟩
    · obtain ⟨data, hfile⟩ := hstored.file
      exact ⟨data, _, hfile⟩
    · exact ⟨null, (s.fileTable i).size, hfile⟩
  have hslot' : slotOf s' n = some i := slotOf_of_data hI hI₂ hslot hfile
  have hopen : fsOpen s filename = some (slotOf s n) := hI.table.fsFind_eq hn
  simp only [nanoWrite, hopen, hslot, hc.strlen_eq, Option.bind_eq_bind, Option.bind_some,
    Option.bind_eq_some_iff] at hcall
  obtain ⟨⟨code, s₃⟩, hwrite, heq⟩ := hcall
  cases heq
  refine ⟨⟨hslot'.trans hslot.symm, ?_⟩, hI₂⟩
  rw [dataBlocks_of_some hslot', dataBlocks_of_some hslot]
  exact usedBlocks_fsWrite hI (Nat.le_of_lt hc.length_lt) hwrite

/-- **Ctrl+S** gives back the block of the text. -/
theorem Shows.save_sameBlocks {t : Text UInt8} {junk : Mem} (hS : Shows e t)
    (hI : Inv tight s others) (hn : Holds filename n)
    (hcall : nanoSave junk filename e s = some (e', s')) : SameBlocks s s' n := by
  have hbig : nanoMaxLines * nanoLineLen + 1 ≤ fsMaxFilesize ∧ fsMaxFilesize ≤ maxRequest := by
    decide
  have hsize : (unlines t.lines).length ≤ nanoMaxLines * nanoLineLen :=
    length_unlines_le hS.height_le fun l hl ↦ lt_lineLen (hS.fits.width_le l hl)
  obtain ⟨ptr, heap, hk, hfail, hsave⟩ := nanoSave_eq hI junk filename
    (by rw [hS.numLines, Int.toNat_natCast]) hS.linesFrom hsize
  have hreq : (unlines t.lines).length + 1 ≤ maxRequest := by omega
  have hblocks₁ := hI.usedBlocks_kmalloc hreq hk
  obtain ⟨_, _, hk₁, hI₁, _⟩ := hI.kmalloc hreq
  cases hk₁.symm.trans hk
  by_cases hptr : ptr = null
  · cases (hfail hptr).symm.trans hcall
    rw [hptr, Live.grant_null] at hI₁
    rw [hptr, hI₁.sdiff_null] at hblocks₁
    exact ⟨rfl, congrArg (· \ dataBlocks s n) hblocks₁⟩
  obtain ⟨content, hc, hsave⟩ := hsave hptr
  rw [hsave] at hcall
  obtain ⟨⟨found, s₂⟩, hw, hcall⟩ := Option.bind_eq_some_iff.mp hcall
  obtain ⟨h₃, hfree, heq⟩ := Option.map_eq_some_iff.mp hcall
  cases heq
  obtain ⟨hsame, hI₂⟩ := nanoWrite_sameBlocks hI₁ hn hc (by omega) hw
  have hblocks₃ := hI₂.usedBlocks_kfree (by rw [Live.grant_self hptr]; rfl) hfree
  refine ⟨hsame.slot, ?_⟩
  calc usedBlocks h₃ \ dataBlocks s₂ n
      = (usedBlocks s₂.heap \ blocksAt [ptr]) \ dataBlocks s₂ n := by rw [hblocks₃]
    _ = (usedBlocks heap \ blocksAt [ptr]) \ dataBlocks s n :=
        sdiff_blocksAt_congr hsame.blocks [ptr]
    _ = usedBlocks s.heap \ dataBlocks s n := by rw [hblocks₁]

/-! ## The main loop -/

/-- A key gives back what it takes, and does nothing to the heap if it is not Ctrl+S. -/
theorem NanoOk.key_sameBlocks {x y : Nano × Sys} {junk : Mem} {k : UInt8} (h : NanoOk others x)
    (hn : Holds filename n) (hcall : nanoKey junk filename k x.1 x.2 = some y) :
    SameBlocks x.2 y.2 n ∧ (k ≠ 19 → y.2 = x.2) := by
  obtain ⟨hI, t, hS, _⟩ := h
  simp only [nanoKey, Option.bind_eq_bind, Option.bind_eq_some_iff] at hcall
  obtain ⟨⟨e₁, s₁⟩, hhandle, e₂, _, heq⟩ := hcall
  cases heq
  rw [nanoHandle] at hhandle
  by_cases hsave : k = 19
  · rw [if_pos hsave] at hhandle
    exact ⟨hS.save_sameBlocks hI hn hhandle, fun hne ↦ absurd hsave hne⟩
  have hsys : s₁ = x.2 := by
    rw [if_neg hsave] at hhandle
    split at hhandle
    · exact (congrArg Prod.snd (Option.some.inj hhandle)).symm
    repeat' split at hhandle
    all_goals
      first
      | obtain ⟨_, _, heq⟩ := Option.map_eq_some_iff.mp hhandle
        exact (congrArg Prod.snd heq).symm
      | exact (congrArg Prod.snd (Option.some.inj hhandle)).symm
  rw [hsys]
  exact ⟨.refl x.2 n, fun _ ↦ rfl⟩

/-- **The main loop**, up to the first Ctrl+X. -/
theorem NanoOk.nanoLoop_spec {keys : List (Mem × UInt8)} (h : NanoOk others (e, s))
    (hrunning : e.running = true) (hn : Holds filename n) (hkeys : ∀ key ∈ keys, key.2 ≠ 24)
    (last : Mem) (rest : List (Mem × UInt8)) :
    ∃ e' s', nanoLoop filename (keys ++ (last, 24) :: rest) (e, s) = some (e', s') ∧
      Inv False s' others ∧ SameBlocks s s' n ∧ ((∀ key ∈ keys, key.2 ≠ 19) → s' = s) := by
  induction keys generalizing e s with
  | nil =>
      obtain ⟨hI, t, hS, _⟩ := h
      refine ⟨{ e with running := false }, s, ?_, hI, .refl s n, fun _ ↦ rfl⟩
      simp only [List.nil_append, nanoLoop, if_pos hrunning, hS.exitKey last, Option.bind_eq_bind,
        Option.bind_some]
      cases rest <;> rfl
  | cons key keys ih =>
      obtain ⟨junk, k⟩ := key
      obtain ⟨hk, hkeys⟩ := List.forall_mem_cons.mp hkeys
      obtain ⟨⟨e₁, s₁⟩, hcall, hok⟩ := h.key ⟨n, hn⟩ junk k
      obtain ⟨hsame₁, hsys₁⟩ := h.key_sameBlocks hn hcall
      have hrunning₁ : e₁.running = true := by
        obtain ⟨hI, t, hS, hj⟩ := h
        obtain ⟨e₂, s₂, hcall₂, _, _, hrun⟩ := hS.key hI ⟨n, hn⟩ junk fun _ ↦ hj.joinFits
        cases hcall₂.symm.trans hcall
        exact (hrun hk).trans hrunning
      obtain ⟨e', s', hloop, hI', hsame', hsys'⟩ := ih hok hrunning₁ hkeys
      refine ⟨e', s', ?_, hI', hsame₁.trans hsame', fun hno ↦ ?_⟩
      · simp only [List.cons_append, nanoLoop, if_pos hrunning, hcall, Option.bind_eq_bind,
          Option.bind_some, hloop]
      · obtain ⟨hk', hkeys'⟩ := List.forall_mem_cons.mp hno
        exact (hsys' hkeys').trans (hsys₁ hk')

/-! ## Opening and closing -/

/-- Creating the file does not give it data. -/
theorem nanoCreate_blocks (hI : Inv tight s others) (hn : Holds filename n)
    (hcall : nanoCreate filename s = some s') :
    s'.heap = s.heap ∧
      usedBlocks s.heap \ dataBlocks s' n = usedBlocks s.heap \ dataBlocks s n := by
  obtain ⟨_, hcall', hI', hheap, hsame⟩ := nanoCreate_spec hI hn
  cases hcall'.symm.trans hcall
  refine ⟨hheap, ?_⟩
  cases hslot : slotOf s n with
  | some _ => rw [hsame (by rw [hslot]; rfl)]
  | none =>
      have hfind := hI.table.fsFind_eq hn
      have hnot : fsExists s filename = some 0 := by simp [fsExists, hfind, hslot]
      simp only [nanoCreate, hnot, Option.bind_eq_bind, Option.bind_some, if_true] at hcall
      obtain ⟨⟨code, s₁⟩, hnew, heq⟩ := Option.bind_eq_some_iff.mp hcall
      cases heq
      rcases fsNew_spec hI hn (.inl rfl) with ⟨_, h⟩ | ⟨_, _, ⟨_, h⟩ | ⟨_, _, h⟩ |
        ⟨_, j, f, _, h, _, hd, _⟩⟩
      all_goals cases h.symm.trans hnew
      · rfl
      · rfl
      · rfl
      rw [dataBlocks_of_none hslot, Set.sdiff_empty]
      cases hslot' : slotOf (s.setFile j f) n with
      | none => rw [dataBlocks_of_none hslot', Set.sdiff_empty]
      | some i =>
          -- it is the new entry that has this name
          obtain ⟨hu, hname⟩ := hI'.table.slotOf_eq_some_iff.mp hslot'
          have hi : i = j := by
            by_contra hi
            rw [TableOk.setFile_of_ne hi] at hu hname
            exact TableOk.slotOf_eq_none_iff.mp hslot i hu hname
          rw [dataBlocks_of_some hslot', hi, TableOk.setFile_same, hd, hI.sdiff_null]

/-- The loop that allocates the lines adds their blocks. -/
theorem nanoAlloc_blocks (hI : Inv tight s others)
    (hcall : nanoAlloc s.heap m = some (ptrs, heap)) :
    usedBlocks heap \ blocksAt ptrs = usedBlocks s.heap := by
  induction m generalizing s others ptrs with
  | zero =>
      cases hcall
      rw [blocksAt_nil, Set.sdiff_empty]
  | succ m ih =>
      have hreq : nanoLineLen ≤ maxRequest := by decide
      obtain ⟨ptr, heap₁, hk, hI₁, _⟩ := hI.kmalloc hreq
      simp only [nanoAlloc, hk, Option.bind_eq_bind, Option.bind_some,
        Option.bind_eq_some_iff] at hcall
      obtain ⟨⟨ptrs', heap'⟩, hloop, heq⟩ := hcall
      cases heq
      have hblocks := ih hI₁ hloop
      rw [sdiff_blocksAt_cons, hblocks]
      exact hI.usedBlocks_kmalloc hreq hk

/-- The beginning of `cmd_nano` adds the blocks of the lines. -/
theorem nanoAllocate_blocks {blocks : Option NanoBlocks} (hI : Inv tight s others)
    (hn : Holds filename n) (hcall : nanoAllocate filename s = some (blocks, s')) :
    usedBlocks s'.heap \ blocksAt (blocks.elim [] fun b ↦ b.table :: b.ptrs) =
        usedBlocks s.heap ∧
      usedBlocks s.heap \ dataBlocks s' n = usedBlocks s.heap \ dataBlocks s n := by
  obtain ⟨s₁, hcreate, hI₁, _⟩ := nanoCreate_spec hI hn
  obtain ⟨hheap, hdata⟩ := nanoCreate_blocks hI hn hcreate
  have hreq : nanoMaxLines * sizeofPtr ≤ maxRequest := by decide
  obtain ⟨table, heap, hk, hI₂, _⟩ := hI₁.kmalloc hreq
  have hblocks := hI₁.usedBlocks_kmalloc hreq hk
  rw [hheap] at hblocks
  simp only [nanoAllocate, hcreate, hk, Option.bind_eq_bind, Option.bind_some] at hcall
  split at hcall
  next hnull =>
    cases hcall
    refine ⟨?_, hdata⟩
    rw [hnull, Live.grant_null] at hI₂
    rw [hnull, hI₂.sdiff_null] at hblocks
    change usedBlocks heap \ blocksAt [] = _
    rw [blocksAt_nil, Set.sdiff_empty, hblocks]
  next =>
    obtain ⟨⟨ptrs, heap'⟩, hloop, heq⟩ := Option.bind_eq_some_iff.mp hcall
    cases heq
    refine ⟨?_, hdata⟩
    change usedBlocks heap' \ blocksAt (table :: ptrs) = _
    rw [sdiff_blocksAt_cons, nanoAlloc_blocks hI₂ hloop, hblocks]

/-- Reading the file gives back the block for its contents. -/
theorem nanoRead_blocks {junk : Mem} {ls ls' : Lines} {k : Int} (hI : Inv tight s others)
    (hcall : nanoRead junk filename ls s = some (k, ls', s')) :
    usedBlocks s'.heap = usedBlocks s.heap := by
  rcases nanoRead_cases hI hcall with rfl | ⟨file, ptr, heap₁, hsize, hk, hcases⟩
  · rfl
  have hreq : fsGetSize s file + 1 ≤ maxRequest := Nat.le_trans (Nat.succ_le_succ hsize) (by decide)
  obtain ⟨ptr', heap', hk', hI₁, _⟩ := hI.kmalloc hreq
  cases hk'.symm.trans hk
  have hblocks₁ := hI.usedBlocks_kmalloc hreq hk
  rcases hcases with ⟨hnull, rfl⟩ | ⟨hptr, heap₂, hfree, rfl⟩
  · rw [hnull, Live.grant_null] at hI₁
    rw [hnull, hI₁.sdiff_null] at hblocks₁
    exact hblocks₁
  · exact (hI₁.usedBlocks_kfree (by rw [Live.grant_self hptr]; rfl) hfree).trans hblocks₁

theorem nanoOpen_blocks {junk : Mem} {b : NanoBlocks} (hI : Inv tight s others)
    (hcall : nanoOpen junk filename b s = some (e, s')) :
    usedBlocks s'.heap = usedBlocks s.heap := by
  obtain ⟨⟨k, ls, s₁⟩, hread, heq⟩ := Option.bind_eq_some_iff.mp hcall
  cases heq
  exact nanoRead_blocks hI hread

/-- The loop that frees the lines takes their blocks away. -/
theorem nanoFree_blocks (hI : Inv tight s others) (hown : Owns others ptrs)
    (hcall : nanoFree s.heap ptrs = some heap) :
    usedBlocks heap = usedBlocks s.heap \ blocksAt ptrs := by
  induction ptrs generalizing s others with
  | nil =>
      cases hcall
      rw [blocksAt_nil, Set.sdiff_empty]
  | cons ptr ptrs ih =>
      obtain ⟨hlive, hlives⟩ := List.forall_mem_cons.mp hown.live
      obtain ⟨hne, hapart⟩ := List.pairwise_cons.mp hown.apart
      rw [sdiff_blocksAt_cons, sdiff_right_comm]
      by_cases hptr : ptr = null
      · simp only [nanoFree, if_pos hptr, Option.bind_eq_bind, Option.bind_some] at hcall
        rw [hptr, hI.sdiff_null]
        exact ih hI ⟨hlives, hapart⟩ hcall
      · obtain ⟨heap₁, hfree, hI₁, _⟩ := hI.kfree (hlive hptr)
        simp only [nanoFree, if_neg hptr, hfree, Option.bind_eq_bind, Option.bind_some] at hcall
        rw [← hI.usedBlocks_kfree (hlive hptr) hfree]
        refine ih hI₁ ⟨fun p hp hp' ↦ ?_, hapart⟩ hcall
        rw [update_of_ne (hne p hp hptr).symm]
        exact hlives p hp hp'

/-- The end of `cmd_nano` takes the blocks of the lines away. -/
theorem nanoClose_blocks {b : NanoBlocks} (hI : Inv tight s others) (hb : b.Owned others) :
    ∃ heap, nanoClose b s = some { s with heap := heap } ∧
      usedBlocks heap = usedBlocks s.heap \ blocksAt (b.table :: b.ptrs) := by
  obtain ⟨htable, hown⟩ := hb
  obtain ⟨hlive, hlives⟩ := List.forall_mem_cons.mp hown.live
  obtain ⟨hne, hapart⟩ := List.pairwise_cons.mp hown.apart
  obtain ⟨heap, others', hloop, hI₁, _, hkeep⟩ := nanoFree_spec hI ⟨hlives, hapart⟩
  have htable' : (others' b.table).isSome := by
    rw [hkeep b.table fun h ↦ hne b.table h htable rfl]
    exact hlive htable
  obtain ⟨heap', hfree, _⟩ := hI₁.kfree htable'
  refine ⟨heap', ?_, ?_⟩
  · simp only [nanoClose, hloop, hfree, Option.bind_eq_bind, Option.bind_some]
    rfl
  · rw [hI₁.usedBlocks_kfree htable' hfree, sdiff_blocksAt_cons _ b.table b.ptrs,
      ← nanoFree_blocks hI ⟨hlives, hapart⟩ hloop]

/-! ## The whole commands -/

/-- `cat` of a file that exists. -/
theorem cmdCat_blocks {i : Slot} (hI : Inv tight s others) (hn : Holds filename n)
    (hslot : slotOf s n = some i) (junk : Mem) (arg : List UInt8) (args : List (List UInt8)) :
    ∃ calls heap, cmdCat junk (arg :: filename :: args) s = some (calls, { s with heap := heap }) ∧
      usedBlocks heap = usedBlocks s.heap := by
  have hopen : fsOpen s filename = some (some i) := (hI.table.fsFind_eq hn).trans (by rw [hslot])
  have hget : fsGetSize s (some i) = (s.fileTable i).size := rfl
  by_cases hsize : (s.fileTable i).size = 0
  · refine ⟨[.setColor 8 0, .print (literal "(empty file)\n"), .setColor 15 0], s.heap, ?_, rfl⟩
    simp only [cmdCat, hopen, hget, hsize, Option.bind_eq_bind, Option.bind_some, reduceCtorEq,
      if_false, if_true]
    rfl
  have hle : (s.fileTable i).size ≤ fsMaxFilesize := (hI.table.file i).size_le
  have hmax : fsMaxFilesize + 1 < 2 ^ 32 ∧ fsMaxFilesize + 1 ≤ maxRequest := by decide
  have hadd : add32 (s.fileTable i).size 1 = (s.fileTable i).size + 1 := add32_of_lt (by omega)
  have hreq : (s.fileTable i).size + 1 ≤ maxRequest := by omega
  obtain ⟨ptr, heap, hk, hI₁, _⟩ := hI.kmalloc hreq
  have hblocks := hI.usedBlocks_kmalloc hreq hk
  by_cases hptr : ptr = null
  · rw [hptr, Live.grant_null] at hI₁
    rw [hptr, hI₁.sdiff_null] at hblocks
    refine ⟨[], heap, ?_, hblocks⟩
    simp only [cmdCat, hopen, hget, hsize, hadd, hk, hptr, Option.bind_eq_bind, Option.bind_some,
      reduceCtorEq, if_false, if_true]
    rfl
  have hlive : (others.grant ptr (.fresh ((s.fileTable i).size + 1)) ptr).isSome := by
    rw [Live.grant_self hptr]
    rfl
  obtain ⟨code, d, hread, hin, _⟩ := fsRead_whole hI₁ i
    (show (junk.bytes ptr ((s.fileTable i).size + 1)).length = _ from Mem.length_bytes _ _ _)
  obtain ⟨heap₂, hfree, _⟩ := hI₁.kfree hlive
  change fsRead _ _ _ (s.fileTable i).size 0 = _ at hread
  obtain ⟨c, hc⟩ : ∃ c, (d.set (s.fileTable i).size 0)[(s.fileTable i).size - 1]? = some c := by
    refine ⟨_, List.getElem?_eq_getElem ?_⟩
    rw [List.length_set]
    exact Nat.lt_of_le_of_lt (Nat.sub_le _ 1) hin
  refine ⟨.print (d.set (s.fileTable i).size 0) ::
    (if c ≠ 0x0A then [.print (literal "\n")] else []), heap₂, ?_,
    (hI₁.usedBlocks_kfree hlive hfree).trans hblocks⟩
  simp only [cmdCat, hopen, hget, hsize, hadd, hk, hptr, hread, store_eq hin, hc, hfree,
    Option.bind_eq_bind, Option.bind_some, reduceCtorEq, if_false]
  rfl

/-- **`cat`** gives back the block that it reads the file into. -/
theorem cat_balanced (hI : Inv tight s others) : CatBalanced s := by
  intro junk argv hargv
  match argv with
  | [] | [_] => exact ⟨_, s, rfl, rfl⟩
  | arg :: filename :: args =>
      obtain ⟨n, hn⟩ := hargv filename (.tail _ (.head args))
      cases hslot : slotOf s n with
      | none =>
          have hopen : fsOpen s filename = some none :=
            (hI.table.fsFind_eq hn).trans (by rw [hslot])
          exact ⟨_, s, by simp only [cmdCat, hopen]; rfl, rfl⟩
      | some i =>
          obtain ⟨calls, heap, hcall, hblocks⟩ := cmdCat_blocks hI hn hslot junk arg args
          exact ⟨calls, { s with heap := heap }, hcall, hblocks⟩

/-- `nano` with a file, if its lines can be allocated. -/
theorem cmdNano_blocks {keys : List (Mem × UInt8)} (hI : Inv False s others)
    (hn : Holds filename n) (hkeys : ∀ key ∈ keys, key.2 ≠ 24)
    (hentry : ∀ b s₁, nanoAllocate filename s = some (some b, s₁) → ∀ p ∈ b.ptrs, p ≠ null)
    (junk last : Mem) (arg : List UInt8) (args : List (List UInt8))
    (rest : List (Mem × UInt8)) :
    ∃ s', cmdNano junk (arg :: filename :: args) (keys ++ (last, 24) :: rest) s = some s' ∧
      ((∀ key ∈ keys, key.2 ≠ 19) → usedBlocks s'.heap = usedBlocks s.heap) ∧
      usedBlocks s'.heap \ dataBlocks s' n = usedBlocks s.heap \ dataBlocks s n := by
  obtain ⟨blocks, s₁, others', halloc, hI₁, hblocks, _⟩ := nanoAllocate_spec hI hn
  obtain ⟨hadded, hdata⟩ := nanoAllocate_blocks hI hn halloc
  cases blocks with
  | none =>
      have hsame : usedBlocks s₁.heap = usedBlocks s.heap := by
        rw [← hadded, Option.elim_none, blocksAt_nil, Set.sdiff_empty]
      refine ⟨s₁, ?_, fun _ ↦ hsame, by rw [hsame, hdata]⟩
      simp only [cmdNano, halloc, Option.bind_eq_bind, Option.bind_some]
      rfl
  | some b =>
      obtain ⟨hlen, howned⟩ := hblocks b rfl
      obtain ⟨_, e, s₂, l, text, hopen, hI₂, _, hS, hrunning, hsame₂, _⟩ :=
        nanoOpen_spec hI₁ hn junk hlen (hentry b s₁ halloc)
      have hok : NanoOk others' (e, s₂) := ⟨hI₂, _, hS, Text.joinable_start l text⟩
      obtain ⟨e₃, s₃, hloop, hI₃, hsame₃, hunsaved⟩ :=
        hok.nanoLoop_spec hrunning hn hkeys last rest
      obtain ⟨heap, hclose, hfreed⟩ := nanoClose_blocks hI₃ howned
      have hblocks₂ := nanoOpen_blocks hI₁ hopen
      have hdata₂ : dataBlocks s₂ n = dataBlocks s₁ n := by
        rw [hsame₂.sys]
        rfl
      refine ⟨{ s₃ with heap := heap }, ?_, fun hno ↦ ?_, ?_⟩
      · simp only [cmdNano, halloc, hopen, hloop, hclose, Option.bind_eq_bind, Option.bind_some]
      · change usedBlocks heap = _
        rw [hfreed, hunsaved hno, hblocks₂]
        exact hadded
      · calc usedBlocks heap \ dataBlocks s₃ n
            = (usedBlocks s₃.heap \ blocksAt (b.table :: b.ptrs)) \ dataBlocks s₃ n := by
              rw [hfreed]
          _ = (usedBlocks s₂.heap \ blocksAt (b.table :: b.ptrs)) \ dataBlocks s₂ n :=
              sdiff_blocksAt_congr hsame₃.blocks _
          _ = (usedBlocks s₁.heap \ blocksAt (b.table :: b.ptrs)) \ dataBlocks s₁ n := by
              rw [hblocks₂, hdata₂]
          _ = usedBlocks s.heap \ dataBlocks s₁ n := congrArg (· \ dataBlocks s₁ n) hadded
          _ = usedBlocks s.heap \ dataBlocks s n := hdata

/-- **`nano`** gives back what it takes. -/
theorem nano_balanced (hI : Inv False s others) : NanoBalanced s := by
  intro junk last argv keys rest hargv hkeys hentry
  match argv with
  | [] | [_] => exact ⟨s, rfl, fun _ ↦ rfl, by rintro _ _ ⟨⟩⟩
  | arg :: filename :: args =>
      obtain ⟨n, hn⟩ := hargv filename (.tail _ (.head args))
      obtain ⟨s', hcall, hunsaved, hblocks⟩ := cmdNano_blocks hI hn hkeys
        (fun b s₁ ↦ hentry filename b s₁ rfl) junk last arg args rest
      refine ⟨s', hcall, hunsaved, ?_⟩
      rintro _ n' ⟨⟩ hn'
      obtain rfl : n = n' := hn.cstr_eq.symm.trans hn'.cstr_eq
      exact hblocks

end

/-- **The commands give back what they take.**  After any use of the filesystem and the heap, `cat`
and `nano` return, and the used blocks of the heap are then as they were before, except for the
data of the file that `nano` has saved. -/
theorem gives_back {w₀ w : World} {acts : List (Act (Option Slot))} (hb : Booted w₀)
    (hr : Run WorldStep w₀ acts w) : CatBalanced w.sys ∧ NanoBalanced w.sys := by
  have hI := Inv.run hb.inv.1 hr
  exact ⟨cat_balanced hI, nano_balanced hI⟩

/-- A character is typed into a new file, and saved. -/
theorem gives_back_boot : ∃ (w : World) (s' : Sys),
    cmdNano (fun _ ↦ 0) [literal "nano", [0x61, 0]]
      [(fun _ ↦ 0, 0x78), (fun _ ↦ 0, 19), (fun _ ↦ 0, 24)] w.sys = some s' ∧
    usedBlocks s'.heap \ dataBlocks s' [0x61] =
      usedBlocks w.sys.heap \ dataBlocks w.sys [0x61] := by
  have hn : Holds [0x61, 0] [0x61] := ⟨by decide, [], rfl⟩
  obtain ⟨b, s₁, halloc, hall⟩ := nanoAllocate_boot
  have hb : Booted (bootWorld (Clients.init fun _ ↦ 0)) := booted_bootWorld ⟨_, [], .nil _⟩
  obtain ⟨s', hcall, _, hblocks⟩ := (gives_back hb (.nil _)).2 (fun _ ↦ 0) (fun _ ↦ 0)
    [literal "nano", [0x61, 0]] [(fun _ ↦ 0, 0x78), (fun _ ↦ 0, 19)] []
    (by
      rintro arg (_ | ⟨_, _ | ⟨_, ⟨⟩⟩⟩)
      · exact ⟨_, Holds.of_mem (zero_mem_literal "nano")⟩
      · exact ⟨_, hn⟩)
    (by decide)
    (by
      rintro _ b' s₁' ⟨⟩ halloc'
      cases halloc.symm.trans halloc'
      exact hall)
  exact ⟨_, s', hcall, hblocks _ _ rfl hn⟩

end KontolOS.Shell
