import KontolOS.Shell.NanoFault

/-!
# Lines that could not be allocated

`cmd_nano` checks for `NULL` where it prepares, prints and frees its lines, but nowhere else: the
lines that are loaded, edited and saved are accessed whether they were allocated or not.  So it
accesses no line through a `NULL` pointer, whatever the file contains and whatever is typed,
exactly if all its lines were allocated (`nullFree_iff`).  If one was not, 100 line breaks and
Ctrl+S reach it, at the latest.
-/

namespace KontolOS.Shell

open KontolOS.Lib KontolOS.Memory KontolOS.Strings KontolOS.Fs Function Deref

/-- From the allocation of the lines on, `cmd_nano` does not access a line that is `NULL`, whatever
the memory it is given contains, and whatever is typed. -/
def NullFree (filename : List UInt8) (b : NanoBlocks) (s : Sys) : Prop :=
  ∀ junk keys i, nanoSession junk filename b keys s ≠ .error (.null i)

section

variable {N : Nat → Bool} {x x' : Nano × Sys} {s : Sys} {others : Live} {filename n : List UInt8}
  {ls ls' : Lines} {b : NanoBlocks} {junk : Mem}

/-! ## If all lines are allocated -/

/-- Nothing fails. -/
theorem NanoOk.nanoKeys_ok (h : NanoOk others x) (hname : ∃ n, Holds filename n)
    (keys : List (Mem × UInt8)) : ∃ y, nanoKeys filename keys x = .ok y := by
  induction keys generalizing x with
  | nil => exact ⟨x, rfl⟩
  | cons key keys ih =>
      obtain ⟨junk, c⟩ := key
      rw [nanoKeys]
      split
      · obtain ⟨y, hkey, hy⟩ := h.key hname junk c
        have hcall := eq_ok_of_toOption ((toOption_nanoKey junk filename c x).trans hkey)
        obtain ⟨z, hkeys⟩ := ih hy
        refine ⟨z, ?_⟩
        rw [hcall]
        exact hkeys
      · exact ⟨_, rfl⟩

theorem nullFree_of_allocated (hI : Inv False s others) (hn : Holds filename n)
    (hlen : b.ptrs.length = nanoMaxLines) (hall : ∀ p ∈ b.ptrs, p ≠ null) :
    NullFree filename b s := by
  intro junk keys i hfault
  obtain ⟨_, e, s₁, l, rest, hopen, hI₁, _, hS, _⟩ := nanoOpen_spec hI hn junk hlen hall
  have hcall := eq_ok_of_toOption ((toOption_nanoOpen junk filename b s).trans hopen)
  have hok : NanoOk others (e, s₁) := ⟨hI₁, _, hS, Text.joinable_start l rest⟩
  obtain ⟨y, hkeys⟩ := hok.nanoKeys_ok ⟨n, hn⟩ keys
  rw [nanoSession, hcall] at hfault
  cases hkeys.symm.trans hfault

/-! ## If a line is `NULL` -/

theorem exists_null_of_atBlank {f : Fault} (h : AtBlank N f) : ∃ i, f = .null i := by
  cases f with
  | null i => exact ⟨i, rfl⟩
  | other => cases h

/-- A line break adds a line. -/
theorem NanoOk.enterKey (h : NanoOk others x) (hrunning : x.1.running = true)
    (hname : ∃ n, Holds filename n) (junk : Mem) :
    ∃ y, Shell.nanoKey junk filename 10 x.1 x.2 = some y ∧ NanoOk others y ∧
      y.1.running = true ∧ min nanoMaxLines (x.1.numLines.toNat + 1) ≤ y.1.numLines.toNat := by
  obtain ⟨hI, t, hS, hj⟩ := h
  obtain ⟨e, s₁, hkey, hI₁, hS₁, hrun⟩ := hS.key hI hname junk fun _ ↦ hj.joinFits
  refine ⟨(e, s₁), hkey, ⟨hI₁, _, hS₁, joinable_typed hj hS.fits⟩, ?_, ?_⟩
  · exact (hrun (by decide)).trans hrunning
  · have htyped : typed t 10 = t.enter nanoMaxLines := rfl
    rw [hS₁.numLines, hS.numLines, htyped, Text.length_lines_enter, Int.toNat_natCast,
      Int.toNat_natCast]
    omega

/-- Line breaks, in an editor some of whose lines are `NULL`: one of these is accessed, or there
are as many lines in the end as if all of them were allocated. -/
theorem enterKeys (h : BlankedState N x x') (hok : NanoOk others x')
    (hrunning : x'.1.running = true) (hname : ∃ n, Holds filename n) (junk : Mem) (k : Nat)
    (keys : List (Mem × UInt8)) :
    (∃ i, nanoKeys filename (List.replicate k (junk, 10) ++ keys) x = .error (.null i)) ∨
    ∃ y y', BlankedState N y y' ∧ NanoOk others y' ∧ y'.1.running = true ∧
      min nanoMaxLines (x'.1.numLines.toNat + k) ≤ y'.1.numLines.toNat ∧
      nanoKeys filename (List.replicate k (junk, 10) ++ keys) x = nanoKeys filename keys y := by
  induction k generalizing x x' with
  | zero => exact .inr ⟨x, x', h, hok, hrunning, Nat.min_le_right _ _, rfl⟩
  | succ k ih =>
      obtain ⟨y', hkey, hok', hrunning', hmore⟩ := hok.enterKey hrunning hname junk
      have hrun : x.1.running = true := by
        obtain ⟨ls, rfl, _⟩ := h
        exact hrunning
      have hstep : nanoKeys filename (List.replicate (k + 1) (junk, 10) ++ keys) x =
          (Deref.nanoKey junk filename 10 x.1 x.2).bind
            (nanoKeys filename (List.replicate k (junk, 10) ++ keys)) := by
        rw [List.replicate_succ, List.cons_append, nanoKeys, if_pos hrun]
        rfl
      have htracks := tracks_nanoKey h junk filename 10
      rw [hkey] at htracks
      rcases htracks.of_some with ⟨f, hf, hfault⟩ | ⟨y, hcall, hy⟩
      · obtain ⟨i, rfl⟩ := exists_null_of_atBlank hf
        exact .inl ⟨i, by rw [hstep, hfault]; rfl⟩
      · rw [hstep, hcall]
        rcases ih hy hok' hrunning' with hnull | ⟨z, z', hz, hok'', hrunning'', hcount, hrest⟩
        · exact .inl hnull
        · exact .inr ⟨z, z', hz, hok'', hrunning'', by omega, hrest⟩

/-- Lines whose lengths are added up are not `NULL`. -/
theorem lineAt_of_nanoTotal {total i k r : Nat} (h : Deref.nanoTotal ls total i k = .ok r) :
    ∀ j < k, ∃ buf, Deref.lineAt ls ((i + j : Nat) : Int) = .ok buf := by
  induction k generalizing total i with
  | zero => exact fun j hj ↦ absurd hj (Nat.not_lt_zero j)
  | succ k ih =>
      rw [Deref.nanoTotal] at h
      cases hline : Deref.lineAt ls i with
      | error f =>
          rw [hline] at h
          cases h
      | ok buf =>
          rw [hline] at h
          change (Deref.check (strlen buf)).bind _ = _ at h
          cases hlen : strlen buf with
          | none =>
              rw [hlen] at h
              cases h
          | some len =>
              rw [hlen] at h
              intro j hj
              cases j with
              | zero => exact ⟨buf, hline⟩
              | succ j =>
                  have hnext : i + (j + 1) = i + 1 + j := by omega
                  rw [hnext]
                  exact ih h j (Nat.lt_of_succ_lt_succ hj)

/-- The lengths of the lines of a text. -/
theorem Shows.nanoTotal_eq {e : Nano} {t : Text UInt8} (hS : Shows e t) :
    Shell.nanoTotal e.lines 0 0 e.numLines.toNat = some (unlines t.lines).length := by
  have hsize : (unlines t.lines).length ≤ nanoMaxLines * nanoLineLen :=
    length_unlines_le hS.height_le fun l hl ↦ lt_lineLen (hS.fits.width_le l hl)
  have hbig : nanoMaxLines * nanoLineLen < 2 ^ 32 := by decide
  have htotal := hS.linesFrom.nanoTotal_eq (k := 0) (by omega)
  rw [hS.numLines, Int.toNat_natCast, ← Int.natCast_zero, htotal, Nat.zero_add]

/-- With `NANO_MAX_LINES` lines, Ctrl+S accesses one that is `NULL`, if there is one. -/
theorem saveKey_null (h : BlankedState N x x') (hok : NanoOk others x')
    (hrunning : x'.1.running = true) (hcount : nanoMaxLines ≤ x'.1.numLines.toNat) (junk : Mem)
    {j : Nat} (hj : j < nanoMaxLines) (hN : N j = true) :
    ∃ i, nanoKeys filename [(junk, 19)] x = .error (.null i) := by
  obtain ⟨ls, rfl, hls⟩ := h
  obtain ⟨_, t, hS, _⟩ := hok
  suffices hnull : ∃ i, Deref.nanoTotal ls 0 0 x'.1.numLines.toNat = .error (.null i) by
    obtain ⟨i, hnull⟩ := hnull
    refine ⟨i, ?_⟩
    rw [nanoKeys, if_pos hrunning, Deref.nanoKey, Deref.nanoHandle, if_pos rfl, Deref.nanoSave,
      hnull]
    rfl
  have htracks := tracks_nanoTotal hls 0 0 x'.1.numLines.toNat
  rw [hS.nanoTotal_eq] at htracks
  rcases htracks.of_some with ⟨f, hf, hfault⟩ | ⟨r, hread, _⟩
  · obtain ⟨i, rfl⟩ := exists_null_of_atBlank hf
    exact ⟨i, hfault⟩
  · rw [← Int.natCast_zero] at hread
    obtain ⟨buf, hline⟩ := lineAt_of_nanoTotal hread j (Nat.lt_of_lt_of_le hj hcount)
    have hget := hls j
    rw [hN, if_pos rfl] at hget
    rw [Nat.zero_add, Deref.lineAt, if_pos (Int.natCast_nonneg j), Int.toNat_natCast, hget] at hline
    cases hline' : x'.1.lines[j]? with
    | none =>
        rw [hline'] at hline
        cases hline
    | some l =>
        rw [hline'] at hline
        cases hline

/-- The lines that are `NULL`. -/
def NanoBlocks.isNull (b : NanoBlocks) (i : Nat) : Bool := b.ptrs[i]? == some null

/-- The blocks of an editor all of whose lines were allocated. -/
def NanoBlocks.filled (b : NanoBlocks) : NanoBlocks :=
  ⟨b.table, b.ptrs.map fun p ↦ if p = null then 1 else p⟩

theorem NanoBlocks.length_filled (b : NanoBlocks) : b.filled.ptrs.length = b.ptrs.length :=
  List.length_map _

theorem NanoBlocks.filled_ne_null (b : NanoBlocks) : ∀ p ∈ b.filled.ptrs, p ≠ null := by
  intro p hp
  obtain ⟨q, _, rfl⟩ := List.mem_map.mp hp
  split
  · decide
  next hq => exact hq

theorem NanoBlocks.blanked (b : NanoBlocks) (junk : Mem) :
    Blanked b.isNull (b.ptrs.map (nanoLine junk)) (b.filled.ptrs.map (nanoLine junk)) := by
  intro i
  simp only [NanoBlocks.filled, List.map_map, List.getElem?_map, NanoBlocks.isNull]
  cases b.ptrs[i]? with
  | none => simp
  | some p =>
      by_cases hp : p = null
      · simp [hp, nanoLine]
      · simp [hp]

/-- **One `NULL` is enough**: `NANO_MAX_LINES` line breaks and Ctrl+S access one, unless it was
accessed before. -/
theorem exists_session_null (hI : Inv False s others) (hn : Holds filename n)
    (hlen : b.ptrs.length = nanoMaxLines) (hnull : null ∈ b.ptrs) (junk : Mem) :
    ∃ i, nanoSession junk filename b (List.replicate nanoMaxLines (junk, 10) ++ [(junk, 19)]) s =
      .error (.null i) := by
  obtain ⟨j, hj, hget⟩ := List.getElem_of_mem hnull
  have hN : b.isNull j = true := by
    rw [NanoBlocks.isNull, List.getElem?_eq_getElem hj, hget]
    exact beq_self_eq_true _
  obtain ⟨_, e, s₁, l, rest, hopen, hI₁, _, hS, hrunning, _⟩ :=
    nanoOpen_spec hI hn junk (b.length_filled.trans hlen) b.filled_ne_null
  have hok : NanoOk others (e, s₁) := ⟨hI₁, _, hS, Text.joinable_start l rest⟩
  have htracks := tracks_nanoOpen (b.blanked junk) filename s
  rw [hopen] at htracks
  rcases htracks.of_some with ⟨f, hf, hfault⟩ | ⟨x, hcall, hx⟩
  · obtain ⟨i, rfl⟩ := exists_null_of_atBlank hf
    exact ⟨i, by rw [nanoSession, hfault]; rfl⟩
  rw [nanoSession, hcall]
  rcases enterKeys hx hok hrunning ⟨n, hn⟩ junk nanoMaxLines [(junk, 19)] with
    hfault | ⟨y, y', hy, hok', hrunning', hcount, hrest⟩
  · exact hfault
  · change ∃ i, nanoKeys filename _ x = _
    rw [hrest]
    exact saveKey_null hy hok' hrunning' (by omega) junk (hlen ▸ hj) hN

end

/-- **When no `NULL` is accessed.**  After any use of the filesystem and the heap, if the pointers
to the lines can be allocated, the lines that are accessed were allocated too, for every file and
all keys, if and only if all lines were. -/
theorem nullFree_iff {w₀ w : World} {acts : List (Act (Option Slot))} {filename : List UInt8}
    {b : NanoBlocks} {s : Sys} (hb : Booted w₀) (hr : Run WorldStep w₀ acts w)
    (hname : ∃ n, Holds filename n) (halloc : nanoAllocate filename w.sys = some (some b, s)) :
    NullFree filename b s ↔ ∀ p ∈ b.ptrs, p ≠ null := by
  obtain ⟨n, hn⟩ := hname
  obtain ⟨_, _, others, halloc', hI, hblocks, _⟩ := nanoAllocate_spec (Inv.run hb.inv.1 hr) hn
  cases halloc'.symm.trans halloc
  obtain ⟨hlen, _⟩ := hblocks b rfl
  refine ⟨fun hfree p hp hnull ↦ ?_, nullFree_of_allocated hI hn hlen⟩
  obtain ⟨i, hfault⟩ := exists_session_null hI hn hlen (hnull ▸ hp) fun _ ↦ 0
  exact hfree _ _ i hfault

theorem nullFree_iff_boot : ∃ b s, nanoAllocate [0x61, 0]
      (bootWorld (Clients.init fun _ ↦ 0)).sys = some (some b, s) ∧ NullFree [0x61, 0] b s := by
  obtain ⟨b, s, halloc, hall⟩ := nanoAllocate_boot
  have hname : ∃ n, Holds [0x61, 0] n := ⟨[0x61], by decide, [], rfl⟩
  have hb : Booted (bootWorld (Clients.init fun _ ↦ 0)) := booted_bootWorld ⟨_, [], .nil _⟩
  exact ⟨b, s, halloc, (nullFree_iff hb (.nil _) hname halloc).mpr hall⟩

/-! ## A first line that is `NULL` -/

/-- The first line is allocated first. -/
theorem nanoAlloc_head {h h₁ h' : Heap} {ptr m : Nat} {ptrs : List Nat}
    (hk : kmalloc h nanoLineLen = some (ptr, h₁))
    (hloop : nanoAlloc h (m + 1) = some (ptrs, h')) : ptrs[0]? = some ptr := by
  simp only [nanoAlloc, hk, Option.bind_eq_bind, Option.bind_some, Option.bind_eq_some_iff] at hloop
  obtain ⟨_, _, heq⟩ := hloop
  cases heq
  rfl

/-- With 420 bytes left in the heap there is space for the pointers, but for no line. -/
theorem exists_noLines : ∃ (w : World) (b : NanoBlocks) (s : Sys) (i : Slot), Booted w ∧
    nanoAllocate [0x61, 0] w.sys = some (some b, s) ∧ b.ptrs[0]? = some null ∧
    fsOpen s [0x61, 0] = some (some i) ∧ fsGetSize s (some i) = 0 := by
  have ha : alloc (totalSize 4193872) splitSlack
      [{ addr := heapStart, size := heapSize, used := false }] =
      some ({ addr := heapStart, size := 4193884, used := true },
        [{ addr := heapStart, size := 4193884, used := true },
          { addr := heapStart + 4193884, size := heapSize - 4193884, used := false }]) := by decide
  obtain ⟨v, hreach, ⟨o, ho, hreq⟩, hroom⟩ := exists_large (by decide) (by decide) ha
  have hb := booted_bootWorld hreach
  have hn : Holds [0x61, 0] [0x61] := ⟨by decide, [], rfl⟩
  have hI : Inv False (bootWorld v).sys v.live := hb.inv.1
  have hfind := hI.table.fsFind_eq hn
  have hslot := hb.slotOf_eq [0x61]
  rcases fsNew_spec hI hn (.inl rfl) with ⟨hbad, _⟩ | ⟨_, _, ⟨h, _⟩ | ⟨_, h, _⟩ |
    ⟨_, i, f, _, hnew, hname, _, hsize, hflags, hI₁, _⟩⟩
  · exact absurd hbad (by decide)
  · rw [hslot] at h
    cases h
  · cases (hb.unused ⟨0, by decide⟩).symm.trans (h ⟨0, by decide⟩)
  have hcreate : nanoCreate [0x61, 0] (bootWorld v).sys = some ((bootWorld v).sys.setFile i f) := by
    simp [nanoCreate, fsExists, hfind, hslot, fsCreate, hnew]
  obtain ⟨table, heap, hk, hI₂, _, hnone⟩ := hI₁.kmalloc
    (show nanoMaxLines * sizeofPtr ≤ maxRequest by decide)
  have htable : table ≠ null := by
    obtain ⟨live, bs, hs, _⟩ := hI₁.heap
    exact hs.owned.kmalloc_ne_null (by decide) (by decide) (hroom _ (by decide)) hk
  have hfirst : kmalloc heap nanoLineLen = some (null, heap) := by
    rw [Live.grant_of_ne htable] at hI₂
    obtain ⟨live, bs, hs, _⟩ := hI₂.heap
    have hne : heapStart + sizeofBlock ≠ table := by
      rintro rfl
      cases (hnone htable).symm.trans ho
    refine (hs.owned.kmalloc_eq_null_iff (by decide) (by decide)).mpr ?_
    refine hs.owned.not_room_pair
      (hs.others_le _ o (by rw [update_of_ne hne]; exact ho))
      (hs.others_le table (.fresh (nanoMaxLines * sizeofPtr)) (update_self _ _ _))
      hne.symm (by decide) htable (by decide) ?_
    rw [hreq]
    decide
  obtain ⟨ptrs, heap', _, hloop, _, hI₃, _⟩ := nanoAlloc_spec hI₂ nanoMaxLines
  have hnull : ptrs[0]? = some null := nanoAlloc_head (m := 99) hfirst hloop
  refine ⟨bootWorld v, ⟨table, ptrs⟩, { (bootWorld v).sys.setFile i f with heap := heap' }, i, hb,
    ?_, hnull, ?_, ?_⟩
  · simp only [nanoAllocate, hcreate, hk, if_neg htable, hloop, Option.bind_eq_bind,
      Option.bind_some]
    rfl
  · refine (hI₃.table.fsFind_eq hn).trans (congrArg some ?_)
    refine hI₃.table.slotOf_eq_some_iff.mpr ⟨?_, ?_⟩
    · change ((bootWorld v).sys.setFile i f |>.fileTable i).used = true
      rw [TableOk.setFile_same, FsFile.used, hflags]
      decide
    · change cstr ((bootWorld v).sys.setFile i f |>.fileTable i).name = [0x61]
      rw [TableOk.setFile_same]
      exact hname
  · change ((bootWorld v).sys.setFile i f |>.fileTable i).size = 0
    rw [TableOk.setFile_same]
    exact hsize

/-- A character typed into a new file is put into a line that is `NULL`. -/
theorem not_nullFree : ∃ (w : World) (b : NanoBlocks) (s : Sys), Booted w ∧
    nanoAllocate [0x61, 0] w.sys = some (some b, s) ∧
    nanoSession (fun _ ↦ 0) [0x61, 0] b [(fun _ ↦ 0, 0x78)] s = .error (.null 0) ∧
    ¬ NullFree [0x61, 0] b s := by
  obtain ⟨w, b, s, i, hb, halloc, hnull, hopen, hsize⟩ := exists_noLines
  have hread : Deref.nanoOpen (fun _ ↦ 0) [0x61, 0] b s =
      .ok (⟨b.ptrs.map (nanoLine fun _ ↦ 0), 1, 0, 0, false, true⟩, s) := by
    refine eq_ok_of_toOption ((toOption_nanoOpen _ _ _ _).trans ?_)
    simp only [Shell.nanoOpen, nanoRead, hopen, hsize, Option.bind_eq_bind, Option.bind_some,
      Nat.lt_irrefl, if_false]
    rfl
  have hline : Deref.lineAt (b.ptrs.map (nanoLine fun _ ↦ 0)) 0 = .error (.null 0) := by
    rw [Deref.lineAt, if_pos (Int.le_refl 0), Int.toNat_zero, List.getElem?_map, hnull]
    rfl
  have hfault : nanoSession (fun _ ↦ 0) [0x61, 0] b [(fun _ ↦ 0, 0x78)] s = .error (.null 0) := by
    rw [nanoSession, hread]
    change nanoKeys _ _ _ = _
    rw [nanoKeys, if_pos rfl, Deref.nanoKey, Deref.nanoHandle, if_neg (by decide),
      if_neg (by decide), if_neg (by decide), if_neg (by decide), if_pos (by decide),
      Deref.nanoInsert, hline]
    rfl
  exact ⟨w, b, s, hb, halloc, hfault, fun hfree ↦ hfree _ _ _ hfault⟩

end KontolOS.Shell
