import KontolOS.Shell.NanoSave

/-!
# The blocks of the editor

`cmd_nano` creates the file if there is none, allocates its lines, and frees them in the end.
While it runs, the lines are blocks that one of the other clients of the heap holds (`Owns`).
Neither touches the files that exist.
-/

namespace KontolOS.Shell

open KontolOS.Lib KontolOS.Memory KontolOS.Strings KontolOS.Fs Function

variable {tight : Prop} {s s' : Sys} {others others' : Live} {filename n : List UInt8}
  {p : Nat} {ptrs : List Nat}

/-! ## What is left alone -/

/-- The files are the same, and so are their contents. -/
structure SameFiles (s s' : Sys) : Prop where
  /-- only the heap may differ -/
  sys : s' = { s with heap := s'.heap }
  /-- but not in what the files own of it -/
  contents : ∀ i, s'.contents i = s.contents i

theorem SameFiles.refl (s : Sys) : SameFiles s s := ⟨rfl, fun _ ↦ rfl⟩

theorem SameFiles.trans {s₁ s₂ s₃ : Sys} (h : SameFiles s₁ s₂) (h' : SameFiles s₂ s₃) :
    SameFiles s₁ s₃ := by
  refine ⟨?_, fun i ↦ (h'.contents i).trans (h.contents i)⟩
  rw [h'.sys, h.sys]

theorem SameFiles.slotOf_eq (h : SameFiles s s') (n : List UInt8) : slotOf s' n = slotOf s n := by
  rw [h.sys]
  rfl

/-! ## Blocks -/

/-- These pointers are of different blocks that the others hold, where they are not `NULL`. -/
structure Owns (others : Live) (ptrs : List Nat) : Prop where
  /-- the blocks are live -/
  live : ∀ p ∈ ptrs, p ≠ null → (others p).isSome
  /-- and different -/
  apart : ptrs.Pairwise fun p q ↦ p ≠ null → p ≠ q

/-- The blocks of an editor. -/
def NanoBlocks.Owned (b : NanoBlocks) (others : Live) : Prop :=
  b.table ≠ null ∧ Owns others (b.table :: b.ptrs)

/-- The loop that allocates the lines. -/
theorem nanoAlloc_spec (hI : Inv tight s others) (n : Nat) :
    ∃ ptrs heap others', nanoAlloc s.heap n = some (ptrs, heap) ∧ ptrs.length = n ∧
      Inv tight { s with heap := heap } others' ∧ SameFiles s { s with heap := heap } ∧
      Owns others' ptrs ∧ (∀ p, (others p).isSome → (others' p).isSome) ∧
      ∀ p ∈ ptrs, p ≠ null → others p = none := by
  induction n generalizing s others with
  | zero => exact ⟨[], s.heap, others, rfl, rfl, hI, .refl s, ⟨nofun, .nil⟩, fun _ h ↦ h, nofun⟩
  | succ n ih =>
      obtain ⟨ptr, heap, hk, hI₁, hsame, hnone⟩ := hI.kmalloc
        (show nanoLineLen ≤ maxRequest by decide)
      obtain ⟨ptrs, heap', others', hloop, hlen, hI', hsame', hown, hkeep, hfresh⟩ := ih hI₁
      have hgrant : ∀ p, (others p).isSome → (others.grant ptr (.fresh nanoLineLen) p).isSome :=
        fun p ↦ Live.isSome_grant ptr _
      have hptr : ptr ≠ null → (others' ptr).isSome :=
        fun h ↦ hkeep ptr (by rw [Live.grant_self h]; rfl)
      refine ⟨ptr :: ptrs, heap', others', ?_, by rw [List.length_cons, hlen], hI',
        SameFiles.trans ⟨rfl, hsame⟩ hsame', ⟨?_, .cons ?_ hown.apart⟩, ?_, ?_⟩
      · simp only [nanoAlloc, hk, hloop, Option.bind_eq_bind, Option.bind_some]
        rfl
      · exact List.forall_mem_cons.mpr ⟨hptr, hown.live⟩
      · rintro q hq hne rfl
        have hlive := hfresh ptr hq hne
        rw [Live.grant_self hne] at hlive
        cases hlive
      · exact fun p hp ↦ hkeep p (hgrant p hp)
      · refine List.forall_mem_cons.mpr ⟨hnone, fun p hp hne ↦ ?_⟩
        by_contra hlive
        have hsome := hgrant p (Option.ne_none_iff_isSome.mp hlive)
        rw [hfresh p hp hne] at hsome
        cases hsome

/-- The loop that frees the lines. -/
theorem nanoFree_spec (hI : Inv tight s others) (hown : Owns others ptrs) :
    ∃ heap others', nanoFree s.heap ptrs = some heap ∧ Inv tight { s with heap := heap } others' ∧
      SameFiles s { s with heap := heap } ∧ ∀ q, q ∉ ptrs → others' q = others q := by
  induction ptrs generalizing s others with
  | nil => exact ⟨s.heap, others, rfl, hI, .refl s, fun _ _ ↦ rfl⟩
  | cons ptr ptrs ih =>
      obtain ⟨hlive, hlives⟩ := List.forall_mem_cons.mp hown.live
      obtain ⟨hne, hapart⟩ := List.pairwise_cons.mp hown.apart
      by_cases hptr : ptr = null
      · obtain ⟨heap, others', hloop, hI', hsame, hkeep⟩ := ih hI ⟨hlives, hapart⟩
        refine ⟨heap, others', ?_, hI', hsame, fun q hq ↦ hkeep q fun h ↦ hq (.tail ptr h)⟩
        simp only [nanoFree, if_pos hptr, Option.bind_eq_bind, Option.bind_some, hloop]
      · obtain ⟨heap₁, hfree, hI₁, hsame₁⟩ := hI.kfree (hlive hptr)
        have hown₁ : Owns (update others ptr none) ptrs := by
          refine ⟨fun p hp hp' ↦ ?_, hapart⟩
          rw [update_of_ne (hne p hp hptr).symm]
          exact hlives p hp hp'
        obtain ⟨heap, others', hloop, hI', hsame, hkeep⟩ := ih hI₁ hown₁
        refine ⟨heap, others', ?_, hI', SameFiles.trans ⟨rfl, hsame₁⟩ hsame, fun q hq ↦ ?_⟩
        · simp only [nanoFree, if_neg hptr, hfree, Option.bind_eq_bind, Option.bind_some, hloop]
        · rw [List.mem_cons, not_or] at hq
          rw [hkeep q hq.2, update_of_ne hq.1]

/-! ## The beginning and the end of `cmd_nano` -/

/-- Creating the file does not touch what others hold, nor anything if it exists. -/
theorem nanoCreate_spec (hI : Inv tight s others) (hn : Holds filename n) :
    ∃ s', nanoCreate filename s = some s' ∧ Inv tight s' others ∧ s'.heap = s.heap ∧
      ((slotOf s n).isSome → s' = s) := by
  have hfind := hI.table.fsFind_eq hn
  cases hslot : slotOf s n with
  | some i => exact ⟨s, by simp [nanoCreate, fsExists, hfind, hslot], hI, rfl, fun _ ↦ rfl⟩
  | none =>
      obtain ⟨code, s', h, hI', hheap⟩ : ∃ code s', fsCreate s (some filename) = some (code, s') ∧
          Inv tight s' others ∧ s'.heap = s.heap := by
        rcases fsNew_spec hI hn (.inl rfl) with ⟨_, h⟩ | ⟨_, _, ⟨_, h⟩ | ⟨_, _, h⟩ |
          ⟨_, i, f, _, h, _, _, _, _, hI', _⟩⟩
        · exact ⟨_, s, h, hI, rfl⟩
        · exact ⟨_, s, h, hI, rfl⟩
        · exact ⟨_, s, h, hI, rfl⟩
        · exact ⟨_, _, h, hI', rfl⟩
      exact ⟨s', by simp [nanoCreate, fsExists, hfind, hslot, h], hI', hheap, by rintro ⟨⟩⟩

/-- **The beginning of `cmd_nano`** returns, with as many lines as it asked for. -/
theorem nanoAllocate_spec (hI : Inv tight s others) (hn : Holds filename n) :
    ∃ blocks s' others', nanoAllocate filename s = some (blocks, s') ∧ Inv tight s' others' ∧
      (∀ b, blocks = some b → b.ptrs.length = nanoMaxLines ∧ b.Owned others') ∧
      ((slotOf s n).isSome → SameFiles s s') := by
  obtain ⟨s₁, hs₁, hI₁, _, hsame₁⟩ := nanoCreate_spec hI hn
  obtain ⟨table, heap, hk, hI₂, hsame₂, _⟩ := hI₁.kmalloc
    (show nanoMaxLines * sizeofPtr ≤ maxRequest by decide)
  have hfiles₂ : SameFiles s₁ { s₁ with heap := heap } := ⟨rfl, hsame₂⟩
  by_cases htable : table = null
  · refine ⟨none, { s₁ with heap := heap }, _, ?_, hI₂, nofun, fun h ↦ ?_⟩
    · simp only [nanoAllocate, hs₁, hk, if_pos htable, Option.bind_eq_bind, Option.bind_some]
      rfl
    · rwa [← hsame₁ h]
  obtain ⟨ptrs, heap', others', halloc, hlen, hI₃, hfiles₃, hown, hkeep, hfresh⟩ :=
    nanoAlloc_spec hI₂ nanoMaxLines
  have hlive : others.grant table (.fresh (nanoMaxLines * sizeofPtr)) table =
    some (.fresh (nanoMaxLines * sizeofPtr)) := Live.grant_self htable
  refine ⟨some ⟨table, ptrs⟩, { s₁ with heap := heap' }, others', ?_, hI₃, ?_, fun h ↦ ?_⟩
  · simp only [nanoAllocate, hs₁, hk, if_neg htable, halloc, Option.bind_eq_bind,
      Option.bind_some]
    rfl
  · rintro b ⟨⟩
    refine ⟨hlen, htable, ⟨List.forall_mem_cons.mpr ⟨fun _ ↦ ?_, hown.live⟩, .cons ?_ hown.apart⟩⟩
    · exact hkeep table (by rw [hlive]; rfl)
    · rintro q hq _ rfl
      rw [hfresh table hq htable] at hlive
      cases hlive
  · rw [← hsame₁ h]
    exact hfiles₂.trans hfiles₃

/-- **The end of `cmd_nano`** frees the lines, and leaves the files alone. -/
theorem nanoClose_spec (hI : Inv tight s others) {b : NanoBlocks} (hb : b.Owned others) :
    ∃ s' others', nanoClose b s = some s' ∧ Inv tight s' others' ∧ SameFiles s s' := by
  obtain ⟨htable, hown⟩ := hb
  obtain ⟨hlive, hlives⟩ := List.forall_mem_cons.mp hown.live
  obtain ⟨hne, hapart⟩ := List.pairwise_cons.mp hown.apart
  obtain ⟨heap, others', hloop, hI₁, hsame₁, hkeep⟩ := nanoFree_spec hI ⟨hlives, hapart⟩
  have htable' : (others' b.table).isSome := by
    rw [hkeep b.table fun h ↦ hne b.table h htable rfl]
    exact hlive htable
  obtain ⟨heap', hfree, hI', hsame'⟩ := hI₁.kfree htable'
  refine ⟨{ s with heap := heap' }, _, ?_, hI', hsame₁.trans ⟨rfl, hsame'⟩⟩
  simp only [nanoClose, hloop, hfree, Option.bind_eq_bind, Option.bind_some]
  rfl

end KontolOS.Shell
