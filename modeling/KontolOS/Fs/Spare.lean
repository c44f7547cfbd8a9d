import KontolOS.Fs.Steps
import KontolOS.Memory.Spare

/-!
# Files and memory to spare

What the calls of the other clients and `fs_write` take of the memory to spare.
-/

namespace KontolOS.Fs

open KontolOS.Lib KontolOS.Memory KontolOS.Strings Function

variable {tight : Prop} {s s' : Sys} {others : Live} {i : Slot} {size p k : Nat} {heap : Heap}

namespace Inv

theorem size_le (hk : size + k ≤ heapSize) : size ≤ maxRequest :=
  Nat.le_trans (Nat.le_trans (Nat.le_add_right _ _) hk) (by decide)

/-- An allocation that fits into what is to spare. -/
theorem spare_kmalloc (hI : Inv tight s others) (hpos : 0 < size)
    (hk : size + overhead + k ≤ heapSize) (hs : Spare s.heap (size + overhead + k))
    (hcall : Memory.kmalloc s.heap size = some (p, heap)) : p ≠ null ∧ Spare heap k := by
  obtain ⟨live, bs, hheld, _⟩ := hI.heap
  have hmax : size ≤ maxRequest := size_le (k := overhead + k) (by rwa [← Nat.add_assoc])
  exact hheld.owned.spare_kmalloc hmax hpos hs hk hcall

theorem succeeds_of_spare (hI : Inv tight s others) (hpos : 0 < size)
    (hk : size + overhead ≤ heapSize) (hs : Spare s.heap (size + overhead)) :
    Succeeds s.heap size := by
  obtain ⟨live, bs, hheld, _⟩ := hI.heap
  exact hheld.owned.succeeds_of_spare (size_le hk) hpos hs hk

theorem spare_kfree (hI : Inv tight s others) (hp : (others p).isSome)
    (hcall : Memory.kfree s.heap p = some heap) (hs : Spare s.heap k) : Spare heap k := by
  obtain ⟨live, bs, hheld, _⟩ := hI.heap
  obtain ⟨o, ho⟩ := Option.isSome_iff_exists.mp hp
  exact hheld.owned.spare_kfree (hheld.others_le p o ho) hcall hs

/-- The data of a file is given up. -/
theorem spare_freeData (hI : Inv tight s others) (hs : Spare s.heap k) :
    ∃ heap live bs, freeData s.heap (s.fileTable i).data = some heap ∧ Owned heap live bs ∧
      Spare heap k := by
  obtain ⟨live, bs, hheld, _⟩ := hI.heap
  obtain ⟨heap, bs', hfree, hw, _⟩ := freeData_spec hheld.owned (hheld.data_isSome (i := i))
  refine ⟨heap, _, bs', hfree, hw, ?_⟩
  by_cases hd : (s.fileTable i).data = null
  · rw [freeData, if_pos hd] at hfree
    cases hfree
    exact hs
  · rw [freeData, if_neg hd] at hfree
    obtain ⟨_, o, ho, _⟩ := hheld.data i hd
    exact hheld.owned.spare_kfree ho hfree hs

end Inv

/-- **`fs_write`** takes what its data takes. -/
theorem fsWrite_spare {src : List UInt8} {code : Int} (hI : Inv tight s others) (hpos : 0 < size)
    (hle : size ≤ fsMaxFilesize) (hsrc : size ≤ src.length)
    (hk : size + overhead + k ≤ heapSize) (hs : Spare s.heap (size + overhead + k))
    (hcall : fsWrite Memory.kmalloc s (some i) (some src) size = some (code, s')) :
    Spare s'.heap k := by
  have hmax : size ≤ maxRequest := Nat.le_trans hle (by decide)
  have hlen : (src.take size).length = size := List.length_take_of_le hsrc
  obtain ⟨h₁, live, bs, hfree, hw, hs₁⟩ := hI.spare_freeData (i := i) hs
  rcases hw.kmalloc (.inl hmax) with hnull | ⟨b, bs', h₂, _, hsome, _, hw'⟩
  · exact absurd rfl (hw.spare_kmalloc hmax hpos hs₁ hk hnull).1
  · obtain ⟨hptr, hs₂⟩ := hw.spare_kmalloc hmax hpos hs₁ hk hsome
    have hsmall : ¬ fsMaxFilesize < size := Nat.not_lt.mpr hle
    have hne : size ≠ 0 := Nat.ne_of_gt hpos
    simp only [fsWrite, hsmall, hfree, hne, hsome, hptr, copyIn_eq hsrc, if_false,
      Option.bind_eq_bind, Option.bind_some] at hcall
    obtain rfl := congrArg Prod.snd (Option.some.inj hcall)
    refine hw'.spare_congr (hw'.overwrite_all (update_self _ _ _) fun x hx ↦ ?_) hs₂
    refine Mem.write_off ?_
    rw [hlen]
    exact hx

/-- **`fs_write`** of a new file, where there is memory to spare. -/
theorem Inv.spare_write_step {w : World} {src : List UInt8} (hI : Inv tight w.sys w.others)
    (hu : (w.sys.fileTable i).used = true) (hpos : 0 < src.length)
    (hle : src.length ≤ fsMaxFilesize) (hk : src.length + overhead + k ≤ heapSize)
    (hs : Spare w.sys.heap (src.length + overhead + k)) :
    ∃ s', WorldStep w (.fs false (.write (some i) (some src) src.length) (.ofCode src.length))
        ⟨s', w.others⟩ ∧
      ¬ ActLoses w (.fs false (.write (some i) (some src) src.length) (.ofCode src.length)) ∧
      Inv tight s' w.others ∧ Stored w.sys s' i src ∧ Spare s'.heap k := by
  have hroom : Room w.sys.heap (w.sys.fileTable i).data (totalSize src.length) := by
    obtain ⟨live, bs, hheld, _⟩ := hI.heap
    have htotal := (totalSize_bounds (Nat.le_trans hle (by decide))).2.2.2
    refine hheld.owned.room_of_spare (hs.mono ?_) ?_ <;> unfold overhead at * <;> omega
  obtain ⟨s', hstep, hsafe, hI', hstored⟩ := hI.write_step hu hle hroom
  obtain ⟨_, _, _, hexec⟩ := id hstep
  obtain ⟨⟨code, t⟩, hwrite, heq⟩ := Option.map_eq_some_iff.mp hexec
  obtain rfl : t = s' := congrArg Prod.snd heq
  exact ⟨t, hstep, hsafe, hI', hstored,
    fsWrite_spare hI hpos hle (Nat.le_refl _) hk hs hwrite⟩

/-- **`fs_append`**, where there is memory to spare. -/
theorem Inv.spare_append_step {w : World} {n old src : List UInt8} (hI : Inv tight w.sys w.others)
    (he : EntryAt w.sys i n old) (hpos : 0 < src.length)
    (hle : old.length + src.length ≤ fsMaxFilesize)
    (hs : Spare w.sys.heap (old.length + src.length + overhead)) :
    ∃ s', WorldStep w (.fs false (.append (some i) (some src) src.length) (.ofCode src.length))
        ⟨s', w.others⟩ ∧ Inv tight s' w.others ∧ Stored w.sys s' i (old ++ src) := by
  refine hI.append_step he hpos hle ?_
  obtain ⟨live, bs, hheld, _⟩ := hI.heap
  have htotal := (totalSize_bounds (Nat.le_trans hle (by decide))).2.2.2
  have hheap : fsMaxFilesize + overhead ≤ heapSize := by decide
  refine hheld.owned.room_of_spare (hs.mono ?_) ?_ <;> unfold overhead at * <;> omega

/-! ## Files in a heap of their own -/

/-- A step of the filesystem, in which no data is lost and no block. -/
def TidyStep (w : World) (a : Act (Option Slot)) (w' : World) : Prop :=
  (∃ fails c o, a = .fs fails c o) ∧ WorldStep w a w' ∧ ¬ ActLoses w a ∧ ¬ ActLeaks w a

/-- A new file is created and written. -/
theorem Inv.spare_file_steps {w : World} {buf n src : List UInt8} (hI : Inv tight w.sys w.others)
    (hn : Holds buf n) (hne : n ≠ []) (hlen : n.length < fsMaxFilename)
    (hslot : slotOf w.sys n = none) (hfree : ∃ j, (w.sys.fileTable j).used = false)
    (hpos : 0 < src.length) (hle : src.length ≤ fsMaxFilesize)
    (hk : src.length + overhead + k ≤ heapSize)
    (hs : Spare w.sys.heap (src.length + overhead + k)) :
    ∃ i s', Run TidyStep w [.fs false (.create (some buf)) (.ofCode 0),
        .fs false (.write (some i) (some src) src.length) (.ofCode src.length)] ⟨s', w.others⟩ ∧
      Inv tight s' w.others ∧ EntryAt s' i n src ∧ (w.sys.fileTable i).used = false ∧
      Frame w.sys s' i ∧ Spare s'.heap k := by
  obtain ⟨i, f, hcreate, hI₁, _, _, he₁, hunused, hframe₁⟩ :=
    hI.new_step hn hne hlen hslot hfree (.inl ⟨rfl, rfl⟩)
  obtain ⟨s', hwrite, hsafe, hI', hstored, hspare⟩ :=
    Inv.spare_write_step (w := ⟨_, _⟩) hI₁ he₁.used hpos hle hk hs
  refine ⟨i, s', .cons ⟨⟨_, _, _, rfl⟩, hcreate, id, id⟩
    (.single ⟨⟨_, _, _, rfl⟩, hwrite, hsafe, id⟩), hI', he₁.stored hstored, hunused,
    hframe₁.trans hstored.frame, hspare⟩

/-- **A file** in a heap of its own, with most of the heap to spare. -/
theorem exists_file {src : List UInt8} (hne : src ≠ []) (hle : src.length ≤ fsMaxFilesize) :
    ∃ w i, Run WorldStep (bootWorld (Clients.init fun _ ↦ 0))
        [.fs false (.create (some [0x61, 0])) (.ofCode 0),
          .fs false (.write (some i) (some src) src.length) (.ofCode src.length)] w ∧
      slotOf w.sys [0x61] = some i ∧ w.sys.contents i = some src ∧
      Spare w.sys.heap (heapSize - (src.length + overhead)) := by
  have hb := booted_bootWorld (w := Clients.init fun _ ↦ 0) ⟨_, [], .nil _⟩
  have hI : Inv True _ _ := hb.inv.1
  have hn : Holds [0x61, 0] [0x61] := ⟨by decide, [], rfl⟩
  have hheap : fsMaxFilesize + overhead ≤ heapSize := by decide
  have hcost : src.length + overhead + (heapSize - (src.length + overhead)) = heapSize := by omega
  obtain ⟨i, s', hrun, hI', he, _, _, hspare⟩ :=
    hI.spare_file_steps hn (by decide) (by decide) (hb.slotOf_eq _) ⟨⟨0, by decide⟩, hb.unused _⟩
      (List.length_pos_of_ne_nil hne) hle (Nat.le_of_eq hcost) (by rw [hcost]; exact spare_init _)
  exact ⟨⟨s', _⟩, i, hrun.mono fun h ↦ h.2.1, he.slotOf_eq hI', he.contents, hspare⟩

/-- **Two files** in a heap of their own: both are created and written, and the first is appended
to. -/
theorem exists_two_files : ∃ w i j, i ≠ j ∧ Run TidyStep (bootWorld (Clients.init fun _ ↦ 0))
      [.fs false (.create (some [0x61, 0])) (.ofCode 0),
        .fs false (.write (some i) (some [1, 2, 3]) 3) (.ofCode 3),
        .fs false (.create (some [0x62, 0])) (.ofCode 0),
        .fs false (.write (some j) (some [4]) 1) (.ofCode 1),
        .fs false (.append (some i) (some [5, 6]) 2) (.ofCode 2)] w ∧
    w.others = (fun _ ↦ none) ∧ Inv True w.sys w.others ∧
    EntryAt w.sys i [0x61] [1, 2, 3, 5, 6] ∧ EntryAt w.sys j [0x62] [4] ∧
    ∀ k, (w.sys.fileTable k).used = true → k = i ∨ k = j := by
  have hb := booted_bootWorld (w := Clients.init fun _ ↦ 0) ⟨_, [], .nil _⟩
  have hI₀ : Inv True _ _ := hb.inv.1
  have hn : Holds [0x61, 0] [0x61] := ⟨by decide, [], rfl⟩
  have hm : Holds [0x62, 0] [0x62] := ⟨by decide, [], rfl⟩
  obtain ⟨i, s₁, hrun₁, hI₁, he₁, _, hframe₁, hs₁⟩ :=
    hI₀.spare_file_steps (k := 1000) hn (by decide) (by decide) (hb.slotOf_eq _)
      ⟨⟨0, by decide⟩, hb.unused _⟩ (by decide : 0 < ([1, 2, 3] : List UInt8).length) (by decide)
      (by decide) ((spare_init _).mono (by decide))
  have hused₁ : ∀ k, (s₁.fileTable k).used = true → k = i := by
    intro k hk
    by_contra hne
    rw [hframe₁.file k hne, hb.unused k] at hk
    cases hk
  have hslot₁ : slotOf s₁ [0x62] = none := by
    refine TableOk.slotOf_eq_none_iff.mpr fun k hk ↦ ?_
    rw [hused₁ k hk, he₁.name]
    decide
  have hfree₁ : ∃ k, (s₁.fileTable k).used = false := by
    by_contra hall
    push Not at hall
    have h₀ := hused₁ ⟨0, by decide⟩ (Bool.eq_true_of_not_eq_false (hall _))
    have h₁ := hused₁ ⟨1, by decide⟩ (Bool.eq_true_of_not_eq_false (hall _))
    cases h₀.trans h₁.symm
  obtain ⟨j, s₂, hrun₂, hI₂, he₂, hunused, hframe₂, hs₂⟩ :=
    Inv.spare_file_steps (w := ⟨s₁, _⟩) (k := 500) hI₁ hm (by decide) (by decide) hslot₁ hfree₁
      (by decide : 0 < ([4] : List UInt8).length) (by decide) (by decide) (hs₁.mono (by decide))
  have hij : i ≠ j := by
    rintro rfl
    cases hunused.symm.trans he₁.used
  have he₁' := he₁.frame hframe₂ hij
  obtain ⟨s₃, happend, hI₃, hstored⟩ :=
    Inv.spare_append_step (w := ⟨s₂, _⟩) hI₂ he₁' (by decide : 0 < ([5, 6] : List UInt8).length)
      (by decide) (hs₂.mono (by decide))
  refine ⟨⟨s₃, _⟩, i, j, hij, (hrun₁.append hrun₂).snoc ⟨⟨_, _, _, rfl⟩, happend, id, id⟩, rfl, hI₃,
    he₁'.stored hstored, he₂.frame hstored.frame hij.symm, fun k hk ↦ ?_⟩
  by_contra hne
  obtain ⟨hki, hkj⟩ := not_or.mp hne
  rw [hstored.frame.file k hki, hframe₂.file k hkj] at hk
  exact hki (hused₁ k hk)

end KontolOS.Fs
