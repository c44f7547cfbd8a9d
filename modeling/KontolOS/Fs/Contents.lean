import KontolOS.Fs.Operations

/-!
# Reading and writing contents

The lemmas about `fs_write`, `fs_append` and `fs_read`, and about `fs_chdir`.  The two that
store data say exactly when they run out of memory, in terms of the heap before the call:
`fs_write` frees the old block first, so that its bytes count as room, and has lost the
contents when it fails; `fs_append` fails without a trace.
-/

namespace KontolOS.Fs

open KontolOS.Lib KontolOS.Memory KontolOS.Strings Function

variable {tight : Prop} {s : Sys} {others : Live} {i : Slot} {size : Nat}

/-! ## Writing -/

/-- **`fs_write`** to an entry. -/
theorem fsWrite_spec (fails : Bool) {src : List UInt8} (hI : Inv tight s others)
    (hu : (s.fileTable i).used = true) (hsrc : size ≤ src.length) :
    (fsMaxFilesize < size ∧ fsWrite (allocator fails) s (some i) (some src) size = some (-2, s)) ∨
    (size ≤ fsMaxFilesize ∧ ∃ s', Inv tight s' others ∧
      ((size = 0 ∨ fails = false ∧ Room s.heap (s.fileTable i).data (totalSize size)) ∧
          fsWrite (allocator fails) s (some i) (some src) size = some ((size : Int), s') ∧
          Stored s s' i (src.take size) ∨
        (0 < size ∧ (fails = true ∨ ¬ Room s.heap (s.fileTable i).data (totalSize size))) ∧
          fsWrite (allocator fails) s (some i) (some src) size = some (-3, s') ∧
          Frame s s' i ∧ s'.fileTable i = { s.fileTable i with data := null } ∧
          ((s.fileTable i).data = null → s' = s))) := by
  by_cases hbig : fsMaxFilesize < size
  · exact .inl ⟨hbig, by simp [fsWrite, hbig]⟩
  have hle := Nat.not_lt.mp hbig
  have hmax : size ≤ maxRequest := Nat.le_trans hle (by decide)
  have hint : toInt size = size := toInt_of_lt (Nat.lt_of_le_of_lt hle (by decide))
  refine .inr ⟨hle, ?_⟩
  rcases Nat.eq_zero_or_pos size with rfl | hpos
  · obtain ⟨s', ⟨heap, hfree, rfl⟩, hI', hstored⟩ := hI.empty hu
    refine ⟨_, hI', .inl ⟨.inl rfl, ?_, hstored⟩⟩
    simp [fsWrite, hfree, hint]
  have hne : size ≠ 0 := Nat.ne_of_gt hpos
  obtain ⟨live, bs, hs, hno⟩ := hI.heap
  obtain ⟨h₁, bs₁, hfree, hw₁, hroom⟩ := freeData_spec hs.owned hs.data_isSome
  rw [← hroom]
  rcases allocator_spec fails hw₁ hpos hmax with
    ⟨hk, hwhy⟩ | ⟨hf, hroom₁, ptr, h₂, bs₂, hk, hptr, hnone, hw₂⟩
  · -- no memory: the old block is gone, the size stays
    obtain ⟨heap, hfree', hI', hframe⟩ := hI.giveUp
      (i := i) (f := { s.fileTable i with data := null })
      (fun _ ↦ hI.table.setData hu (hI.table.file i).size_le fun h ↦ absurd rfl h) rfl
    obtain rfl : heap = h₁ := Option.some.inj (hfree'.symm.trans hfree)
    refine ⟨_, hI', .inr ⟨⟨hpos, hwhy⟩, ?_, hframe, TableOk.setFile_same, fun hd ↦ ?_⟩⟩
    · simp [fsWrite, hbig, hfree, hne, hk]
    · rw [hd, freeData, if_pos rfl] at hfree
      cases hfree
      have hf : { s.fileTable i with data := null } = s.fileTable i := by rw [← hd]
      rw [hf, Sys.setFile, update_eq_self]
  · have hlen : (src.take size).length = size := List.length_take_of_le hsrc
    have hw₃ := hw₂.overwrite_all (update_self _ _ _) (m := h₂.mem.write ptr (src.take size))
      fun x hx ↦ Mem.write_off (by rw [hlen]; exact hx)
    rw [update_idem] at hw₃
    have hfresh : live ptr = none ∨ ptr = (s.fileTable i).data := by
      by_cases hp : ptr = (s.fileTable i).data
      · exact .inr hp
      · rw [update_of_ne hp] at hnone
        exact .inl hnone
    obtain ⟨hI', hstored⟩ := hI.putBlock (c := src.take size) hs hno hw₃ hu hptr
      (by rw [hlen]; exact hle) (by rw [hlen]; exact hpos) (fun q hq ↦ update_of_ne hq _ _)
      hfresh ⟨_, update_self _ _ _, hlen.symm, fun _ _ ↦ rfl⟩ (Mem.bytes_write_same _ _ _)
    rw [hlen] at hI' hstored
    refine ⟨_, hI', .inl ⟨.inr ⟨hf, hroom₁⟩, ?_, hstored⟩⟩
    simp [fsWrite, hbig, hfree, hne, hk, hptr, copyIn_eq hsrc, hint]

/-! ## Appending -/

/-- The copy of the old contents to the front of the new block. -/
private theorem copyOld_spec {h : Heap} {live : Live} {bs : List Block} {ptr p k : Nat} {o : Obj}
    (hw : Owned h live bs) (hptr : live ptr = some o) (hk : k ≤ o.req) (hne : ptr ≠ p)
    (hp : p ≠ null → Filled live p k) {m : Mem}
    (hm : m = if p ≠ null ∧ 0 < k then memcpy h.mem ptr p k else h.mem) :
    (∀ x, x < ptr ∨ ptr + o.req ≤ x → m x = h.mem x) ∧
      (p ≠ null → m.bytes ptr k = h.mem.bytes p k) := by
  by_cases hc : p ≠ null ∧ 0 < k
  · obtain ⟨o', ho', hreq, _⟩ := hp hc.1
    have hdisj : ptr + k ≤ p ∨ p + k ≤ ptr := by
      rcases hw.apart hptr ho' hne with h | h
      · exact .inl (Nat.le_trans (Nat.add_le_add_left hk _) h)
      · exact .inr (by rw [← hreq]; exact h)
    rw [if_pos hc, memcpy_eq_write hdisj] at hm
    subst hm
    refine ⟨fun x hx ↦ Mem.write_off ?_, fun _ ↦ ?_⟩
    · rw [Mem.length_bytes]
      omega
    · have := Mem.bytes_write_same h.mem ptr (h.mem.bytes p k)
      rwa [Mem.length_bytes] at this
  · rw [if_neg hc] at hm
    subst hm
    refine ⟨fun _ _ ↦ rfl, fun hpn ↦ ?_⟩
    have hk0 : k = 0 := by
      by_contra hk0
      exact hc ⟨hpn, Nat.pos_of_ne_zero hk0⟩
    subst hk0
    rfl

/-- **A block that was filled beside the old one takes its place**, and the old one is freed. -/
private theorem Inv.moveBlock {live : Live} {bs bs₁ : List Block} {h₁ : Heap} {m : Mem}
    {ptr n : Nat} (hI : Inv tight s others) (hs : Held s others live bs)
    (hno : tight → NoLeak s others live) (hu : (s.fileTable i).used = true) (hptr : ptr ≠ null)
    (hnone : live ptr = none) (hw₁ : Owned h₁ (update live ptr (some (Obj.fresh n))) bs₁)
    (hpos : 0 < n) (hle : n ≤ fsMaxFilesize) (hoff : ∀ x, x < ptr ∨ ptr + n ≤ x → m x = h₁.mem x) :
    ∃ heap, freeData { h₁ with mem := m } (s.fileTable i).data = some heap ∧
      Inv tight ({ s with heap }.setFile i
        { s.fileTable i with data := ptr, size := n }) others ∧
      Stored s ({ s with heap }.setFile i
        { s.fileTable i with data := ptr, size := n }) i (m.bytes ptr n) := by
  have hne : ptr ≠ (s.fileTable i).data := by
    rintro rfl
    have hold := hs.data_isSome hptr
    rw [hnone] at hold
    cases hold
  have hw₂ := hw₁.overwrite_all (update_self ptr (some (Obj.fresh n)) live) (m := m) hoff
  rw [update_idem] at hw₂
  -- the new block is filled, and stays so when the old one is freed
  obtain ⟨heap, bs₃, hfree, hw₃, _⟩ := freeData_spec (p := (s.fileTable i).data) hw₂ fun hd ↦ by
    rw [update_of_ne hne.symm]
    exact hs.data_isSome hd
  have hnew : update live ptr (some ⟨n, fun j ↦ some (m (ptr + j))⟩) ptr = _ := update_self _ _ _
  have hbytes := bytes_eq_of_filled hw₂ hw₃ ⟨_, hnew, rfl, fun _ _ ↦ rfl⟩ fun o ho ↦ by
    rw [update_of_ne hne]
    exact ho
  have hlen : (m.bytes ptr n).length = n := Mem.length_bytes m ptr n
  have hput := hI.putBlock (i := i) (c := m.bytes ptr n) hs hno hw₃ hu hptr
    (by rw [hlen]; exact hle) (by rw [hlen]; exact hpos)
    (fun q hq ↦ by rw [update_comm hne, update_of_ne hq]) (.inl hnone)
    ⟨_, by rw [update_of_ne hne]; exact hnew, hlen.symm, fun _ _ ↦ rfl⟩ (by rw [hlen]; exact hbytes)
  rw [hlen] at hput
  exact ⟨heap, hfree, hput⟩

/-- **`fs_append`** to an entry, when the sum of the sizes does not wrap around. -/
theorem fsAppend_spec (fails : Bool) {src : List UInt8} (hI : Inv tight s others)
    (hu : (s.fileTable i).used = true) (hsrc : size ≤ src.length)
    (hsum : (s.fileTable i).size + size < 2 ^ 32) :
    (size = 0 ∧ fsAppend (allocator fails) s (some i) (some src) size = some (-1, s)) ∨
    (0 < size ∧ fsMaxFilesize < (s.fileTable i).size + size ∧
      fsAppend (allocator fails) s (some i) (some src) size = some (-2, s)) ∨
    (0 < size ∧ (s.fileTable i).size + size ≤ fsMaxFilesize ∧
      ((fails = true ∨ ¬ Room s.heap null (totalSize ((s.fileTable i).size + size))) ∧
          fsAppend (allocator fails) s (some i) (some src) size = some (-3, s) ∨
        ∃ s' c, fsAppend (allocator fails) s (some i) (some src) size = some ((size : Int), s') ∧
          Inv tight s' others ∧ Stored s s' i c ∧ c.length = (s.fileTable i).size + size ∧
          ∀ old, s.contents i = some old → c = old ++ src.take size)) := by
  rcases Nat.eq_zero_or_pos size with rfl | hpos
  · exact .inl ⟨rfl, by simp [fsAppend]⟩
  have hne : size ≠ 0 := Nat.ne_of_gt hpos
  have hadd : add32 (s.fileTable i).size size = (s.fileTable i).size + size := add32_of_lt hsum
  refine .inr ?_
  by_cases hbig : fsMaxFilesize < (s.fileTable i).size + size
  · exact .inl ⟨hpos, hbig, by simp [fsAppend, hne, hadd, hbig]⟩
  have hle := Nat.not_lt.mp hbig
  have hint : toInt size = size :=
    toInt_of_lt (Nat.lt_of_le_of_lt (Nat.le_trans (Nat.le_add_left _ _) hle) (by decide))
  refine .inr ⟨hpos, hle, ?_⟩
  obtain ⟨live, bs, hs, hno⟩ := hI.heap
  rcases allocator_spec fails hs.owned (Nat.add_pos_right _ hpos) (Nat.le_trans hle (by decide))
    with ⟨hk, hwhy⟩ | ⟨_, _, ptr, h₁, bs₁, hk, hptr, hnone, hw₁⟩
  · exact .inl ⟨hwhy, by simp [fsAppend, hne, hadd, hbig, hk]⟩
  refine .inr ?_
  have hfilled : (s.fileTable i).data ≠ null →
      Filled live (s.fileTable i).data (s.fileTable i).size := fun hd ↦ (hs.data i hd).2
  have hne_old : ptr ≠ (s.fileTable i).data := by
    rintro rfl
    obtain ⟨o, ho, _⟩ := hfilled hptr
    rw [ho] at hnone
    cases hnone
  have hkeep (o : Obj) (ho : live (s.fileTable i).data = some o) :
      update live ptr (some (Obj.fresh ((s.fileTable i).size + size))) (s.fileTable i).data =
        some o := by
    rw [update_of_ne hne_old.symm, ho]
  obtain ⟨hoff, hold⟩ := copyOld_spec hw₁ (update_self _ _ _)
    (Nat.le_add_right (s.fileTable i).size size) hne_old
    (fun hd ↦ (hfilled hd).imp fun o ho ↦ ⟨hkeep o ho.1, ho.2⟩) rfl
  have hlen : (src.take size).length = size := List.length_take_of_le hsrc
  generalize hm : (if (s.fileTable i).data ≠ null ∧ 0 < (s.fileTable i).size then
    memcpy h₁.mem ptr (s.fileTable i).data (s.fileTable i).size else h₁.mem) = m at hoff hold
  obtain ⟨heap, hfree, hI', hstored⟩ := hI.moveBlock (i := i)
    (m := m.write (ptr + (s.fileTable i).size) (src.take size)) hs hno hu hptr hnone hw₁
    (Nat.add_pos_right _ hpos) hle fun x hx ↦ by
      rw [Mem.write_off (by rw [hlen]; omega)]
      exact hoff x hx
  -- the old contents, and the new data behind them
  have hbytes := Mem.bytes_write_behind m ptr (s.fileTable i).size (src.take size)
  rw [hlen] at hbytes
  rw [hbytes] at hstored
  refine ⟨_, _, ?_, hI', hstored, ?_, fun old hcontents ↦ ?_⟩
  · simp [fsAppend, hne, hadd, hbig, hk, hptr, hm, copyIn_eq hsrc, hfree, hint]
  · rw [List.length_append, Mem.length_bytes, hlen]
  · rw [List.append_left_inj]
    rcases contents_eq_some hcontents with ⟨hzero, rfl⟩ | ⟨_, hd, rfl⟩
    · rw [hzero]
      rfl
    · rw [hold hd]
      exact bytes_eq_of_filled hs.owned hw₁ (hfilled hd) hkeep

/-- The sum of the sizes, where it wraps around. -/
theorem Inv.add32_wraps (hI : Inv tight s others) (hlt : size < 2 ^ 32)
    (hwrap : 2 ^ 32 ≤ (s.fileTable i).size + size) :
    add32 (s.fileTable i).size size = (s.fileTable i).size + size - 2 ^ 32 ∧
      (s.fileTable i).size + size - 2 ^ 32 < (s.fileTable i).size ∧ 2 ^ 31 ≤ size := by
  have hsize := (hI.table.file i).size_le
  unfold fsMaxFilesize at hsize
  unfold add32
  omega

/-- Data that would not be too large for a file does not overrun the heap. -/
theorem Inv.not_overruns {fails : Bool} {file : Option Slot} {data : Option (List UInt8)}
    (hI : Inv tight s others) (hle : size ≤ fsMaxFilesize) :
    ¬ Overruns fails s (.append file data size) := by
  rcases file, data with ⟨_ | i, _ | src⟩
  · exact id
  · exact id
  · exact id
  · rintro ⟨_, hwrap, _⟩
    obtain ⟨_, _, hbig⟩ :=
      hI.add32_wraps (Nat.lt_of_le_of_lt hle (by decide)) (Nat.le_of_lt hwrap)
    exact absurd hle (Nat.not_le.mpr (Nat.lt_of_lt_of_le (by decide) hbig))

/-- An append that gets no memory is refused. -/
theorem fsAppend_outOfMemory {malloc : Allocator} (src : List UInt8) (hpos : 0 < size)
    (hle : add32 (s.fileTable i).size size ≤ fsMaxFilesize)
    (hk : malloc s.heap (add32 (s.fileTable i).size size) = some (null, s.heap)) :
    fsAppend malloc s (some i) (some src) size = some (-3, s) := by
  simp only [fsAppend, Nat.ne_of_gt hpos, Nat.not_lt.mpr hle, hk, if_false, Option.bind_eq_bind,
    Option.bind_some, if_true]
  rfl

/-- **`fs_append`, when the sum of the sizes wraps around** and it does not overrun the heap: there
is no block for what is left of the sum. -/
theorem Inv.refuses_wrapped {fails : Bool} {src : List UInt8} (hI : Inv tight s others)
    (hlt : size < 2 ^ 32) (hwrap : 2 ^ 32 ≤ (s.fileTable i).size + size)
    (hover : ¬ Overruns fails s (.append (some i) (some src) size)) :
    0 < size ∧ add32 (s.fileTable i).size size ≤ fsMaxFilesize ∧
      allocator fails s.heap (add32 (s.fileTable i).size size) = some (null, s.heap) := by
  obtain ⟨hadd, hless, hbig⟩ := hI.add32_wraps hlt hwrap
  have hle : (s.fileTable i).size + size - 2 ^ 32 ≤ fsMaxFilesize :=
    Nat.le_trans (Nat.le_of_lt hless) (hI.table.file i).size_le
  rw [hadd]
  refine ⟨Nat.lt_of_lt_of_le (by decide) hbig, hle, ?_⟩
  cases fails with
  | true => rfl
  | false =>
      rcases Nat.eq_or_lt_of_le hwrap with heq | hgt
      · rw [← heq, Nat.sub_self]
        rfl
      · obtain ⟨live, bs, hs, _⟩ := hI.heap
        rw [allocator, if_neg Bool.false_ne_true]
        exact (hs.owned.kmalloc_eq_null_iff (Nat.sub_pos_of_lt hgt)
          (Nat.le_trans hle (by decide))).mpr fun hroom ↦ hover ⟨rfl, hgt, hroom⟩

/-- **`fs_append` that does not overrun the heap** stores the data, or changes nothing. -/
theorem fsAppend_cases (fails : Bool) {src : List UInt8} (hI : Inv tight s others)
    (hu : (s.fileTable i).used = true) (hlt : size < 2 ^ 32) (hsrc : size ≤ src.length)
    (hover : ¬ Overruns fails s (.append (some i) (some src) size)) :
    (∃ code, fsAppend (allocator fails) s (some i) (some src) size = some (code, s)) ∨
      ∃ s' c, fsAppend (allocator fails) s (some i) (some src) size = some ((size : Int), s') ∧
        Inv tight s' others ∧ Stored s s' i c := by
  rcases Nat.lt_or_ge ((s.fileTable i).size + size) (2 ^ 32) with hsum | hwrap
  · rcases fsAppend_spec fails hI hu hsrc hsum with
      ⟨_, h⟩ | ⟨_, _, h⟩ | ⟨_, _, ⟨_, h⟩ | ⟨s', c, h, hI', hstored, _⟩⟩
    · exact .inl ⟨_, h⟩
    · exact .inl ⟨_, h⟩
    · exact .inl ⟨_, h⟩
    · exact .inr ⟨s', c, h, hI', hstored⟩
  · obtain ⟨hpos, hle, hk⟩ := hI.refuses_wrapped hlt hwrap hover
    exact .inl ⟨-3, fsAppend_outOfMemory src hpos hle hk⟩

/-! ## Reading -/

/-- **`fs_read`** of an entry whose contents are `c` copies the slice of `c` at `offset` to the
front of the buffer. -/
theorem fsRead_spec {dest c : List UInt8} {offset : Nat} (hI : Inv tight s others)
    (hc : s.contents i = some c) (hdest : size ≤ dest.length) :
    fsRead s (some i) (some dest) size offset = some (((min size (c.length - offset) : Nat) : Int),
      some ((c.drop offset).take size ++ dest.drop (min size (c.length - offset)))) := by
  have hsize := (hI.table.file i).size_le
  have hlen := length_of_contents hc
  by_cases hend : (s.fileTable i).size ≤ offset
  · have hnil : c.drop offset = [] := List.drop_eq_nil_of_le (by rw [hlen]; exact hend)
    have hzero : min size (c.length - offset) = 0 := by
      rw [hlen, Nat.sub_eq_zero_of_le hend, Nat.min_zero]
    rw [hnil, hzero]
    simp [fsRead, hend]
  · have hlt := Nat.not_le.mp hend
    unfold fsMaxFilesize at hsize
    have havail : sub32 (s.fileTable i).size offset = (s.fileTable i).size - offset :=
      sub32_of_le (Nat.le_of_lt hlt) (by omega)
    have hread : (if size < (s.fileTable i).size - offset then size
        else (s.fileTable i).size - offset) = min size (c.length - offset) := by
      rw [hlen]
      split <;> omega
    have hint : toInt (min size (c.length - offset)) = (min size (c.length - offset) : Nat) :=
      toInt_of_lt (by omega)
    have hsize0 : (s.fileTable i).size ≠ 0 := by omega
    obtain ⟨_, hd, hbytes⟩ := (contents_eq_some hc).resolve_left fun h ↦ hsize0 h.1
    have hmin : min size (c.length - offset) ≤ dest.length :=
      Nat.le_trans (Nat.min_le_left _ _) hdest
    have hslice : s.heap.mem.bytes ((s.fileTable i).data + offset)
        (min size (c.length - offset)) = (c.drop offset).take size := by
      rw [hlen, Mem.bytes_slice, ← hbytes]
    simp only [fsRead, if_neg hend, havail, hread, if_neg hd, copyOut_eq hmin, hint, hslice]
    rfl

/-- `fs_read` always returns, if need be without copying anything. -/
theorem fsRead_returns (hI : Inv tight s others) (file : Option Slot)
    {buffer : Option (List UInt8)} (offset : Nat)
    (hdest : ∀ dest, buffer = some dest → size ≤ dest.length) :
    ∃ r, fsRead s file buffer size offset = some r := by
  cases file with
  | none => exact ⟨_, rfl⟩
  | some i =>
      cases buffer with
      | none => exact ⟨_, rfl⟩
      | some dest =>
          cases hc : s.contents i with
          | some c => exact ⟨_, fsRead_spec hI hc (hdest dest rfl)⟩
          | none =>
              obtain ⟨_, hd⟩ := contents_eq_none_iff.mp hc
              by_cases hend : (s.fileTable i).size ≤ offset
              · exact ⟨(0, some dest), by simp [fsRead, hend]⟩
              · exact ⟨_, by simp only [fsRead, if_neg hend, if_pos hd]; rfl⟩

/-! ## The current directory -/

theorem rootName_holds : Holds rootName [0x2F] := ⟨by decide, [], rfl⟩

theorem parentName_holds : Holds parentName [0x2E, 0x2E] := ⟨by decide, [], rfl⟩

/-- The code of `fs_chdir` on the string `n`. -/
def chdirCode (s : Sys) (n : List UInt8) : Int :=
  if n = [0x2F] ∨ n = [0x2E, 0x2E] then 0
  else match slotOf s n with
    | none => -1
    | some i => if (s.fileTable i).directory then 0 else -2

/-- The current directory after `fs_chdir` on the string `n`. -/
def chdirDir (s : Sys) (n : List UInt8) : List UInt8 :=
  if n = [0x2F] ∨ n = [0x2E, 0x2E] then [0x2F]
  else if chdirCode s n = 0 then n
  else cstr s.currentDir

/-- **`fs_chdir`** touches the current directory only, and only if it succeeds. -/
theorem fsChdir_spec {name : Option (List UInt8)} (hI : Inv tight s others)
    (hname : ∀ buf, name = some buf → ∃ n, Holds buf n) :
    ∃ code s', fsChdir s name = some (code, s') ∧ Inv tight s' others ∧
      (∃ dir, s' = { s with currentDir := dir } ∧
        Holds dir (name.elim (cstr s.currentDir) fun buf ↦ chdirDir s (cstr buf))) ∧
      (code < 0 → s' = s) ∧ code = name.elim (-1) fun buf ↦ chdirCode s (cstr buf) := by
  -- a new current directory breaks nothing
  have hset : ∀ dir : List UInt8, dir.length = fsMaxFilename → (∃ n, Holds dir n) →
      Inv tight { s with currentDir := dir } others := by
    intro dir hlen hdir
    obtain ⟨live, bs, hs, hno⟩ := hI.heap
    exact ⟨⟨hI.table.file, hI.table.names_inj, hlen, hdir⟩, live, bs,
      ⟨hs.owned, hs.others_le, hs.data, hs.apart⟩, hno⟩
  have hnonneg : ∀ {s' : Sys}, (0 : Int) < 0 → s' = s := fun h ↦ absurd h (Int.lt_irrefl 0)
  obtain ⟨hlen, cwd, hcwd⟩ := hI.table.cwd
  rw [← hcwd.cstr_eq] at hcwd
  cases name with
  | none => exact ⟨-1, s, rfl, hI, ⟨s.currentDir, rfl, hcwd⟩, fun _ ↦ rfl, rfl⟩
  | some buf =>
      obtain ⟨n, hn⟩ := hname buf rfl
      rw [Option.elim_some, Option.elim_some, hn.cstr_eq, chdirDir, chdirCode]
      obtain ⟨r, hr, hiff⟩ := hn.strcmp_eq rootName_holds
      obtain ⟨r', hr', hiff'⟩ := hn.strcmp_eq parentName_holds
      have hfit : [(0x2F : UInt8)].length < s.currentDir.length := by rw [hlen]; decide
      have hroot := rootName_holds.strcpy_eq hfit
      have hdirn : Holds ([0x2F] ++ 0 :: s.currentDir.drop 2) [0x2F] := ⟨by decide, _, rfl⟩
      have hinv := hset ([0x2F] ++ 0 :: s.currentDir.drop 2)
        (by simp [hlen, fsMaxFilename]) ⟨[0x2F], hdirn⟩
      by_cases hr0 : r = 0
      · rw [if_pos (.inl (hiff.mp hr0)), if_pos (.inl (hiff.mp hr0))]
        exact ⟨0, _, by simp [fsChdir, hr, hr0, hroot], hinv, ⟨_, rfl, hdirn⟩, hnonneg, rfl⟩
      by_cases hr0' : r' = 0
      · rw [if_pos (.inr (hiff'.mp hr0')), if_pos (.inr (hiff'.mp hr0'))]
        exact ⟨0, _, by simp [fsChdir, hr, hr', hr0', hroot], hinv, ⟨_, rfl, hdirn⟩, hnonneg,
          rfl⟩
      have hplain : ¬ (n = [0x2F] ∨ n = [0x2E, 0x2E]) :=
        not_or.mpr ⟨mt hiff.mpr hr0, mt hiff'.mpr hr0'⟩
      rw [if_neg hplain, if_neg hplain]
      have hfind := hI.table.fsFind_eq hn
      cases hslot : slotOf s n with
      | none =>
          refine ⟨-1, s, ?_, hI, ⟨s.currentDir, rfl, hcwd⟩, fun _ ↦ rfl, rfl⟩
          simp [fsChdir, hr, hr', hr0, hr0', hfind, hslot]
      | some i =>
          cases hdir : (s.fileTable i).directory with
          | false =>
              refine ⟨-2, s, ?_, hI, ⟨s.currentDir, rfl, by simp [hdir, hcwd]⟩, fun _ ↦ rfl,
                by simp [hdir]⟩
              simp [fsChdir, hr, hr', hr0, hr0', hfind, hslot, hdir]
          | true =>
              -- the name is that of an entry, and so not too long
              obtain ⟨hu, hname⟩ := hI.table.slotOf_eq_some_iff.mp hslot
              have hshort := ((hI.table.file i).named hu).1.length_lt
              rw [hname, (hI.table.file i).length] at hshort
              obtain ⟨dir, hcopy, hdirn, hdlen⟩ := strncpy_name hn hshort hlen
              refine ⟨0, _, ?_, hset (dir.set (fsMaxFilename - 1) 0) (by simp [hdlen]) ⟨n, hdirn⟩,
                ⟨_, rfl, by simp [hdir, hdirn]⟩, hnonneg, by simp [hdir]⟩
              simp [fsChdir, hr, hr', hr0, hr0', hfind, hslot, hdir, hcopy]

end KontolOS.Fs
