import KontolOS.Memory.Spare
import KontolOS.Shell.NanoBlocks

/-!
# Opening a file in the editor

Opening parses the file into lines.  This does not write outside a buffer, whatever the file
contains and whichever of the allocations after those of the lines fail.  The filesystem keeps
its invariant, and the other clients of the heap what they hold.
-/

namespace KontolOS.Shell

open KontolOS.Lib KontolOS.Memory KontolOS.Strings KontolOS.Fs Function

variable {tight : Prop} {s s' : Sys} {others : Live} {ls : Lines} {str : Nat → List UInt8}
  {filename n : List UInt8}

/-! ## Parsing -/

/-- The end of the first line in a buffer that holds a string. -/
theorem lineEnd_eq {p t u : List UInt8} (hp : Holds p (t ++ u)) (ht : 0x0A ∉ t)
    (hu : ∀ c, u.head? = some c → c = 0x0A) : lineEnd p = some t.length := by
  induction t generalizing p with
  | nil =>
      rw [List.nil_append] at hp
      cases u with
      | nil =>
          obtain ⟨rest, rfl⟩ := Holds.nil_iff.mp hp
          exact if_neg fun h ↦ h.1 rfl
      | cons d u =>
          obtain ⟨_, b, rfl, _⟩ := Holds.cons_iff.mp hp
          exact if_neg fun h ↦ h.2 (hu d rfl)
  | cons c t ih =>
      obtain ⟨hc, b, rfl, hb⟩ := Holds.cons_iff.mp hp
      rw [List.mem_cons, not_or] at ht
      rw [lineEnd, if_pos ⟨hc, Ne.symm ht.1⟩, ih hb ht.2]
      rfl

/-- The part of a line that fits is copied to a buffer, and terminated. -/
theorem copyPrefix_eq {p n buf : List UInt8} {len : Nat} (hp : Holds p n) (hn : len ≤ n.length)
    (hlen : len < buf.length) :
    ∃ b, (strncpy buf p len).bind (store · len 0) = some b ∧ b.length = buf.length ∧
      Holds b (n.take len) := by
  have hcopy := hp.strncpy_eq_take hn (Nat.le_of_lt hlen)
  have htake : (n.take len).length = len := List.length_take_of_le hn
  have hlen' : (n.take len ++ buf.drop len).length = buf.length := by
    rw [List.length_append, htake, List.length_drop]
    omega
  refine ⟨(n.take len ++ buf.drop len).set len 0, ?_, by rw [List.length_set, hlen'], ?_⟩
  · rw [hcopy, Option.bind_some, store_eq (by rw [hlen']; exact hlen)]
  · have hsplit : buf.drop len = buf[len] :: buf.drop (len + 1) := List.drop_eq_getElem_cons hlen
    refine ⟨fun h ↦ hp.1 (List.mem_of_mem_take h), buf.drop (len + 1), ?_⟩
    rw [List.set_append_right _ _ (Nat.le_of_eq htake), htake, Nat.sub_self, hsplit]
    rfl

/-- What the editor keeps of a text: the first lines, and the first characters of each. -/
def loaded (text : List UInt8) : List (List UInt8) :=
  clipLines nanoWidth nanoMaxLines (splitLines 0x0A text)

/-- What is left of a line after clipping. -/
theorem take_clipped (t u : List UInt8) :
    (t ++ u).take (if nanoLineLen ≤ t.length then nanoLineLen - 1 else t.length) =
      t.take nanoWidth := by
  by_cases hlong : nanoLineLen ≤ t.length
  · rw [if_pos hlong]
    exact List.take_append_of_le_length (Nat.le_trans (Nat.sub_le _ _) hlong)
  · have hshort : t.length ≤ nanoWidth := Nat.le_sub_one_of_lt (Nat.not_le.mp hlong)
    rw [if_neg hlong, List.take_left, List.take_of_length_le hshort]

/-- **One round of the loop** that parses the file: it copies the first line, and moves on. -/
theorem LinesHold.nanoLoad_step (hs : LinesHold ls str) {p t u : List UInt8} {k n : Nat}
    (hp : Holds p (t ++ u)) (hne : t ++ u ≠ []) (ht : 0x0A ∉ t)
    (hu : ∀ c, u.head? = some c → c = 0x0A) (hk : k < nanoMaxLines) :
    ∃ ls₁ p₁, nanoLoad ls k p (n + 1) = nanoLoad ls₁ (k + 1 : Nat) p₁ n ∧
      LinesHold ls₁ (update str k (t.take nanoWidth)) ∧ Holds p₁ u.tail := by
  have hend := lineEnd_eq hp ht hu
  have hrest : Holds (p.drop t.length) u := hp.drop
  obtain ⟨c, content, hcons⟩ := List.exists_cons_of_ne_nil hne
  obtain ⟨hc, b, rfl, _⟩ := Holds.cons_iff.mp (hcons ▸ hp)
  have hclip := take_clipped t u
  generalize hlen : (if nanoLineLen ≤ t.length then nanoLineLen - 1 else t.length) = len at hclip
  have hlen' : len ≤ (t ++ u).length ∧ len < nanoLineLen := by
    rw [← hlen, List.length_append]
    unfold nanoLineLen
    split <;> omega
  obtain ⟨ls₁, hm, hs₁⟩ := hs.modify hk (x := t.take nanoWidth)
    (f := fun buf ↦ (strncpy buf (c :: b) len).bind (Shell.store · len 0)) fun buf hblen _ ↦ by
      rw [← hblen, ← hclip]
      exact copyPrefix_eq hp hlen'.1 (by rw [hblen]; exact hlen'.2)
  -- the newline is skipped, the terminator is not
  obtain ⟨d, hd, hrest'⟩ : ∃ d, ((c :: b).drop t.length).head? = some d ∧
      Holds ((c :: b).drop (if d = 0x0A then t.length + 1 else t.length)) u.tail := by
    cases u with
    | nil =>
        obtain ⟨rest, heq⟩ := Holds.nil_iff.mp hrest
        refine ⟨0, by rw [heq]; rfl, ?_⟩
        rw [if_neg (by decide)]
        exact hrest
    | cons d v =>
        obtain ⟨_, b', heq, hb'⟩ := Holds.cons_iff.mp hrest
        refine ⟨d, by rw [heq]; rfl, ?_⟩
        rw [if_pos (hu d rfl), ← List.drop_drop, heq]
        exact hb'
  refine ⟨ls₁, _, ?_, hs₁, hrest'⟩
  rw [nanoLoad, if_neg hc]
  simp only [hend, hlen, Option.bind_eq_bind, Option.bind_some, hm, hd]
  rfl

/-- **The loop that parses the file** reads the lines of its contents, clipped to what there is
space for, into the lines of the editor. -/
theorem LinesHold.nanoLoad_spec (hs : LinesHold ls str) {p content : List UInt8} {k n : Nat}
    (hp : Holds p content) (hkn : k + n = nanoMaxLines) :
    ∃ (texts : List (List UInt8)) (ls' : Lines) (str' : Nat → List UInt8),
      texts = clipLines nanoWidth n (splitLines 0x0A content) ∧
      nanoLoad ls k p n = some (((k + texts.length : Nat) : Int), ls') ∧ LinesHold ls' str' ∧
      (∀ i, i < k ∨ k + texts.length ≤ i → str' i = str i) ∧
      ∀ j t, texts[j]? = some t → str' (k + j) = t := by
  induction n generalizing ls str p content k with
  | zero =>
      obtain ⟨_, rest, rfl⟩ := hp
      refine ⟨[], ls, str, rfl, ?_, hs, fun _ _ ↦ rfl, nofun⟩
      cases content <;> rfl
  | succ n ih =>
      by_cases hne : content = []
      · subst hne
        obtain ⟨rest, rfl⟩ := Holds.nil_iff.mp hp
        exact ⟨[], ls, str, rfl, if_pos rfl, hs, fun _ _ ↦ rfl, nofun⟩
      obtain ⟨t, u, rfl, ht, hu, hsplit⟩ := exists_splitLines_eq 0x0A hne
      obtain ⟨ls₁, p₁, hstep, hs₁, hp₁⟩ := hs.nanoLoad_step (k := k) (n := n) hp hne ht hu
        (by omega)
      obtain ⟨texts, ls', str', htexts, hloop, hs', hkeep, hread⟩ := ih hs₁ hp₁ (k := k + 1)
        (by omega)
      refine ⟨t.take nanoWidth :: texts, ls', str', ?_, ?_, hs', fun i hi ↦ ?_, fun j l hj ↦ ?_⟩
      · rw [hsplit, clipLines_succ_cons, htexts]
      · rw [hstep, hloop, List.length_cons, Nat.add_right_comm, Nat.add_assoc]
      · rw [List.length_cons] at hi
        rw [hkeep i (by omega), update_of_ne (by omega)]
      · cases j with
        | zero =>
            rw [Nat.add_zero, hkeep k (.inl (Nat.lt_succ_self k)), update_self]
            exact Option.some.inj hj
        | succ j =>
            have hnext : k + (j + 1) = k + 1 + j := by omega
            rw [hnext]
            exact hread j l hj

/-- `fs_read` does not change the length of the buffer. -/
theorem length_of_fsRead {f : Option Slot} {dest : List UInt8} {size offset : Nat} {code : Int}
    {out : Option (List UInt8)} (hdest : size ≤ dest.length)
    (h : fsRead s f (some dest) size offset = some (code, out)) :
    ∃ d, out = some d ∧ d.length = dest.length := by
  cases f with
  | none =>
      cases h
      exact ⟨dest, rfl, rfl⟩
  | some i =>
      have hle : (if size < sub32 (s.fileTable i).size offset then size
          else sub32 (s.fileTable i).size offset) ≤ dest.length := by
        split
        · exact hdest
        · omega
      simp only [fsRead, copyOut_eq hle] at h
      split at h
      · exact ⟨dest, (congrArg Prod.snd (Option.some.inj h)).symm, rfl⟩
      split at h
      · exact ⟨dest, (congrArg Prod.snd (Option.some.inj h)).symm, rfl⟩
      · refine ⟨_, (congrArg Prod.snd (Option.some.inj h)).symm, ?_⟩
        simp only [List.length_append, Mem.length_bytes, List.length_drop]
        omega

/-! ## Reading -/

/-- `if (num_lines == 0) num_lines = 1` -/
theorem oneLine_eq (m : Nat) : (if (m : Int) = 0 then 1 else (m : Int)) = (max 1 m : Nat) := by
  cases m with
  | zero => rfl
  | succ m => rw [if_neg (by omega), Nat.max_eq_right (Nat.succ_le_succ (Nat.zero_le m))]

/-- The allocation for the contents of the file succeeds, where there is one. -/
def ReadSucceeds (s : Sys) (n : List UInt8) : Prop :=
  ∀ i, slotOf s n = some i → 0 < (s.fileTable i).size →
    Succeeds s.heap ((s.fileTable i).size + 1)

/-- The buffer after `fs_read` and its terminator. -/
theorem holds_read {i : Slot} {c dest d : List UInt8} {code : Int} (hI : Inv tight s others)
    (hc : s.contents i = some c) (h0 : 0 ∉ c) (hdest : dest.length = (s.fileTable i).size + 1)
    (hread : fsRead s (some i) (some dest) (s.fileTable i).size 0 = some (code, some d)) :
    Holds (d.set (s.fileTable i).size 0) c := by
  have hlen := length_of_contents hc
  have hfits : (s.fileTable i).size ≤ dest.length := by
    rw [hdest]
    exact Nat.le_succ _
  have hspec := hread.symm.trans (fsRead_spec hI hc hfits)
  rw [List.drop_zero, Nat.sub_zero, ← hlen, List.take_length, Nat.min_self] at hspec
  cases hspec
  have hlast : dest.drop c.length ≠ [] := by
    rw [ne_eq, List.drop_eq_nil_iff, hdest, ← hlen, Nat.not_le]
    exact Nat.lt_succ_self _
  obtain ⟨x, rest, hx⟩ := List.exists_cons_of_ne_nil hlast
  refine ⟨h0, rest, ?_⟩
  rw [hx, ← hlen, set_length_append]

/-- **Reading a whole file** into a buffer with room for a terminator: the buffer holds a string
then, which is the contents of the file unless these have a terminator in them. -/
theorem fsRead_whole (hI : Inv tight s others) (i : Slot) {dest : List UInt8}
    (hdest : dest.length = (s.fileTable i).size + 1) :
    ∃ (code : Int) (d : List UInt8),
      fsRead s (some i) (some dest) (s.fileTable i).size 0 = some (code, some d) ∧
      (s.fileTable i).size < d.length ∧
      Holds (d.set (s.fileTable i).size 0) (cstr (d.set (s.fileTable i).size 0)) ∧
      ∀ c, s.contents i = some c → 0 ∉ c → cstr (d.set (s.fileTable i).size 0) = c := by
  have hsize : (s.fileTable i).size ≤ fsMaxFilesize := (hI.table.file i).size_le
  have hmax : fsMaxFilesize + 1 < 2 ^ 31 := by decide
  obtain ⟨⟨code, out⟩, hread⟩ : ∃ r,
      fsRead s (some i) (some dest) (s.fileTable i).size 0 = some r := by
    refine fsRead_returns hI (some i) 0 ?_
    rintro _ ⟨⟩
    omega
  obtain ⟨d, rfl, hlen⟩ := length_of_fsRead (by rw [hdest]; exact Nat.le_succ _) hread
  have hin : (s.fileTable i).size < d.length := by
    rw [hlen, hdest]
    exact Nat.lt_succ_self _
  refine ⟨code, d, hread, hin, Holds.of_mem (List.mem_set hin 0), fun c hc h0 ↦ ?_⟩
  exact (holds_read hI hc h0 hdest hread).cstr_eq

/-- **Reading the file** fills the lines with some text, clipped to what there is space for: the
contents of the file, if there is memory to read them. -/
theorem LinesHold.nanoRead_spec (hs : LinesHold ls str) (hI : Inv tight s others)
    (hn : Holds filename n) (junk : Mem) :
    ∃ (text : List UInt8) (ls' : Lines) (s' : Sys) (str' : Nat → List UInt8),
      nanoRead junk filename ls s = some (((max 1 (loaded text).length : Nat) : Int), ls', s') ∧
      LinesHold ls' str' ∧ (text = [] → str' = str) ∧
      (∀ j t, (loaded text)[j]? = some t → str' j = t) ∧ Inv tight s' others ∧ SameFiles s s' ∧
      (∀ i c, slotOf s n = some i → s.contents i = some c → 0 ∉ c → ReadSucceeds s n →
        text = c) := by
  have hopen : fsOpen s filename = some (slotOf s n) := hI.table.fsFind_eq hn
  have hmax : fsMaxFilesize + 1 ≤ maxRequest ∧ maxRequest < 2 ^ 32 := by decide
  by_cases hpos : 0 < fsGetSize s (slotOf s n)
  · cases hslot : slotOf s n with
    | none =>
        rw [hslot] at hpos
        exact absurd hpos (Nat.lt_irrefl 0)
    | some i =>
        have hget : fsGetSize s (some i) = (s.fileTable i).size := rfl
        rw [hslot, hget] at hpos
        rw [hslot] at hopen
        have hsize : (s.fileTable i).size ≤ fsMaxFilesize := (hI.table.file i).size_le
        have hadd : add32 (s.fileTable i).size 1 = (s.fileTable i).size + 1 :=
          add32_of_lt (by omega)
        obtain ⟨ptr, heap, hk, hI₁, hcontents₁, hnone⟩ := hI.kmalloc
          (show (s.fileTable i).size + 1 ≤ maxRequest by omega)
        by_cases hptr : ptr = null
        · subst hptr
          refine ⟨[], ls, _, str, ?_, hs, fun _ ↦ rfl, nofun, hI₁, ⟨rfl, hcontents₁⟩, ?_⟩
          · simp only [nanoRead, hopen, hget, Option.bind_eq_bind, Option.bind_some,
              if_pos hpos, hadd, hk]
            rfl
          · intro j c hj _ _ hsucc
            obtain ⟨ptr', heap', hk', hne⟩ := hsucc i hslot hpos
            cases hk.symm.trans hk'
            exact absurd rfl hne
        rw [Live.grant_of_ne hptr] at hI₁
        obtain ⟨code, d, hread, hin, hbuf, hwhole⟩ := fsRead_whole hI₁ i
          (show (junk.bytes ptr ((s.fileTable i).size + 1)).length = _ from Mem.length_bytes _ _ _)
        obtain ⟨texts, ls', str', rfl, hload, hs', hkeep, htexts⟩ := hs.nanoLoad_spec (k := 0)
          (n := nanoMaxLines) hbuf (Nat.zero_add _)
        obtain ⟨heap₂, hfree, hI₂, hcontents₂⟩ := hI₁.kfree (p := ptr) (by rw [update_self]; rfl)
        rw [update_idem, ← hnone hptr, update_eq_self] at hI₂
        simp only [Nat.zero_add] at hload hkeep htexts
        refine ⟨_, ls', _, str', ?_, hs', fun hnil ↦ ?_, htexts, hI₂, ⟨rfl, fun j ↦ ?_⟩, ?_⟩
        · simp only [nanoRead, hopen, hget, Option.bind_eq_bind, Option.bind_some, if_pos hpos,
            hadd, hk, if_neg hptr, hread, store_eq hin, Int.natCast_zero ▸ hload, hfree, oneLine_eq]
          rfl
        · funext j
          rw [hnil] at hkeep
          exact hkeep j (.inr (Nat.zero_le j))
        · exact (hcontents₂ j).trans (hcontents₁ j)
        · intro j c hj hc h0 _
          cases hj
          exact hwhole c ((hcontents₁ i).trans hc) h0
  · refine ⟨[], ls, s, str, ?_, hs, fun _ ↦ rfl, nofun, hI, .refl s, ?_⟩
    · simp only [nanoRead, hopen, Option.bind_eq_bind, Option.bind_some, if_neg hpos]
      rfl
    · intro i c hslot hc _ _
      rw [hslot] at hpos
      have hlen := length_of_contents hc
      exact (List.length_eq_zero_iff.mp (hlen.trans (Nat.eq_zero_of_not_pos hpos))).symm

/-- What reading the file does to the memory: a block is taken for the contents, if there are any,
and given back. -/
theorem nanoRead_cases {junk : Mem} {ls' : Lines} {k : Int} (hI : Inv tight s others)
    (hcall : nanoRead junk filename ls s = some (k, ls', s')) :
    s' = s ∨ ∃ file ptr heap, fsGetSize s file ≤ fsMaxFilesize ∧
      kmalloc s.heap (fsGetSize s file + 1) = some (ptr, heap) ∧
      (ptr = null ∧ s' = { s with heap := heap } ∨
        ptr ≠ null ∧ ∃ heap', kfree heap ptr = some heap' ∧ s' = { s with heap := heap' }) := by
  simp only [nanoRead, Option.bind_eq_bind, Option.bind_eq_some_iff] at hcall
  obtain ⟨file, _, hcall⟩ := hcall
  split at hcall
  next hpos =>
    have hsize := hI.table.fsGetSize_le file
    have hmax : fsMaxFilesize + 1 < 2 ^ 31 := by decide
    rw [add32_of_lt (by omega)] at hcall
    obtain ⟨⟨ptr, heap⟩, hk, hcall⟩ := Option.bind_eq_some_iff.mp hcall
    refine .inr ⟨file, ptr, heap, hsize, hk, ?_⟩
    split at hcall
    next hnull =>
      cases hcall
      exact .inl ⟨hnull, rfl⟩
    next hptr =>
      simp only [Option.bind_eq_some_iff] at hcall
      obtain ⟨_, _, _, _, _, _, _, _, heap', hfree, heq⟩ := hcall
      cases heq
      exact .inr ⟨hptr, heap', hfree, rfl⟩
  next =>
    cases hcall
    exact .inl rfl

/-- Lines that are all allocated are empty at first. -/
theorem linesHold_nanoLine {ptrs : List Nat} (junk : Mem) (hlen : ptrs.length = nanoMaxLines)
    (hall : ∀ p ∈ ptrs, p ≠ null) : LinesHold (ptrs.map (nanoLine junk)) fun _ ↦ [] := by
  refine ⟨by rw [List.length_map, hlen], fun i hi ↦ ?_⟩
  have hget : ptrs[i]? = some ptrs[i] := List.getElem?_eq_getElem (by rw [hlen]; exact hi)
  have hpos : 0 < (junk.bytes ptrs[i] nanoLineLen).length := by
    rw [Mem.length_bytes]
    decide
  obtain ⟨b, hstore, hblen, hb⟩ := store_zero hpos
  rw [store_eq hpos] at hstore
  refine ⟨b, ?_, by rw [hblen, Mem.length_bytes], hb⟩
  rw [List.getElem?_map, hget, Option.map_some, nanoLine,
    if_neg (hall _ (List.getElem_mem _)), hstore]

end KontolOS.Shell
