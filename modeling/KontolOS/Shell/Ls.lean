import KontolOS.Drivers.Output
import KontolOS.Fs.Listing
import KontolOS.Shell.NanoFile

/-!
# `ls`

The command `ls` of `src/kernel/shell.c` has `fs_list` put the names into a buffer of 1024 bytes,
takes them out again line by line (`fsList_lsLines`), and looks each of them up for its size.  The
total that it prints is that of all entries.  There may be 64 entries with names of 31 characters,
which do not fit in the buffer: the names that are left out are missing from the listing, and it is
complete exactly if all of them fit (`lists_iff`).
-/

namespace KontolOS.Shell

open KontolOS.Lib KontolOS.Memory KontolOS.Strings KontolOS.Drivers KontolOS.Fs

/-! ## The command -/

/-- `sizeof(buffer)` -/
def lsBufferSize : Nat := 1024

/-- What is printed for the name that `line` points to. -/
def lsFile (s : Sys) (line : List UInt8) : Option (List VgaCall) := do
  let f ← fsOpen s line
  let size :=
    if f.isSome then
      [.setColor 8 0, .print (literal "  ("), .printDec (toInt (fsGetSize s f)),
        .print (literal " bytes)")]
    else []
  return [.setColor 10 0, .print (literal "  "), .print line] ++ size ++ [.print (literal "\n")]

/-- `while (*line) { … }`: each line is ended by a NUL for a while. -/
def lsLoop (s : Sys) : Nat → List UInt8 → Nat → Option (List VgaCall)
  | 0, _, _ => none
  | fuel + 1, buffer, line => do
      let c ← buffer[line]?
      if c = 0 then return []
      let stop := line + (← lineEnd (buffer.drop line))
      let saved ← buffer[stop]?
      let buffer ← setByte buffer stop 0
      let calls ← lsFile s (buffer.drop line)
      let buffer ← setByte buffer stop saved
      let stop := if saved ≠ 0 then stop + 1 else stop
      return calls ++ (← lsLoop s fuel buffer stop)

/-- The listing itself; `buffer` is the buffer as it is on the stack. -/
def lsFiles (s : Sys) (buffer : List UInt8) : Option (List VgaCall) := do
  let (_, buffer) ← fsList s (some buffer) lsBufferSize
  let buffer ← buffer
  lsLoop s buffer.length buffer 0

/-- What is printed before the listing. -/
def lsHeader : List VgaCall := [.setColor 11 0, .print (literal "\nFiles in filesystem:\n"),
  .print (literal "--------------------\n"), .setColor 15 0]

/-- What is printed behind it. -/
def lsFooter (count : Nat) : List VgaCall := [.setColor 8 0, .print (literal "\nTotal: "),
  .printDec count, .print (literal " file(s)\n\n"), .setColor 15 0]

/-- `if (count == 0) { … } else { … }` -/
def lsBody (s : Sys) (buffer : List UInt8) : Option (List VgaCall) :=
  if fsCount s = 0 then
    some [.setColor 8 0, .print (literal "  (no files)\n"), .setColor 15 0]
  else lsFiles s buffer

/-- `cmd_ls`: what it prints. -/
def cmdLs (s : Sys) (buffer : List UInt8) : Option (List VgaCall) := do
  let body ← lsBody s buffer
  return lsHeader ++ body ++ lsFooter (fsCount s)

/-! ## What it is to print -/

/-- The line of an entry: its name and its size. -/
def lsLine (s : Sys) (i : Slot) : List UInt8 :=
  cstr (literal "  ") ++ nameOf s i ++ cstr (literal "  (") ++ decimal (s.fileTable i).size ++
    cstr (literal " bytes)") ++ cstr (literal "\n")

/-- The lines of some entries, between the header and the total. -/
def lsTextOf (s : Sys) (slots : List Slot) : List UInt8 :=
  cstr (literal "\nFiles in filesystem:\n") ++ cstr (literal "--------------------\n") ++
    (if usedSlots s = [] then cstr (literal "  (no files)\n") else slots.flatMap (lsLine s)) ++
    (cstr (literal "\nTotal: ") ++ decimal (usedSlots s).length ++ cstr (literal " file(s)\n\n"))

/-- **A complete listing**: a line for each used entry, in the order of their slots, and how many
there are. -/
def lsText (s : Sys) : List UInt8 := lsTextOf s (usedSlots s)

/-- `ls` is complete: its calls put out `lsText` on whatever screen. -/
def Lists (s : Sys) (buffer : List UInt8) : Prop :=
  ∃ calls, cmdLs s buffer = some calls ∧ printed calls = lsText s ∧
    ∀ b₀ v, OnScreen b₀ v → ∃ v', runCalls calls v = some v' ∧ OnScreen b₀ v' ∧
      Emits v (lsText s) v'

/-! ## Taking the names out -/

section

variable {s : Sys} {buffer pre : List UInt8} {i : Slot} {slots : List Slot}

/-- The calls for an entry put out its line. -/
theorem lsFile_eq (h : TableOk s) (hu : (s.fileTable i).used = true) {line : List UInt8}
    (hline : Strings.Holds line (nameOf s i)) :
    ∃ calls, lsFile s line = some calls ∧ printed calls = lsLine s i ∧
      ∀ call ∈ calls, call.Prints := by
  have hslot : slotOf s (nameOf s i) = some i := h.slotOf_eq_some_iff.mpr ⟨hu, rfl⟩
  have hsize : (s.fileTable i).size < 2 ^ 31 :=
    Nat.lt_of_le_of_lt (h.file i).size_le (by decide)
  have hint : toInt (fsGetSize s (some i)) = (s.fileTable i).size := toInt_of_lt hsize
  rw [lsFile, fsOpen, h.fsFind_eq hline, hslot]
  refine ⟨_, rfl, ?_, ?_⟩
  · simp [printed, VgaCall.text, lsLine, hline.cstr_eq, hint, List.append_assoc]
  · have hmem : 0 ∈ line := by
      obtain ⟨_, rest, rfl⟩ := hline
      simp
    simpa [VgaCall.Prints, zero_mem_literal, hmem, hint] using hsize

/-- The lines that `line` points to, one after the other, at the calls of `lsFile`. -/
def lsLines : Nat → List UInt8 → Nat → Option (List (List UInt8))
  | 0, _, _ => none
  | fuel + 1, buffer, line => do
      let c ← buffer[line]?
      if c = 0 then return []
      let stop := line + (← lineEnd (buffer.drop line))
      let saved ← buffer[stop]?
      let buffer ← setByte buffer stop 0
      let first := buffer.drop line
      let buffer ← setByte buffer stop saved
      let stop := if saved ≠ 0 then stop + 1 else stop
      return first :: (← lsLines fuel buffer stop)

/-- The loop takes the lines out, and each is printed. -/
theorem lsLoop_eq_lsLines (s : Sys) (fuel : Nat) (buffer : List UInt8) (line : Nat) :
    lsLoop s fuel buffer line =
      (lsLines fuel buffer line).bind fun lines ↦ (lines.mapM (lsFile s)).map List.flatten := by
  induction fuel generalizing buffer line with
  | zero => rfl
  | succ fuel ih =>
      rw [lsLoop, lsLines]
      simp only [Option.bind_eq_bind, Option.bind_assoc]
      refine Option.bind_congr fun c _ ↦ ?_
      by_cases hc : c = 0
      · rw [if_pos hc, if_pos hc]
        rfl
      rw [if_neg hc, if_neg hc]
      simp only [Option.bind_assoc]
      refine Option.bind_congr fun len _ ↦ Option.bind_congr fun saved _ ↦
        Option.bind_congr fun buffer₁ _ ↦ ?_
      -- the second write does not depend on what is printed
      rw [Option.bind_comm]
      refine Option.bind_congr fun buffer₂ _ ↦ ?_
      rw [ih]
      cases lsLines fuel buffer₂ (if saved ≠ 0 then line + len + 1 else line + len) with
      | none => cases lsFile s (buffer₁.drop line) <;> rfl
      | some lines =>
          change _ = ((buffer₁.drop line :: lines).mapM (lsFile s)).map List.flatten
          rw [List.mapM_cons, Option.bind_some]
          cases lsFile s (buffer₁.drop line) with
          | none => rfl
          | some calls => cases lines.mapM (lsFile s) <;> rfl

/-- One turn of the loop. -/
theorem lsLines_succ {n rest : List UInt8} (hn : 0 ∉ n)
    (hstop : lineEnd (n ++ 0x0A :: rest) = some n.length) (fuel : Nat) :
    lsLines (fuel + 1) (pre ++ (n ++ 0x0A :: rest)) pre.length =
      (lsLines fuel (pre ++ n ++ [0x0A] ++ rest) (pre ++ n ++ [0x0A]).length).map
        ((n ++ 0 :: rest) :: ·) := by
  obtain ⟨c, tail, hcons, hc⟩ : ∃ c tail, n ++ 0x0A :: rest = c :: tail ∧ c ≠ 0 := by
    cases n with
    | nil => exact ⟨0x0A, rest, rfl, by decide⟩
    | cons c n => exact ⟨c, _, rfl, fun h ↦ hn (List.mem_cons.mpr (.inl h.symm))⟩
  have hfirst : (pre ++ (n ++ 0x0A :: rest))[pre.length]? = some c := by
    rw [hcons, getElem?_length_append]
  have hsaved : (pre ++ (n ++ 0x0A :: rest))[pre.length + n.length]? = some 0x0A := by
    simp
  have hset : ∀ b c : UInt8, setByte (pre ++ (n ++ b :: rest)) (pre.length + n.length) c =
      some (pre ++ (n ++ c :: rest)) := by
    intro b c
    have := setByte_eq (pre ++ n) rest b c
    rwa [List.length_append, List.append_assoc, List.append_assoc] at this
  rw [lsLines]
  simp only [hfirst, if_neg hc, List.drop_left, hstop, hsaved, hset, Option.bind_eq_bind,
    Option.bind_some]
  have hnext : ((0x0A : UInt8) ≠ 0) := by decide
  simp [Option.map_eq_bind, Nat.add_assoc]

/-- **The lines are the names** in the buffer. -/
theorem lsLines_eq {ls : List (List UInt8)} (hnl : ∀ l ∈ ls, 0x0A ∉ l) {fuel : Nat}
    (hbuffer : Strings.Holds buffer (joinLines 0x0A ls)) :
    ∃ lines, lsLines (ls.length + fuel + 1) (pre ++ buffer) pre.length = some lines ∧
      List.Forall₂ Strings.Holds lines ls := by
  induction ls generalizing pre buffer with
  | nil =>
      obtain ⟨rest, rfl⟩ := Strings.Holds.nil_iff.mp hbuffer
      refine ⟨[], ?_, .nil⟩
      simp [lsLines]
  | cons l ls ih =>
      rw [joinLines_cons] at hbuffer
      have hstop : lineEnd buffer = some l.length :=
        lineEnd_eq hbuffer (hnl l List.mem_cons_self) fun c hc ↦ (Option.some.inj hc).symm
      obtain ⟨hmem, rest, rfl⟩ := hbuffer
      rw [List.append_assoc, List.cons_append] at hstop ⊢
      rw [List.mem_append, List.mem_cons, not_or, not_or] at hmem
      obtain ⟨hname, _, hjoin⟩ := hmem
      obtain ⟨lines, hlines, hholds⟩ := @ih _ (pre ++ l ++ [0x0A])
        (fun k hk ↦ hnl k (List.mem_cons_of_mem l hk)) ⟨hjoin, rest, rfl⟩
      refine ⟨_ :: lines, ?_, .cons ⟨hname, joinLines 0x0A ls ++ 0 :: rest, rfl⟩ hholds⟩
      rw [List.length_cons, Nat.add_right_comm ls.length, lsLines_succ hname hstop, hlines,
        Option.map_some]

/-- The loop has rounds enough. -/
theorem lsLines_buffer {ls : List (List UInt8)} (hnl : ∀ l ∈ ls, 0x0A ∉ l)
    (hbuffer : Strings.Holds buffer (joinLines 0x0A ls)) :
    ∃ lines, lsLines buffer.length buffer 0 = some lines ∧
      List.Forall₂ Strings.Holds lines ls := by
  obtain ⟨fuel, hfuel⟩ := Nat.exists_eq_add_of_lt
    (Nat.lt_of_le_of_lt (length_le_joinLines 0x0A ls) hbuffer.length_lt)
  rw [hfuel]
  exact @lsLines_eq _ [] _ hnl fuel hbuffer

/-- The lines of the entries are printed. -/
theorem mapM_lsFile_eq (h : TableOk s) (hslots : ∀ i ∈ slots, (s.fileTable i).used = true)
    {lines : List (List UInt8)}
    (hlines : List.Forall₂ Strings.Holds lines (slots.map (nameOf s))) :
    ∃ calls, (lines.mapM (lsFile s)).map List.flatten = some calls ∧
      printed calls = slots.flatMap (lsLine s) ∧ ∀ call ∈ calls, call.Prints := by
  induction slots generalizing lines with
  | nil =>
      cases hlines
      exact ⟨[], rfl, rfl, nofun⟩
  | cons i slots ih =>
      rw [List.map_cons] at hlines
      obtain ⟨line, lines, hline, hrest, rfl⟩ := List.forall₂_cons_right_iff.mp hlines
      obtain ⟨hi, hslots⟩ := List.forall_mem_cons.mp hslots
      obtain ⟨calls, hcalls, htext, hprints⟩ := lsFile_eq h hi hline
      obtain ⟨calls', hcalls', htext', hprints'⟩ := ih hslots hrest
      refine ⟨calls ++ calls', ?_, ?_, ?_⟩
      · obtain ⟨rest, hrest, rfl⟩ := Option.map_eq_some_iff.mp hcalls'
        rw [List.mapM_cons, hcalls, Option.bind_eq_bind, Option.bind_some, hrest]
        rfl
      · rw [printed_append, htext, htext', List.flatMap_cons]
      · exact fun call hcall ↦ (List.mem_append.mp hcall).elim (hprints call) (hprints' call)

/-- **The names of the entries are listed and taken out again**, for every size of the buffer:
`fs_list` writes nothing behind that size, leaves a terminator below it, and returns the number of
lines that the loop of `cmd_ls` takes out, which are names of used entries in the order of their
slots; and these are all of them if the names fit, each with a newline, and a terminator. -/
theorem fsList_lsLines (hnames : ∀ i, (s.fileTable i).used = true → Named s i ∧ 0x0A ∉ nameOf s i)
    {bufferSize : Nat} (hpos : 0 < bufferSize) (hsize : bufferSize ≤ buffer.length) :
    ∃ (k : Nat) (buffer' : List UInt8) (lines : List (List UInt8)),
      fsList s (some buffer) bufferSize = some ((k : Int), some buffer') ∧
      buffer'.length = buffer.length ∧ buffer'.drop bufferSize = buffer.drop bufferSize ∧
      0 ∈ buffer'.take bufferSize ∧
      lsLines buffer'.length buffer' 0 = some lines ∧ lines.length = k ∧
      (lines.map cstr).Sublist ((usedSlots s).map (nameOf s)) ∧
      (((usedSlots s).map fun i ↦ (nameOf s i).length + 1).sum + 1 < bufferSize →
        k = fsCount s) := by
  obtain ⟨ls, buffer', hls, hlist, hlen, hdrop, hbuffer⟩ :=
    fsList_eq (fun i hu ↦ (hnames i hu).1) hpos hsize
  have hsub : ls.Sublist ((usedSlots s).map (nameOf s)) := hls ▸ fitLines_sublist ..
  have hnl : ∀ l ∈ ls, 0x0A ∉ l := by
    intro l hl
    obtain ⟨i, hi, rfl⟩ := List.mem_map.mp (hsub.subset hl)
    exact (hnames i (mem_usedSlots.mp hi)).2
  obtain ⟨lines, hlines, hholds⟩ := lsLines_buffer hnl hbuffer
  have hmap : lines.map cstr = ls := by
    refine List.forall₂_eq_eq_eq ▸ ?_
    exact List.forall₂_map_left_iff.mpr (hholds.imp fun _ _ h ↦ h.cstr_eq)
  refine ⟨ls.length, buffer', lines, hlist, hlen, hdrop, ?_, hlines, hholds.length_eq,
    hmap ▸ hsub, fun hfit ↦ ?_⟩
  · have hroom := length_joinLines_fitLines 0x0A hpos ((usedSlots s).map (nameOf s))
    rw [hls, Nat.zero_add] at hroom
    obtain ⟨_, rest, heq⟩ := hbuffer
    obtain ⟨m, hm⟩ := Nat.exists_eq_add_of_lt hroom
    rw [heq, hm, Nat.add_assoc, List.take_length_add_append]
    exact List.mem_append_right _ List.mem_cons_self
  · have hall := @fitLines_eq_self_iff _ ((usedSlots s).map (nameOf s)) _ _
      (show 0 + 1 < bufferSize by omega)
    rw [List.map_map, Nat.zero_add] at hall
    rw [← hls, hall.mpr hfit, List.length_map, length_usedSlots]

/-- A table in which each entry has the name `a`. -/
def sameNames : Sys :=
  { (bootWorld (Clients.init fun _ ↦ 0)).sys with
    fileTable := fun _ ↦ ⟨0x61 :: List.replicate 31 0, null, 0, fsFlagUsed⟩ }

/-- Not all of them fit in ten bytes. -/
theorem fsList_lsLines_sameNames : ∃ (k : Nat) (buffer' : List UInt8) (lines : List (List UInt8)),
    fsList sameNames (some (List.replicate 10 0)) 10 = some ((k : Int), some buffer') ∧
    lsLines buffer'.length buffer' 0 = some lines ∧ lines.length = k := by
  have hname : ∀ i, nameOf sameNames i = [0x61] := fun _ ↦ rfl
  have hnamed : ∀ i, Named sameNames i ∧ 0x0A ∉ nameOf sameNames i := by
    intro i
    rw [Named, hname]
    exact ⟨⟨⟨by decide, List.replicate 30 0, rfl⟩, by decide⟩, by decide⟩
  obtain ⟨k, buffer', lines, hlist, _, _, _, hlines, hlen, _⟩ :=
    fsList_lsLines (fun i _ ↦ hnamed i) (show 0 < 10 by decide)
      (Nat.le_of_eq (List.length_replicate (a := (0 : UInt8))).symm)
  exact ⟨k, buffer', lines, hlist, hlines, hlen⟩

/-! ## What is printed -/

/-- The names that fit are taken out of the buffer again. -/
theorem lsFiles_eq (h : TableOk s) (hnl : ∀ i ∈ usedSlots s, 0x0A ∉ nameOf s i)
    (hlen : buffer.length = lsBufferSize) (hsub : slots.Sublist (usedSlots s))
    (hslots : fitLines lsBufferSize 0 ((usedSlots s).map (nameOf s)) = slots.map (nameOf s)) :
    ∃ calls, lsFiles s buffer = some calls ∧ printed calls = slots.flatMap (lsLine s) ∧
      ∀ call ∈ calls, call.Prints := by
  obtain ⟨ls, buffer', hls, hlist, _, _, hbuffer⟩ :=
    fsList_eq (fun i ↦ h.named) (show 0 < lsBufferSize by decide) (Nat.le_of_eq hlen.symm)
  obtain rfl : slots.map (nameOf s) = ls := hslots.symm.trans hls
  have hsub' : ∀ l ∈ slots.map (nameOf s), 0x0A ∉ l := by
    intro l hl
    obtain ⟨i, hi, rfl⟩ := List.mem_map.mp hl
    exact hnl i (hsub.subset hi)
  obtain ⟨lines, hlines, hholds⟩ := lsLines_buffer hsub' hbuffer
  obtain ⟨calls, hcalls, hrest⟩ :=
    mapM_lsFile_eq h (fun i hi ↦ mem_usedSlots.mp (hsub.subset hi)) hholds
  refine ⟨calls, ?_, hrest⟩
  rw [lsFiles, hlist]
  change lsLoop s buffer'.length buffer' 0 = some calls
  rw [lsLoop_eq_lsLines, hlines, Option.bind_some, hcalls]

/-- **What `ls` prints** is the lines of the entries whose names fit in the buffer. -/
theorem cmdLs_eq (h : TableOk s) (hnl : ∀ i ∈ usedSlots s, 0x0A ∉ nameOf s i)
    (hlen : buffer.length = lsBufferSize) :
    ∃ slots calls, slots.Sublist (usedSlots s) ∧
      fitLines lsBufferSize 0 ((usedSlots s).map (nameOf s)) = slots.map (nameOf s) ∧
      cmdLs s buffer = some calls ∧ printed calls = lsTextOf s slots ∧
      ∀ call ∈ calls, call.Prints := by
  obtain ⟨slots, hsub, hslots⟩ := List.sublist_map_iff.mp
    (fitLines_sublist lsBufferSize 0 ((usedSlots s).map (nameOf s)))
  have hcount : fsCount s < 2 ^ 31 := by
    have hle : fsCount s ≤ fsMaxFiles := List.countP_le_length.trans_eq List.length_finRange
    exact Nat.lt_of_le_of_lt hle (by decide)
  obtain ⟨body, hbody, htext, hprints⟩ : ∃ body, lsBody s buffer = some body ∧
      printed body = (if usedSlots s = [] then cstr (literal "  (no files)\n")
        else slots.flatMap (lsLine s)) ∧ ∀ call ∈ body, call.Prints := by
    simp only [lsBody, ← length_usedSlots, List.length_eq_zero_iff]
    split
    · exact ⟨_, rfl, rfl, by simp [VgaCall.Prints, zero_mem_literal]⟩
    · exact lsFiles_eq h hnl hlen hsub hslots
  refine ⟨slots, _, hsub, hslots, by rw [cmdLs, hbody]; rfl, ?_, ?_⟩
  · rw [printed_append, printed_append, htext, lsTextOf, length_usedSlots]
    simp [lsHeader, lsFooter, printed, VgaCall.text, List.append_assoc]
  · have hheader : ∀ call ∈ lsHeader, call.Prints := by
      simp [lsHeader, VgaCall.Prints, zero_mem_literal]
    have hfooter : ∀ call ∈ lsFooter (fsCount s), call.Prints := by
      simpa [lsFooter, VgaCall.Prints, zero_mem_literal] using hcount
    intro call hcall
    rw [List.mem_append, List.mem_append] at hcall
    exact hcall.elim (fun h ↦ h.elim (hheader call) (hprints call)) (hfooter call)

/-- A line ends where its newline is. -/
theorem exists_lsLine_eq (hnl : 0x0A ∉ nameOf s i) : ∃ l, lsLine s i = l ++ [0x0A] ∧ 0x0A ∉ l := by
  refine ⟨_, rfl, ?_⟩
  have hdec : 0x0A ∉ decimal (s.fileTable i).size := fun h ↦ absurd (mem_decimal h).1 (by decide)
  have hopen : 0x0A ∉ cstr (literal "  (") := by decide
  have hclose : 0x0A ∉ cstr (literal " bytes)") := by decide
  have hindent : 0x0A ∉ cstr (literal "  ") := by decide
  simp only [List.mem_append, not_or]
  exact ⟨⟨⟨⟨hindent, hnl⟩, hopen⟩, hdec⟩, hclose⟩

/-- There are as many newlines as lines. -/
theorem count_lsLines (hnl : ∀ i ∈ slots, 0x0A ∉ nameOf s i) :
    (slots.flatMap (lsLine s)).count 0x0A = slots.length := by
  induction slots with
  | nil => rfl
  | cons i slots ih =>
      obtain ⟨l, hl, hmem⟩ := exists_lsLine_eq (hnl i List.mem_cons_self)
      rw [List.flatMap_cons, hl, List.count_append, List.count_append, List.count_eq_zero.mpr hmem,
        ih fun j hj ↦ hnl j (List.mem_cons_of_mem i hj), List.count_singleton_self,
        List.length_cons, Nat.zero_add, Nat.add_comm]

/-- **A listing is complete** only if no entry is left out. -/
theorem lsTextOf_eq_iff (hsub : slots.Sublist (usedSlots s))
    (hnl : ∀ i ∈ usedSlots s, 0x0A ∉ nameOf s i) :
    lsTextOf s slots = lsText s ↔ slots = usedSlots s := by
  refine ⟨fun heq ↦ ?_, fun heq ↦ by rw [heq, lsText]⟩
  rw [lsText, lsTextOf, lsTextOf, List.append_cancel_right_eq, List.append_cancel_left_eq] at heq
  split at heq
  next hempty =>
    rw [hempty] at hsub ⊢
    exact List.sublist_nil.mp hsub
  next =>
    have hcount := congrArg (List.count 0x0A) heq
    rw [count_lsLines hnl, count_lsLines fun i hi ↦ hnl i (hsub.subset hi)] at hcount
    exact hsub.eq_of_length hcount

/-- `ls` is complete if no entry is left out. -/
theorem lists_iff_of_table (h : TableOk s) (hnl : ∀ i ∈ usedSlots s, 0x0A ∉ nameOf s i)
    (hlen : buffer.length = lsBufferSize) :
    Lists s buffer ↔
      ((usedSlots s).map fun i ↦ (nameOf s i).length + 1).sum + 1 < lsBufferSize := by
  obtain ⟨slots, calls, hsub, hslots, hcalls, htext, hprints⟩ := cmdLs_eq h hnl hlen
  have hfit := @fitLines_eq_self_iff _ ((usedSlots s).map (nameOf s)) _ _
    (show 0 + 1 < lsBufferSize by decide)
  rw [List.map_map, Nat.zero_add, hslots] at hfit
  refine Iff.trans ?_ hfit
  constructor
  · rintro ⟨calls', hcalls', htext', _⟩
    obtain rfl : calls = calls' := Option.some.inj (hcalls.symm.trans hcalls')
    rw [htext, lsTextOf_eq_iff hsub hnl] at htext'
    rw [htext']
  · intro hmap
    have hall : slots = usedSlots s := hsub.eq_of_length (by
      simpa only [List.length_map] using congrArg List.length hmap)
    rw [hall, ← lsText] at htext
    refine ⟨calls, hcalls, htext, fun b₀ v hv ↦ ?_⟩
    rw [← htext]
    exact hv.runCalls_emits hprints

end

/-- **`ls` is complete exactly if** the names fit in its buffer, each with a newline and the last
with a terminator too, in every state in reach. -/
theorem lists_iff {w₀ w : World} {acts : List (Act (Option Slot))} (hb : Booted w₀)
    (hr : Run WorldStep w₀ acts w) (hnl : ∀ i ∈ usedSlots w.sys, 0x0A ∉ nameOf w.sys i)
    {buffer : List UInt8} (hlen : buffer.length = lsBufferSize) :
    Lists w.sys buffer ↔
      ((usedSlots w.sys).map fun i ↦ (nameOf w.sys i).length + 1).sum + 1 < lsBufferSize :=
  lists_iff_of_table ((hb.inv : Inv False _ _ ∧ _).1.run hr).table hnl hlen

/-! ## Names that do not fit -/

/-- A name of 31 characters. -/
def longName (k : Nat) : List UInt8 := (0x30 + UInt8.ofNat k) :: List.replicate 30 0x61

/-- The names of 32 files. -/
def longNames : List (List UInt8) := (List.range 32).map longName

/-- Files with such names can be created, up to `FS_MAX_FILES` of them. -/
theorem exists_named (names : List (List UInt8)) (hnodup : names.Nodup)
    (hcount : names.length ≤ fsMaxFiles)
    (hnames : ∀ n ∈ names, 0 ∉ n ∧ n ≠ [] ∧ n.length < fsMaxFilename)
    (hnl : ∀ n ∈ names, 0x0A ∉ n) :
    ∃ w, Run WorldStep (bootWorld (Clients.init fun _ ↦ 0))
        (names.map fun n ↦ .fs false (.create (some (n ++ [0]))) (.ofCode 0)) w ∧
      (usedSlots w.sys).length = names.length ∧
      (∀ i ∈ usedSlots w.sys, 0x0A ∉ nameOf w.sys i) ∧
      ((usedSlots w.sys).map fun i ↦ (nameOf w.sys i).length + 1).sum =
        (names.map fun n ↦ n.length + 1).sum := by
  have hI : Inv True (bootWorld (Clients.init fun _ ↦ 0)).sys
      (bootWorld (Clients.init fun _ ↦ 0)).others := (booted_bootWorld ⟨_, [], .nil _⟩).inv.1
  have hnone : ((usedSlots (bootWorld (Clients.init fun _ ↦ 0)).sys).map
      (nameOf (bootWorld (Clients.init fun _ ↦ 0)).sys)).Perm [] := by
    rw [usedSlots_bootWorld]
    exact .refl []
  obtain ⟨w, hrun, hperm⟩ := @Inv.exists_files _ _ hI [] names hnone
    (by rwa [List.append_nil]) (by rwa [List.append_nil]) hnames
  rw [List.append_nil] at hperm
  refine ⟨w, hrun, ?_, fun i hi ↦ ?_, ?_⟩
  · have hlen := hperm.length_eq
    rwa [List.length_map] at hlen
  · exact hnl _ (hperm.mem_iff.mp (List.mem_map.mpr ⟨i, hi, rfl⟩))
  · have hsum := (hperm.map fun n ↦ n.length + 1).sum_nat
    rwa [List.map_map] at hsum

/-- Of these files the first 31 are listed, but not all 32. -/
theorem lists_iff_longNames : ∃ w w',
    Run WorldStep (bootWorld (Clients.init fun _ ↦ 0)) ((longNames.take 31).map fun n ↦
      .fs false (.create (some (n ++ [0]))) (.ofCode 0)) w ∧
    (usedSlots w.sys).length = 31 ∧ Lists w.sys (List.replicate lsBufferSize 0x7A) ∧
    Run WorldStep (bootWorld (Clients.init fun _ ↦ 0)) (longNames.map fun n ↦
      .fs false (.create (some (n ++ [0]))) (.ofCode 0)) w' ∧
    (usedSlots w'.sys).length = 32 ∧ ¬ Lists w'.sys (List.replicate lsBufferSize 0x7A) := by
  have hb := booted_bootWorld (w := Clients.init fun _ ↦ 0) ⟨_, [], .nil _⟩
  obtain ⟨w, hrun, hlen, hnl, hsum⟩ :=
    exists_named (longNames.take 31) (by decide) (by decide) (by decide) (by decide)
  obtain ⟨w', hrun', hlen', hnl', hsum'⟩ :=
    exists_named longNames (by decide) (by decide) (by decide) (by decide)
  refine ⟨w, w', hrun, hlen, (lists_iff hb hrun hnl List.length_replicate).mpr ?_, hrun', hlen',
    mt (lists_iff hb hrun' hnl' List.length_replicate).mp ?_⟩
  · rw [hsum]
    decide
  · rw [hsum']
    decide

/-- Of 32 files whose names have 31 characters, not all are listed. -/
theorem not_lists_longNames : ∃ w, Run WorldStep (bootWorld (Clients.init fun _ ↦ 0))
      (longNames.map fun n ↦ .fs false (.create (some (n ++ [0]))) (.ofCode 0)) w ∧
    (usedSlots w.sys).length = 32 ∧ (∀ i ∈ usedSlots w.sys, 0x0A ∉ nameOf w.sys i) ∧
    ∀ buffer : List UInt8, buffer.length = lsBufferSize → ¬ Lists w.sys buffer := by
  obtain ⟨w, hrun, hcount, hnl, hsum⟩ :=
    exists_named longNames (by decide) (by decide) (by decide) (by decide)
  have hI : Inv False w.sys w.others :=
    (booted_bootWorld (w := Clients.init fun _ ↦ 0) ⟨_, [], .nil _⟩).inv.1.run hrun
  refine ⟨w, hrun, hcount, hnl, fun buffer hlen hlists ↦ ?_⟩
  have hfit := (lists_iff_of_table hI.table hnl hlen).mp hlists
  rw [hsum] at hfit
  exact absurd hfit (by decide)

end KontolOS.Shell
