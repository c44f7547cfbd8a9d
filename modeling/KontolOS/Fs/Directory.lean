import Mathlib.Data.Finmap
import KontolOS.Fs.System

/-!
# What the filesystem is for

A directory is a finite map from names to entries, of which it holds at most
`FS_MAX_FILES`.  Names and entries carry their bounds with them.  `Directory.exec` says
what each call does to the map and what its caller sees, with no slots, buffers or heap.
-/

namespace KontolOS.Fs

open KontolOS.Lib KontolOS.Memory KontolOS.Strings

/-! ## Names and entries -/

/-- A name of an entry: not empty, short enough, and without NUL. -/
structure Name where
  /-- the characters -/
  chars : List UInt8
  /-- there is at least one -/
  ne_nil : chars ≠ []
  /-- and a terminator fits behind them -/
  short : chars.length < fsMaxFilename
  /-- they form a C string -/
  noNul : 0 ∉ chars
deriving DecidableEq

/-- A name is its characters. -/
theorem Name.ext {n k : Name} (h : n.chars = k.chars) : n = k := by
  cases n
  cases k
  cases h
  rfl

/-- The name that a string is, if it can be one. -/
def Name.ofString (s : List UInt8) : Option Name :=
  if h : s ≠ [] ∧ s.length < fsMaxFilename ∧ 0 ∉ s then some ⟨s, h.1, h.2.1, h.2.2⟩ else none

/-- A file or a directory. -/
structure Entry where
  /-- whether it is a directory -/
  directory : Bool
  /-- its contents -/
  data : List UInt8
  /-- which are not too large -/
  bound : data.length ≤ fsMaxFilesize

/-- An entry without contents. -/
def Entry.empty (directory : Bool) : Entry := ⟨directory, [], Nat.zero_le _⟩

/-- The map from names to entries. -/
structure Directory where
  /-- the entries -/
  entries : Finmap fun _ : Name ↦ Entry
  /-- of which there are not too many -/
  card_le : entries.keys.card ≤ fsMaxFiles

namespace Directory

/-- The empty directory. -/
def empty : Directory := ⟨∅, by rw [Finmap.keys_empty]; exact Nat.zero_le _⟩

/-- Look up a string. -/
def find (m : Directory) (s : List UInt8) : Option (Name × Entry) :=
  (Name.ofString s).bind fun n ↦ (m.entries.lookup n).map fun e ↦ (n, e)

/-- Map `n` to `e`, if it is there already or there is room for it. -/
def put (m : Directory) (n : Name) (e : Entry) : Directory :=
  if h : n ∈ m.entries ∨ m.entries.keys.card < fsMaxFiles then
    { entries := m.entries.insert n e
      card_le := by
        have hkeys : (m.entries.insert n e).keys = insert n m.entries.keys := by
          ext a
          simp [Finmap.mem_keys]
        rw [hkeys]
        rcases h with h | h
        · rw [Finset.insert_eq_of_mem (Finmap.mem_keys.mpr h)]
          exact m.card_le
        · exact Nat.le_trans (Finset.card_insert_le _ _) h }
  else m

/-- Remove `n`. -/
def remove (m : Directory) (n : Name) : Directory where
  entries := m.entries.erase n
  card_le := by
    rw [Finmap.keys_erase]
    exact Nat.le_trans (Finset.card_erase_le) m.card_le

/-! ## The calls -/

/-- Create an entry. -/
def new (m : Directory) (directory : Bool) : Option (List UInt8) → Int × Directory
  | none => (-1, m)
  | some buf =>
      match Name.ofString (cstr buf) with
      | none => (-1, m)
      | some n =>
          if n ∈ m.entries then (-2, m)
          else if m.entries.keys.card < fsMaxFiles then (0, m.put n (.empty directory))
          else (-3, m)

/-- Give an entry the contents that `f` computes from its old ones. -/
def modify (m : Directory) (file : List UInt8) (data : Option (List UInt8))
    (f : Entry → List UInt8 → Int × Option Entry) : Int × Directory :=
  match m.find (cstr file), data with
  | some (n, e), some src => ((f e src).1, (f e src).2.elim m (m.put n))
  | _, _ => (-1, m)

/-- New contents for an entry, and the code that goes with them, if they are not too many. -/
def store (e : Entry) (data : List UInt8) (code : Int) : Int × Option Entry :=
  if h : data.length ≤ fsMaxFilesize then (code, some ⟨e.directory, data, h⟩) else (-2, none)

/-- What a call does, and what its caller sees. -/
def exec (m : Directory) : FsCall (List UInt8) → Outcome × Directory
  | .create name => (m.new false name).map .ofCode id
  | .mkdir name => (m.new true name).map .ofCode id
  | .delete name =>
      match m.find (cstr name) with
      | none => (.ofCode (-1), m)
      | some (n, _) => (.ofCode 0, m.remove n)
  | .rmdir name =>
      match m.find (cstr name) with
      | none => (.ofCode (-1), m)
      | some (n, e) => if e.directory then (.ofCode 0, m.remove n) else (.ofCode (-2), m)
  | .chdir none => (.ofCode (-1), m)
  | .chdir (some name) =>
      if cstr name = [0x2F] ∨ cstr name = [0x2E, 0x2E] then (.ofCode 0, m)
      else match m.find (cstr name) with
        | none => (.ofCode (-1), m)
        | some (_, e) => (.ofCode (if e.directory then 0 else -2), m)
  | .exist name => (.ofCode (if (m.find (cstr name)).isSome then 1 else 0), m)
  | .count => (.ofCode m.entries.keys.card, m)
  | .write file data size =>
      (m.modify file data fun e src ↦
        if size ≤ fsMaxFilesize then store e (src.take size) size else (-2, none)).map .ofCode id
  | .append file data size =>
      (m.modify file data fun e src ↦
        if size = 0 then (-1, none) else store e (e.data ++ src.take size) size).map .ofCode id
  | .truncate file => (m.modify file (some []) fun e _ ↦ store e [] 0).map .ofCode id
  | .read file buffer size offset =>
      match m.find (cstr file), buffer with
      | some (_, e), some dest =>
          let n := min size (e.data.length - offset)
          (⟨n, some ((e.data.drop offset).take n ++ dest.drop n)⟩, m)
      | _, _ => (⟨-1, buffer⟩, m)
  | .getSize file => (.ofCode ((m.find (cstr file)).elim 0 fun e ↦ e.2.data.length), m)
  | .isDir file =>
      (.ofCode ((m.find (cstr file)).elim 0 fun e ↦ if e.2.directory then 1 else 0), m)

/-- One step of a directory.  What other clients of the heap do does not concern it. -/
def Step (m : Directory) : Act (List UInt8) → Directory → Prop
  | .fs _ c o, m' => m.exec c = (o, m')
  | .other _, m' => m' = m

/-- The name of the entry that a call may change. -/
def target : FsCall (List UInt8) → Option (List UInt8)
  | .create name | .mkdir name => name.map cstr
  | .delete name | .rmdir name => some (cstr name)
  | .write file _ _ | .append file _ _ | .truncate file => some (cstr file)
  | _ => none

/-! ## Looking up -/

variable {m : Directory} {n k : Name} {e : Entry} {s : List UInt8}

theorem ofString_eq_some_iff : Name.ofString s = some n ↔ n.chars = s := by
  unfold Name.ofString
  constructor
  · intro h
    split at h
    · cases h
      rfl
    · cases h
  · rintro rfl
    exact dif_pos ⟨n.ne_nil, n.short, n.noNul⟩

theorem ofString_eq_none_iff (hs : 0 ∉ s) :
    Name.ofString s = none ↔ s = [] ∨ fsMaxFilename ≤ s.length := by
  by_cases h : s ≠ [] ∧ s.length < fsMaxFilename
  · have hsome : Name.ofString s = some ⟨s, h.1, h.2, hs⟩ := ofString_eq_some_iff.mpr rfl
    rw [hsome]
    refine ⟨fun h ↦ (by cases h), fun hbad ↦ ?_⟩
    rcases hbad with hnil | hlong
    · exact absurd hnil h.1
    · exact absurd h.2 (Nat.not_lt.mpr hlong)
  · have hnone : Name.ofString s = none := dif_neg fun h' ↦ h ⟨h'.1, h'.2.1⟩
    rw [hnone, ← not_iff_not, not_or, Nat.not_le]
    exact ⟨fun h ↦ absurd rfl h, fun h' ↦ absurd h' h⟩

theorem find_chars : m.find n.chars = (m.entries.lookup n).map fun e ↦ (n, e) := by
  rw [find, ofString_eq_some_iff.mpr rfl, Option.bind_some]

/-- Looking up a map after a change. -/
theorem lookup_put (h : n ∈ m.entries ∨ m.entries.keys.card < fsMaxFiles) :
    (m.put n e).entries.lookup k = if k = n then some e else m.entries.lookup k := by
  rw [put, dif_pos h]
  by_cases hk : k = n
  · rw [if_pos hk, hk, Finmap.lookup_insert]
  · rw [if_neg hk, Finmap.lookup_insert_of_ne _ hk]

theorem lookup_remove :
    (m.remove n).entries.lookup k = if k = n then none else m.entries.lookup k := by
  rw [remove]
  by_cases hk : k = n
  · rw [if_pos hk, hk, Finmap.lookup_erase]
  · rw [if_neg hk, Finmap.lookup_erase_ne hk]

/-! ## Changing an entry -/

variable {file src data : List UInt8} {f : Entry → List UInt8 → Int × Option Entry} {code : Int}

theorem modify_missing {data : Option (List UInt8)} (h : m.find (cstr file) = none ∨ data = none) :
    m.modify file data f = (-1, m) := by
  rcases h with h | rfl
  · simp only [modify, h]
  · cases hfind : m.find (cstr file) <;> simp only [modify, hfind]

theorem modify_some (h : m.find (cstr file) = some (n, e)) :
    m.modify file (some src) f = ((f e src).1, (f e src).2.elim m (m.put n)) := by
  simp only [modify, h]

theorem store_of_le (h : data.length ≤ fsMaxFilesize) :
    store e data code = (code, some ⟨e.directory, data, h⟩) := dif_pos h

theorem store_of_lt (h : fsMaxFilesize < data.length) : store e data code = (-2, none) :=
  dif_neg (Nat.not_le.mpr h)

/-! ## What a call leaves alone -/

theorem find_eq_some (h : m.find s = some (n, e)) : n.chars = s := by
  obtain ⟨k, hk, h⟩ := Option.bind_eq_some_iff.mp h
  obtain ⟨_, _, ⟨⟩⟩ := Option.map_eq_some_iff.mp h
  exact ofString_eq_some_iff.mp hk

theorem lookup_put_of_ne (hk : n.chars ≠ k.chars) :
    (m.put n e).entries.lookup k = m.entries.lookup k := by
  rw [put]
  split
  · exact Finmap.lookup_insert_of_ne _ fun h ↦ hk (by rw [h])
  · rfl

theorem lookup_remove_of_ne (hk : n.chars ≠ k.chars) :
    (m.remove n).entries.lookup k = m.entries.lookup k :=
  lookup_remove.trans (if_neg fun h ↦ hk (by rw [h]))

theorem lookup_new {directory : Bool} {name : Option (List UInt8)}
    (hk : name.map cstr ≠ some k.chars) :
    (m.new directory name).2.entries.lookup k = m.entries.lookup k := by
  cases name with
  | none => rfl
  | some buf =>
      rw [new]
      split
      · rfl
      · rename_i n hn
        rw [Option.map_some, ← ofString_eq_some_iff.mp hn] at hk
        split
        · rfl
        · split
          · exact lookup_put_of_ne fun h ↦ hk (congrArg some h)
          · rfl

theorem lookup_modify {data : Option (List UInt8)} (hk : some (cstr file) ≠ some k.chars) :
    (m.modify file data f).2.entries.lookup k = m.entries.lookup k := by
  cases hfind : m.find (cstr file) with
  | none => rw [modify_missing (.inl hfind)]
  | some ne =>
      cases data with
      | none => rw [modify_missing (.inr rfl)]
      | some src =>
          rw [modify_some hfind]
          rw [← find_eq_some hfind] at hk
          cases (f ne.2 src).2 with
          | none => rfl
          | some e => exact lookup_put_of_ne fun h ↦ hk (congrArg some h)

/-- **A call changes no entry but the one it names.** -/
theorem lookup_exec {c : FsCall (List UInt8)} (hk : target c ≠ some k.chars) :
    (m.exec c).2.entries.lookup k = m.entries.lookup k := by
  cases c with
  | create name => exact lookup_new hk
  | mkdir name => exact lookup_new hk
  | delete name =>
      rw [exec]
      split
      · rfl
      · rename_i n e hfind
        refine lookup_remove_of_ne fun h ↦ hk ?_
        rw [target, ← find_eq_some hfind, h]
  | rmdir name =>
      rw [exec]
      split
      · rfl
      · rename_i n e hfind
        split
        · refine lookup_remove_of_ne fun h ↦ hk ?_
          rw [target, ← find_eq_some hfind, h]
        · rfl
  | chdir name =>
      cases name with
      | none => rfl
      | some buf =>
          rw [exec]
          split
          · rfl
          · split <;> rfl
  | read file buffer size offset =>
      cases buffer <;> cases hfind : m.find (cstr file) <;> simp only [exec, hfind]
  | write file data size => exact lookup_modify hk
  | append file data size => exact lookup_modify hk
  | truncate file => exact lookup_modify hk
  | exist name => rfl
  | count => rfl
  | getSize file => rfl
  | isDir file => rfl

end Directory

end KontolOS.Fs
