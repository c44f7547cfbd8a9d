import KontolOS.Lib.Document
import KontolOS.Shell.NanoRun

/-!
# The editor as an editor of a document

`Represents e d`: the first `num_lines` lines of the editor are the lines of the document `d`,
and `cur_line` and `cur_col` are its row and its column.  Each key does to the editor what the
edit that it stands for does to the document, and the others do nothing (`docKey`).  Hence a
run of keys ends in the editor of the document after these keys (`run_represents`), as long as no
backspace on the way joins lines that do not fit into one.
-/

namespace KontolOS.Shell

open KontolOS.Lib KontolOS.Memory KontolOS.Strings KontolOS.Fs

variable {tight : Prop} {s : Sys} {others : Live} {filename : List UInt8} {e : Nano}
  {d : Doc UInt8} {keys : List UInt8}

/-- A document after a key. -/
def docKey (d : Doc UInt8) (c : UInt8) : Doc UInt8 :=
  (keyEdit c).elim d (d.edit nanoWidth nanoMaxLines)

/-- No backspace among these keys joins two lines that do not fit into one. -/
def JoinsFit (d : Doc UInt8) : List UInt8 → Prop
  | [] => True
  | c :: keys => (c = 8 → d.JoinFits nanoWidth) ∧ JoinsFit (docKey d c) keys

/-- The editor has the lines and the cursor of the document. -/
structure Represents (e : Nano) (d : Doc UInt8) : Prop where
  /-- `num_lines` -/
  numLines : e.numLines = d.lines.length
  /-- `cur_line` -/
  curLine : e.curLine = d.row
  /-- `cur_col` -/
  curCol : e.curCol = d.col
  /-- there are not too many lines -/
  height_le : d.lines.length ≤ nanoMaxLines
  /-- `lines`: all of them are allocated, and the first hold those of the document -/
  lines : ∃ str, LinesHold e.lines str ∧ ∀ i l, d.lines[i]? = some l → str i = l

/-- An editor that shows a text represents the document of the text. -/
theorem shows_iff {t : Text UInt8} : Shows e t ↔ Represents e t.doc := by
  constructor
  · intro h
    obtain ⟨str, hs, ht⟩ := h.lines
    exact ⟨h.numLines, h.curLine, h.curCol, h.height_le, str, hs, textAt_iff.mp ht⟩
  · intro h
    obtain ⟨str, hs, ht⟩ := h.lines
    exact ⟨h.numLines, h.curLine, h.curCol, h.height_le, str, hs, textAt_iff.mpr ht⟩

theorem doc_typed (t : Text UInt8) (c : UInt8) : (typed t c).doc = docKey t.doc c := by
  rw [typed, docKey]
  cases keyEdit c with
  | none => rfl
  | some e => exact Text.doc_edit e

/-- Only the backspace key joins lines. -/
theorem keyEdit_eq_backspace_iff {c : UInt8} : keyEdit c = some .backspace ↔ c = 8 := by
  rw [keyEdit]
  constructor
  · intro h
    by_contra hc
    rw [if_neg hc] at h
    split at h
    · cases h
    · split at h <;> cases h
  · exact fun hc ↦ if_pos hc

/-- **The step lemma**: a key does to the editor what it does to the document. -/
theorem Represents.key (h : Represents e d) (hI : Inv tight s others)
    (hname : ∃ n, Holds filename n) (junk : Mem) {c : UInt8}
    (hj : c = 8 → d.JoinFits nanoWidth) :
    ∃ e' s', nanoKey junk filename c e s = some (e', s') ∧ Inv tight s' others ∧
      Represents e' (docKey d c) ∧ (c ≠ 24 → e'.running = e.running) := by
  obtain ⟨t, rfl⟩ := Text.exists_doc_eq d
  have hjoin : keyEdit c = some .backspace → t.JoinFits nanoWidth :=
    fun hc ↦ Text.joinFits_of_doc (hj (keyEdit_eq_backspace_iff.mp hc))
  obtain ⟨e', s', hstep, hI', hS', hrun⟩ := (shows_iff.mpr h).key hI hname junk hjoin
  refine ⟨e', s', hstep, hI', ?_, hrun⟩
  rw [← doc_typed]
  exact shows_iff.mp hS'

/-- **The run lemma**: a run of keys ends in the document after these keys. -/
theorem Represents.run (h : Represents e d) (hI : Inv tight s others)
    (hname : ∃ n, Holds filename n) (hj : JoinsFit d keys) {y : Nano × Sys}
    (hr : Run (NanoStep filename) (e, s) keys y) :
    Represents y.1 (keys.foldl docKey d) ∧ Inv tight y.2 others := by
  induction keys generalizing e s d with
  | nil =>
      cases hr
      exact ⟨h, hI⟩
  | cons c keys ih =>
      cases hr with
      | cons hstep hrest =>
          obtain ⟨_, junk, hkey⟩ := hstep
          obtain ⟨e', s', hkey', hI', h', _⟩ := h.key hI hname junk hj.1
          cases hkey'.symm.trans hkey
          exact ih h' hI' hj.2 hrest

/-- Every key is processed, up to the one that ends the editor. -/
theorem Represents.exists_run (h : Represents e d) (hI : Inv tight s others)
    (hname : ∃ n, Holds filename n) (hj : JoinsFit d keys) (hrunning : e.running = true)
    (hexit : 24 ∉ keys.dropLast) : ∃ e' s', Run (NanoStep filename) (e, s) keys (e', s') := by
  induction keys generalizing e s d with
  | nil => exact ⟨e, s, .nil _⟩
  | cons c keys ih =>
      obtain ⟨e', s', hkey, hI', h', hrun⟩ := h.key hI hname (fun _ ↦ 0) hj.1
      have hstep : NanoStep filename (e, s) c (e', s') := ⟨hrunning, _, hkey⟩
      cases keys with
      | nil => exact ⟨e', s', .single hstep⟩
      | cons k keys =>
          rw [List.dropLast_cons_cons, List.mem_cons, not_or] at hexit
          have hrunning' : e'.running = true := (hrun (Ne.symm hexit.1)).trans hrunning
          obtain ⟨e'', s'', hrest⟩ := ih h' hI' hj.2 hrunning' hexit.2
          exact ⟨e'', s'', .cons hstep hrest⟩

/-- Keys leave the lines that they do not name as they are and where they are. -/
theorem othersKept_docKey (d : Doc UInt8) (c : UInt8) : d.OthersKept (docKey d c) := by
  rw [docKey]
  cases keyEdit c with
  | none =>
      obtain ⟨t, rfl⟩ := Text.exists_doc_eq d
      exact Text.othersKept_refl
  | some e => exact d.othersKept_edit nanoWidth nanoMaxLines e

/-- **The editor refines the editor of a document.**  After any use of the filesystem, an editor
that represents a document processes every sequence of keys in which Ctrl+X comes last, if at
all, and then represents the document after these keys; no backspace among them must join lines
that do not fit into one.  Every key keeps the lines that it does not name. -/
theorem run_represents {w₀ w : World} {acts : List (Act (Option Slot))} (hb : Booted w₀)
    (hr : Run WorldStep w₀ acts w) (hname : ∃ n, Holds filename n) (h : Represents e d)
    (hj : JoinsFit d keys) :
    (∀ e' s', Run (NanoStep filename) (e, w.sys) keys (e', s') →
      Represents e' (keys.foldl docKey d)) ∧
    (e.running = true → 24 ∉ keys.dropLast →
      ∃ e' s', Run (NanoStep filename) (e, w.sys) keys (e', s')) ∧
    ∀ c, (keys.foldl docKey d).OthersKept (docKey (keys.foldl docKey d) c) := by
  have hI := Inv.run hb.inv.1 hr
  refine ⟨fun e' s' hrun ↦ ?_, fun hrunning hexit ↦ ?_, fun c ↦ ?_⟩
  · exact (h.run hI hname hj hrun).1
  · exact h.exists_run hI hname hj hrunning hexit
  · exact othersKept_docKey _ c

/-- Typing a character, breaking the line, joining it again and leaving. -/
theorem run_represents_join : ∃ e s e' s',
    Represents e ⟨[[]], 0, 0, Nat.one_pos, Nat.zero_le _⟩ ∧
      Run (NanoStep [0x61, 0]) (e, s) [0x61, 13, 8, 24] (e', s') ∧
      Represents e' ⟨[[0x61]], 0, 1, Nat.one_pos, Nat.le_refl 1⟩ := by
  have hname : ∃ n, Holds [0x61, 0] n := ⟨[0x61], by decide, [], rfl⟩
  have hall : ∀ p ∈ List.replicate nanoMaxLines heapStart, p ≠ null := fun p hp ↦ by
    rw [List.eq_of_mem_replicate hp]
    decide
  obtain ⟨ls, hlines⟩ : ∃ ls, LinesHold ls fun _ ↦ [] :=
    ⟨_, linesHold_nanoLine (fun _ ↦ 0) List.length_replicate hall⟩
  have h : Represents ⟨ls, (1 : Nat), 0, 0, false, true⟩
      ⟨[[]], 0, 0, Nat.one_pos, Nat.zero_le _⟩ := by
    refine ⟨rfl, rfl, rfl, by decide, _, hlines, fun i l hl ↦ ?_⟩
    exact (List.mem_singleton.mp (List.mem_of_getElem? hl)).symm
  have hj : JoinsFit ⟨[[]], 0, 0, Nat.one_pos, Nat.zero_le _⟩ [0x61, 13, 8, 24] :=
    ⟨nofun, nofun, fun _ _ _ ↦ by decide, nofun, trivial⟩
  obtain ⟨hrep, hex, _⟩ := run_represents
    (booted_bootWorld (w := Clients.init fun _ ↦ 0) ⟨_, [], .nil _⟩) (.nil _) hname h hj
  obtain ⟨e', s', hrun⟩ := hex rfl (by decide)
  exact ⟨_, _, e', s', h, hrun, hrep e' s' hrun⟩

end KontolOS.Shell
