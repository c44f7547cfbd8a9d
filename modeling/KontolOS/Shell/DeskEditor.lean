import KontolOS.Shell.DeskFiles
import KontolOS.Shell.NanoCommand

/-!
# The editor of the abstract shell

From a state in which the memory suffices, the main loop of `cmd_nano` does what `edit` does: the
text follows the keys, Ctrl+S stores it in the file of the map, and Ctrl+X leaves with the keys
behind it.  Where the keys do not suffice, the loop waits, and what the abstract editor shows is on
the screen.
-/

namespace KontolOS.Shell

open KontolOS.Lib KontolOS.Memory KontolOS.Strings KontolOS.Drivers KontolOS.Fs Function

variable {x : Surroundings} {k j : Nat} {keys filename n : List UInt8} {files : Directory}
  {e e' : Nano} {s s' : Sys} {t : Text UInt8} {m : Bool} {v : Vga} {b₀ : Nat → UInt16}
  {others : Live} {ptrs : List Nat} {junk : Mem} {c : UInt8} {cwd : List UInt8}

/-! ## Ctrl+S -/

/-- Without a file, nothing is stored. -/
theorem save_missing (hR : Refines s files) (hn : 0 ∉ n) (hslot : slotOf s n = none) :
    save n t files = files := by
  have hfind : files.find (cstr (n ++ [0])) = none := by
    rw [cstr_word hn]
    exact hR.find_none hslot
  rw [save, Directory.exec, Directory.modify_missing (.inl hfind)]
  rfl

/-- The text becomes the contents of the file. -/
theorem save_eq {nm : Name} {entry : Entry} (hn : 0 ∉ n) (hfind : files.find n = some (nm, entry))
    (hmax : (unlines t.lines).length ≤ fsMaxFilesize) :
    save n t files = files.put nm ⟨entry.directory, unlines t.lines, hmax⟩ := by
  have hword : files.find (cstr (n ++ [0])) = some (nm, entry) := by rw [cstr_word hn, hfind]
  rw [save, Directory.exec, Directory.modify_some hword]
  simp only [hmax, if_true, List.take_length, Directory.store_of_le hmax, Prod.map_snd, id_eq,
    Option.elim_some]

/-- The text is stored in the file. -/
theorem save_found {i : Slot} (hR : Refines s files) (hT : TableOk s) (hT' : TableOk s')
    (hn : 0 ∉ n) (hslot : slotOf s n = some i) (hlen : (unlines t.lines).length ≤ textMax)
    (hst : Stored s s' i (unlines t.lines)) :
    ∃ nm e, nm ∈ files.entries ∧ save n t files = files.put nm e ∧ e.data = unlines t.lines ∧
      Refines s' (save n t files) := by
  obtain ⟨nm, e, rfl, hfind, hdir, _⟩ := hR.find_some hT hslot
  have hsave := save_eq hn hfind (Nat.le_trans hlen (by decide))
  have hlookup := lookup_of_find hfind
  refine ⟨nm, _, Finmap.mem_of_lookup_eq_some hlookup, hsave, rfl, ?_⟩
  rw [hsave]
  exact hR.stored hT hT' hslot hlookup hdir hst

/-! ## Keys -/

/-- Only Ctrl+S works on the files. -/
theorem sys_of_nanoKey (hc : c ≠ 19) (h : nanoKey junk filename c e s = some (e', s')) :
    s' = s := by
  obtain ⟨⟨e₁, s₁⟩, hhandle, h⟩ := Option.bind_eq_some_iff.mp h
  obtain ⟨e₂, _, heq⟩ := Option.bind_eq_some_iff.mp h
  cases heq
  have hmap : ∀ {o : Option Nano}, o.map (·, s) = some (e₁, s') → s' = s := by
    intro o ho
    obtain ⟨_, _, heq⟩ := Option.map_eq_some_iff.mp ho
    cases heq
    rfl
  rw [nanoHandle, if_neg hc] at hhandle
  split at hhandle
  · cases hhandle
    rfl
  · split at hhandle
    · exact hmap hhandle
    · split at hhandle
      · exact hmap hhandle
      · split at hhandle
        · exact hmap hhandle
        · cases hhandle
          rfl

/-- What the editor keeps up. -/
structure Editing (ptrs : List Nat) (others : Live) (s : Sys) (files : Directory) (e : Nano)
    (t : Text UInt8) (modified : Bool) : Prop where
  /-- there is memory -/
  modest : Modest blockMax ptrs s others
  /-- the files are those of the map -/
  refines : Refines s files
  /-- which are what the commands expect -/
  tidy : Tidy files
  /-- the text is in the lines -/
  shows : Shows e t
  /-- and has the mark -/
  mark : e.modified = modified
  /-- lines can be joined -/
  joinable : t.Joinable nanoWidth
  /-- and consist of what can be typed -/
  printable : t.All Printable

namespace Editing

theorem drawable (h : Editing ptrs others s files e t m) : Drawable e := by
  have hok : NanoOk others (e, s) := ⟨h.modest.loose, t, h.shows, h.joinable⟩
  have hnull : PartlyNull others (e, s) :=
    ⟨fun _ ↦ false, (e, s), ⟨e.lines, rfl, Deref.blanked_nowhere.mpr rfl⟩, hok⟩
  exact hnull.drawable

theorem length_le (h : Editing ptrs others s files e t m) : (unlines t.lines).length ≤ textMax :=
  length_unlines_le h.shows.height_le fun l hl ↦ lt_lineLen (h.shows.fits.width_le l hl)

/-- What is saved can be typed. -/
theorem mem_unlines (h : Editing ptrs others s files e t m) (hc : c ∈ unlines t.lines) :
    c = 0x0A ∨ Printable c := by
  by_cases hnl : c = 0x0A
  · exact .inl hnl
  · obtain ⟨l, hl, hmem⟩ := exists_of_mem_joinLines hnl hc
    exact .inr (h.printable l hl c hmem)

/-- **Ctrl+S** -/
theorem save (h : Editing ptrs others s files e t m) (hfit : Affords blockMax (ptrs.length + 1))
    (hn : Holds filename n) (junk : Mem) :
    ∃ e' s' others', nanoKey junk filename 19 e s = some (e', s') ∧ e'.running = e.running ∧
      Editing ptrs others' s' (Shell.save n t files) e' t (m && (files.find n).isNone) ∧
      s'.currentDir = s.currentDir := by
  obtain ⟨e', s', others', hsave, hS, hrunning, hm, hwhat⟩ :=
    nanoSave_modest h.modest hfit hn h.shows junk
  have hkey : nanoKey junk filename 19 e s = some (e', s') := by
    simp only [nanoKey, nanoHandle, if_true, hsave, hS.nanoClamp_eq, Option.bind_eq_bind,
      Option.bind_some]
    rfl
  refine ⟨e', s', others', hkey, hrunning, ?_⟩
  rcases hwhat with ⟨hslot, hsame, hmark⟩ | ⟨i, hslot, hst, hmark⟩
  · have hkept : (m && (files.find n).isNone) = e'.modified := by
      rw [h.refines.find_none hslot, hmark, h.mark]
      exact Bool.and_true m
    rw [save_missing h.refines hn.1 hslot, hkept]
    exact ⟨⟨hm, refines_of_sameFiles h.refines hsame, h.tidy, hS, rfl, h.joinable, h.printable⟩, by
      rw [hsame.sys]⟩
  · obtain ⟨nm, entry, hmem, hput, hdata, hR⟩ := save_found h.refines h.modest.inv.table
      hm.inv.table hn.1 hslot h.length_le hst
    obtain ⟨_, _, _, hfind, _⟩ := h.refines.find_some h.modest.inv.table hslot
    have hcleared : (m && (files.find n).isNone) = e'.modified := by
      rw [hfind, hmark]
      exact Bool.and_false m
    rw [hcleared]
    refine ⟨⟨hm, hR, ?_, hS, rfl, h.joinable, h.printable⟩, hst.frame.cwd⟩
    rw [hput]
    refine h.tidy.put (h.tidy.name nm hmem) ?_ ?_
    · rw [hdata]
      exact fun c hc ↦ h.mem_unlines hc
    · rw [hdata]
      exact h.length_le

/-- **Any other key** -/
theorem key (h : Editing ptrs others s files e t m) (hn : Holds filename n) (hc : c ≠ 19)
    (junk : Mem) :
    ∃ e', nanoKey junk filename c e s = some (e', s) ∧ (c ≠ 24 → e'.running = e.running) ∧
      Editing ptrs others s files e' (typed t c) (m || keyChanges t c) := by
  obtain ⟨e', s', hkey, _, hS, hrunning⟩ := h.shows.key h.modest.loose ⟨n, hn⟩ junk
    fun _ ↦ h.joinable.joinFits
  obtain rfl := sys_of_nanoKey hc hkey
  have hmark := h.shows.modified_key hc hkey
  rw [h.mark] at hmark
  exact ⟨e', hkey, hrunning, h.modest, h.refines, h.tidy, hS, hmark,
    joinable_typed h.joinable h.shows.fits, all_typed h.printable c⟩

end Editing

/-! ## The screen -/

theorem ordinary_of_printable (hc : Printable c) : Ordinary c := by
  rw [ordinary_iff]
  refine ⟨?_, ?_, ?_, ?_⟩ <;>
  · rintro rfl
    exact absurd hc.1 (by decide)

/-- The title of a file whose name was typed in a line ends on the screen. -/
theorem exists_staysTo_titleText (hn : n.length < shellBufferSize) (hnl : 0x0A ∉ n) (m : Bool) :
    ∃ stop < vgaHeight * vgaWidth, StaysTo stop (titleText n m) 0 := by
  have hpad : titlePad n.length ≤ 40 := by
    have hlen : n.length < 256 := hn
    rw [titlePad, add32_of_lt (by omega), toInt_of_lt (by omega)]
    omega
  have hprogram : (cstr (literal "  KontolOS nano - ")).length = 18 := by decide
  have hmark : (if m then cstr (literal " [modified]") else []).length ≤ 11 := by
    cases m <;> decide
  refine ⟨(titleText n m).length * 4, ?_, staysTo_of_length (fun hmem ↦ ?_) (by rw [Nat.zero_add])⟩
  · change n.length < 256 at hn
    change _ < 25 * 80
    simp only [titleText, List.length_append, List.length_replicate, hprogram]
    omega
  · simp only [titleText, List.mem_append] at hmem
    rcases hmem with ((hmem | hmem) | hmem) | hmem
    · exact absurd hmem (by decide)
    · exact hnl hmem
    · cases m <;> exact absurd hmem (by decide)
    · exact absurd (List.eq_of_mem_replicate hmem) (by decide)

/-- A line of the text when the first `i` are drawn. -/
def drawnLine (t : Text UInt8) (i row : Nat) : Option (List UInt8) :=
  if 1 ≤ row ∧ row ≤ i then t.lines[row - 1]? else none

/-- The first `i` lines are drawn below the title. -/
def Drawn (n : List UInt8) (t : Text UInt8) (m : Bool) (i : Nat) (p : Sheet UInt8) : Prop :=
  ∀ k, p.cell k = ((drawnLine t i (k / vgaWidth)).bind (·[k % vgaWidth]?)).getD
    ((typeText ⟨0, fun _ ↦ 0x20⟩ (titleText n m)).cell k)

/-- Before the loop there is the title. -/
theorem drawn_zero (n : List UInt8) (t : Text UInt8) (m : Bool) :
    Drawn n t m 0 (typeText ⟨0, fun _ ↦ 0x20⟩ (titleText n m)) := by
  intro k
  have hnot : ¬ (1 ≤ k / vgaWidth ∧ k / vgaWidth ≤ 0) := by omega
  rw [drawnLine, if_neg hnot]
  rfl

/-- **The step lemma of the loop over the lines.** -/
theorem Drawn.succ {p : Sheet UInt8} {i : Nat} {l : List UInt8} (hp : Drawn n t m i p)
    (hl : t.lines[i]? = some l) (hord : ∀ c ∈ l, Ordinary c) (hlen : l.length ≤ vgaWidth) :
    Drawn n t m (i + 1) (typeText ⟨(i + 1) * vgaWidth, p.cell⟩ l) := by
  intro k
  rw [cell_typeText_row hord hlen, hp k]
  generalize k / vgaWidth = row
  rcases Nat.lt_trichotomy row (i + 1) with hlt | rfl | hgt
  · have hiff : 1 ≤ row ∧ row ≤ i + 1 ↔ 1 ≤ row ∧ row ≤ i := by omega
    rw [if_neg (Nat.ne_of_lt hlt), drawnLine, drawnLine]
    simp only [hiff]
    rfl
  · have hnot : ¬ (1 ≤ i + 1 ∧ i + 1 ≤ i) := by omega
    have hin : 1 ≤ i + 1 ∧ i + 1 ≤ i + 1 := by omega
    rw [if_pos rfl, drawnLine, if_neg hnot, drawnLine, if_pos hin, Nat.add_sub_cancel, hl]
    rfl
  · have hnot : ¬ (1 ≤ row ∧ row ≤ i) := by omega
    have hnot' : ¬ (1 ≤ row ∧ row ≤ i + 1) := by omega
    rw [if_neg (Nat.ne_of_gt hgt), drawnLine, if_neg hnot, drawnLine, if_neg hnot']
    rfl

/-- When all lines and the status bar are drawn, the screen is that of the abstract editor. -/
theorem Drawn.cell_statusText {p : Sheet UInt8} {row col : Nat}
    (hp : Drawn n t m (min 22 t.lines.length) p) (hrow : row = t.above.length)
    (hcol : col = t.left.length) (hrow' : row < nanoMaxLines) (hcol' : col ≤ nanoWidth) :
    (typeText ⟨23 * vgaWidth, p.cell⟩ (statusText row col)).cell = editorCell n t m := by
  have hstays := (staysTo_iff fun c hc ↦ ordinary_statusText hc).mp (staysTo_statusText hrow' hcol')
  change 23 * 80 + 0 + _ ≤ 24 * 80 - 1 at hstays
  have hlen : (statusText row col).length ≤ vgaWidth := by
    change _ ≤ 80
    omega
  funext k
  rw [cell_typeText_row (fun c hc ↦ ordinary_statusText hc) hlen, hp k, editorCell, hrow, hcol]
  generalize k / vgaWidth = i
  by_cases hbar : i = 23
  · have hnot : ¬ (1 ≤ i ∧ i ≤ min 22 t.lines.length) := by omega
    rw [if_pos hbar, if_pos hbar, drawnLine, if_neg hnot]
    rfl
  · rw [if_neg hbar, if_neg hbar, drawnLine]
    by_cases hin : 1 ≤ i ∧ i ≤ 22
    · rw [if_pos hin]
      split
      · rfl
      next hnot => rw [List.getElem?_eq_none (by omega)]; rfl
    · have hnot : ¬ (1 ≤ i ∧ i ≤ min 22 t.lines.length) := by omega
      rw [if_neg hin, if_neg hnot]
      rfl

/-- A line of the text is drawn. -/
theorem Editing.drawn_line {p : Sheet UInt8} {i : Nat} (h : Editing ptrs others s files e t m)
    (hi : i < min 22 t.lines.length) (hp : Drawn n t m i p) :
    ∃ stop < vgaHeight * vgaWidth, StaysTo stop (lineText e.lines i) ((i + 1) * vgaWidth + 0) ∧
      Drawn n t m (i + 1) (typeText ⟨(i + 1) * vgaWidth + 0, p.cell⟩ (lineText e.lines i)) := by
  have hlt : i < t.lines.length := Nat.lt_of_lt_of_le hi (Nat.min_le_right _ _)
  have hl : t.lines[i]? = some t.lines[i] := List.getElem?_eq_getElem hlt
  have hmem : t.lines[i] ∈ t.lines := List.getElem_mem hlt
  have hord : ∀ c ∈ t.lines[i], Ordinary c :=
    fun c hc ↦ ordinary_of_printable (h.printable _ hmem c hc)
  have hwidth : t.lines[i].length ≤ 79 := h.shows.fits.width_le _ hmem
  have hstop : (i + 1) * vgaWidth + 0 + t.lines[i].length ≤ vgaHeight * vgaWidth - 1 := by
    have hrow : (i + 1) * 80 ≤ 22 * 80 := Nat.mul_le_mul_right 80 (by omega)
    change (i + 1) * 80 + 0 + _ ≤ 1999
    omega
  rw [h.shows.lineText_eq hl]
  exact ⟨vgaHeight * vgaWidth - 1, by decide, (staysTo_iff hord).mpr hstop,
    hp.succ hl hord (Nat.le_succ_of_le hwidth)⟩

/-- The cursor is set in the text, where that row is on the screen. -/
theorem images_editorCursor {w : Vga} {cell : Nat → UInt8}
    (hw : Images ⟨23 * vgaWidth + (statusText t.above.length t.left.length).length, cell⟩ w)
    (hcol : t.left.length < vgaWidth) :
    Images ⟨editorCursor t, cell⟩ (vgaSetCursor (t.above.length + 1) t.left.length w) := by
  by_cases hrow : t.above.length + 1 < vgaHeight
  · rw [editorCursor, if_pos hrow]
    exact hw.vgaSetCursor hrow hcol
  · rw [vgaSetCursor, if_neg fun hin ↦ hrow hin.1, editorCursor, if_neg hrow]
    exact hw

/-- **The redraw shows what the abstract editor shows.** -/
theorem Editing.nanoDraw (h : Editing ptrs others s files e t m) (hn : Holds filename n)
    (hlen : n.length < shellBufferSize) (hnl : 0x0A ∉ n) (hv : Visible b₀ v) (start stop : UInt8) :
    ∃ v', Shell.nanoDraw start stop filename e v = some v' ∧ Visible b₀ v' ∧
      Images ⟨editorCursor t, editorCell n t m⟩ v' := by
  obtain ⟨v', hdraw, hv'⟩ := h.drawable.nanoDraw_visible hn hv start stop
  have hnum : min 22 e.numLines.toNat = min 22 t.lines.length := by
    rw [h.shows.numLines, Int.toNat_natCast]
  have hline : e.line = t.above.length := by
    rw [Nano.line, h.shows.curLine, Int.toNat_natCast]
  have hcol : e.curCol.toNat = t.left.length := by rw [h.shows.curCol, Int.toNat_natCast]
  have hrow' : t.above.length < nanoMaxLines := hline ▸ h.drawable.line_lt
  have hcol' : t.left.length ≤ nanoWidth := hcol ▸ h.drawable.col_le
  obtain ⟨last, hlast, htitle⟩ := exists_staysTo_titleText hlen hnl m
  have hbody : ∀ i p, i < min 22 e.numLines.toNat → Drawn n t m i p →
      ∃ stop < vgaHeight * vgaWidth, StaysTo stop (lineText e.lines i) ((i + 1) * vgaWidth + 0) ∧
        Drawn n t m (i + 1) (typeText ⟨(i + 1) * vgaWidth + 0, p.cell⟩ (lineText e.lines i)) :=
    fun i p hi hp ↦ h.drawn_line (hnum ▸ hi) hp
  rw [← h.mark] at htitle
  obtain ⟨p, w, hp, hw, hdrawn⟩ := h.drawable.nanoDraw_images hn htitle hlast
    (h.mark ▸ drawn_zero n t e.modified) hbody start stop v
  obtain rfl : v' = _ := Option.some.inj (hdraw.symm.trans hdrawn)
  refine ⟨_, hdrawn, hv', Images.vgaShowCursor ?_ start stop⟩
  rw [hnum] at hp
  rw [hline, hcol] at hw ⊢
  have hcell := hp.cell_statusText rfl rfl hrow' hcol'
  have hpos := pos_typeText (p := ⟨23 * vgaWidth + 0, p.cell⟩)
    fun c (hc : c ∈ statusText t.above.length t.left.length) ↦ ordinary_statusText hc
  have heq : typeText ⟨23 * vgaWidth + 0, p.cell⟩ (statusText t.above.length t.left.length) =
      ⟨23 * vgaWidth + (statusText t.above.length t.left.length).length, editorCell n t m⟩ :=
    Sheet.ext hpos hcell
  rw [heq] at hw
  exact images_editorCursor hw (Nat.lt_of_le_of_lt hcol' (by decide))

/-! ## The main loop -/

/-- The main loop of `cmd_nano` has come to what `edit` comes to. -/
inductive Edits (b₀ : Nat → UInt16) (ptrs : List Nat) (n dir : List UInt8) :
    Editor → Edited → Prop
  | /-- the files and the keys are the same -/
    left {files : Directory} {keys : List UInt8} {e : Nano} {s : Sys} {v : Vga} {others : Live}
      {t : Text UInt8} {m : Bool} (hv : Visible b₀ v)
      (h : Editing ptrs others s files e t m) (hdir : s.currentDir = dir) :
      Edits b₀ ptrs n dir (.left files keys) (.left (e, s) v keys)
  | /-- the files are the same, and what the abstract editor shows is on the screen -/
    waiting {files : Directory} {e : Nano} {s : Sys} {v : Vga} {others : Live} {t : Text UInt8}
      {m : Bool} (hv : Visible b₀ v) (himages : Images ⟨editorCursor t, editorCell n t m⟩ v)
      (h : Editing ptrs others s files e t m) (hdir : s.currentDir = dir) :
      Edits b₀ ptrs n dir (.waiting files t m) (.waiting (e, s) v)

/-- **The main loop** does what `edit` does. -/
theorem nanoEdit_spec (keys : List UInt8) (h : Editing ptrs others s files e t m)
    (hrunning : e.running = true)
    (hfit : Affords blockMax (ptrs.length + 1)) (hn : Holds filename n)
    (hlen : n.length < shellBufferSize) (hnl : 0x0A ∉ n) (hv : Visible b₀ v) :
    ∃ r, nanoEdit x filename k keys (e, s) v = some r ∧
      Edits b₀ ptrs n s.currentDir (edit n keys t m files) r := by
  induction keys generalizing k e t m s files others v with
  | nil =>
      obtain ⟨v', hdraw, hv', himages⟩ := h.nanoDraw hn hlen hnl hv (x.shape k).1 (x.shape k).2
      refine ⟨.waiting (e, s) v', ?_, .waiting hv' himages h rfl⟩
      simp only [nanoEdit, hrunning, hdraw, if_true, Option.bind_eq_bind, Option.bind_some]
      rfl
  | cons c keys ih =>
      obtain ⟨v₁, hdraw, hv₁, _⟩ := h.nanoDraw hn hlen hnl hv (x.shape k).1 (x.shape k).2
      have hunfold : nanoEdit x filename k (c :: keys) (e, s) v =
          (nanoKey (x.junk (k + 1)) filename c e s).bind fun y ↦
            nanoEdit x filename (k + 1) keys y v₁ := by
        simp only [nanoEdit, hrunning, hdraw, if_true, Option.bind_eq_bind, Option.bind_some]
      rw [hunfold, edit]
      by_cases hexit : c = 24
      · -- Ctrl+X: the next turn ends the loop before it draws
        subst hexit
        have hkey : nanoKey (x.junk (k + 1)) filename 24 e s =
            some ({ e with running := false }, s) := h.shows.exitKey _
        have hS : Shows { e with running := false } t :=
          ⟨h.shows.numLines, h.shows.curLine, h.shows.curCol, h.shows.height_le, h.shows.lines⟩
        have hleft : nanoEdit x filename (k + 1) keys ({ e with running := false }, s) v₁ =
            some (.left ({ e with running := false }, s) v₁ keys) := by cases keys <;> rfl
        rw [hkey, Option.bind_some, hleft, if_pos rfl]
        exact ⟨_, rfl, .left hv₁
          ⟨h.modest, h.refines, h.tidy, hS, h.mark, h.joinable, h.printable⟩ rfl⟩
      by_cases hsave : c = 19
      · subst hsave
        obtain ⟨e₁, s₁, others₁, hkey, hrun₁, h₁, hcwd⟩ := h.save hfit hn (x.junk (k + 1))
        rw [if_neg hexit, if_pos rfl, hkey, Option.bind_some, ← hcwd]
        exact ih h₁ (hrun₁.trans hrunning) hv₁
      · obtain ⟨e₁, hkey, hrun₁, h₁⟩ := h.key hn hsave (x.junk (k + 1))
        rw [if_neg hexit, if_neg hsave, hkey, Option.bind_some]
        exact ih h₁ ((hrun₁ hexit).trans hrunning) hv₁

/-! ## Opening a file -/

theorem fileLines_ne_nil (text : List UInt8) : fileLines text ≠ [] := by
  rw [fileLines]
  split
  · exact List.cons_ne_nil _ _
  next hne => exact loaded_ne_nil hne

theorem opened_eq {text l : List UInt8} {rest : List (List UInt8)}
    (h : fileLines text = l :: rest) :
    opened text = .start l rest := by
  rw [opened, h]

/-- The lines of a file consist of what can be typed, as its contents do. -/
theorem printable_opened {text : List UInt8} (h : ∀ c ∈ text, c = 0x0A ∨ Printable c) :
    (opened text).All Printable := by
  obtain ⟨l, rest, hlines⟩ := List.exists_cons_of_ne_nil (fileLines_ne_nil text)
  have hopened : (opened text).lines = fileLines text := by
    rw [opened_eq hlines, hlines]
    rfl
  intro l' hl' c hc
  rw [hopened] at hl'
  obtain ⟨hmem, hnl⟩ := (mem_fileLines hl').2 c hc
  exact (h c hmem).resolve_left hnl

/-- A file that is opened has not been modified. -/
theorem modified_nanoOpen {b : NanoBlocks} (h : nanoOpen junk filename b s = some (e, s')) :
    e.modified = false := by
  obtain ⟨_, _, heq⟩ := Option.bind_eq_some_iff.mp h
  cases heq
  rfl

/-- A file that is not there is empty. -/
theorem nanoOpen_missing {b : NanoBlocks} (hI : Inv True s others) (hn : Holds filename n)
    (hslot : slotOf s n = none) (junk : Mem) : nanoOpen junk filename b s =
      some (⟨b.ptrs.map (nanoLine junk), 1, 0, 0, false, true⟩, s) := by
  have hopen : fsOpen s filename = some none := (hI.table.fsFind_eq hn).trans (by rw [hslot])
  simp only [nanoOpen, nanoRead, hopen, Option.bind_eq_bind, Option.bind_some]
  rfl

/-- **The file is opened** as the abstract shell opens it. -/
theorem Stores.nanoOpen {b : NanoBlocks} (h : Stores j s files cwd)
    (hm : Modest blockMax ptrs s others) (hfit : Affords blockMax ptrs.length)
    (hn : Holds filename n) (hlen : b.ptrs.length = nanoMaxLines) (hne : ∀ p ∈ b.ptrs, p ≠ null)
    (junk : Mem) :
    ∃ e s', nanoOpen junk filename b s = some (e, s') ∧
      Editing ptrs others s' files e (opened ((files.find n).elim [] fun e ↦ e.2.data)) false ∧
      e.running = true ∧ s'.currentDir = s.currentDir := by
  cases hslot : slotOf s n with
  | none =>
      have hstart : ∀ (i : Nat) (t : List UInt8), [([] : List UInt8)][i]? = some t → [] = t := by
        intro i t hi
        exact (List.mem_singleton.mp (List.mem_of_getElem? hi)).symm
      have hshows : Shows ⟨b.ptrs.map (nanoLine junk), 1, 0, 0, false, true⟩ (.start [] []) :=
        shows_start (linesHold_nanoLine junk hlen hne) (by decide) hstart
      rw [h.refines.find_none hslot]
      exact ⟨_, s, nanoOpen_missing hm.inv hn hslot junk,
        ⟨hm, h.refines, h.tidy, hshows, rfl, Text.joinable_start _ _, printable_opened nofun⟩, rfl,
        rfl⟩
  | some i =>
      obtain ⟨nm, entry, rfl, hfind, _, hc⟩ := h.refines.find_some hm.inv.table hslot
      have hlookup := lookup_of_find hfind
      have hsize : ∀ i, (s.fileTable i).size ≤ textMax := by
        intro i
        cases hu : (s.fileTable i).used with
        | false =>
            rw [((hm.inv.table.file i).free hu).2]
            exact Nat.zero_le _
        | true =>
            obtain ⟨n', e', _, hfind', _, hc'⟩ := h.refines.find_some hm.inv.table
              (hm.inv.table.slotOf_eq_some_iff.mpr ⟨hu, rfl⟩)
            rw [← length_of_contents hc']
            exact h.tidy.short n' e' (lookup_of_find hfind')
      obtain ⟨e, s', text, l, rest, hopen, hm', hsame, hlines, hS, hrunning, htext⟩ :=
        nanoOpen_modest hm hfit hsize hn hlen hne junk
      obtain rfl := htext i entry.data hslot hc (h.tidy.noNul hlookup)
      rw [hfind]
      have hprintable := h.tidy.printable nm entry hlookup
      refine ⟨e, s', hopen, ⟨hm', refines_of_sameFiles h.refines hsame, h.tidy, ?_,
        modified_nanoOpen hopen, ?_, printable_opened hprintable⟩, hrunning, by rw [hsame.sys]⟩
      · change Shows e (opened entry.data)
        rw [opened_eq hlines]
        exact hS
      · change (opened entry.data).Joinable nanoWidth
        rw [opened_eq hlines]
        exact Text.joinable_start _ _

end KontolOS.Shell
