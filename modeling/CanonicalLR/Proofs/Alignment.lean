import CanonicalLR.Proofs.CellTexts
import CanonicalLR.Proofs.Notation
import CanonicalLR.Table.Text
import Mathlib.Order.Bounds.Basic

/-!
# Aligned columns

A line of the text of a table is its entries, each filled up to the width of its column and followed
by two spaces, less the spaces at its end (`filled_renderLine`).  So the entries of a column begin
at the same place in all lines (`take_drop_columns`), and they can be cut out again
(`cutLine_renderLine`).

This needs entries without blanks in them.  Numbers, actions and the heading of the first column
have none (`solid_texts`); a symbol with a blank could be taken for two, or even for the end of a
line.  `render_aligned` is the statement for whole tables.
-/

namespace CanonicalLR

/-! ## Blanks -/

namespace Text

theorem isBlank_of_isAlphanum {c : Char} (h : c.isAlphanum = true) : isBlank c = false := by
  have hrange : 48 ≤ c.toNat ∧ c.toNat ≤ 122 := by
    simp only [Char.isAlphanum, Char.isAlpha, Char.isUpper, Char.isLower, Char.isDigit,
      Bool.or_eq_true, Bool.and_eq_true, decide_eq_true_eq, ge_iff_le, UInt32.le_iff_toNat_le] at h
    have hval : c.toNat = c.val.toNat := rfl
    simp at h
    omega
  simp only [isBlank, inRanges, blankRanges, List.any_cons, List.any_nil, Bool.or_false,
    Bool.or_eq_false_iff, Bool.and_eq_false_iff, decide_eq_false_iff_not]
  omega

/-- If all blanks of a text are spaces, then so is all that is lost at its end. -/
theorem exists_stripEnd_append {cs : List Char} (h : ∀ c ∈ cs, isBlank c = true → c = ' ') :
    ∃ n, stripEnd cs ++ List.replicate n ' ' = cs := by
  have hsplit : stripEnd cs ++ (cs.reverse.takeWhile isBlank).reverse = cs := by
    rw [stripEnd, ← List.reverse_append, List.takeWhile_append_dropWhile, List.reverse_reverse]
  have hspaces : (cs.reverse.takeWhile isBlank).reverse =
      List.replicate (cs.reverse.takeWhile isBlank).length ' ' := by
    refine List.eq_replicate_iff.2 ⟨List.length_reverse, fun c hc => ?_⟩
    rw [List.mem_reverse] at hc
    have hmem : c ∈ cs := List.mem_reverse.1 ((List.takeWhile_prefix _).subset hc)
    exact h c hmem (List.mem_takeWhile_imp hc)
  rw [hspaces] at hsplit
  exact ⟨_, hsplit⟩

end Text

namespace Table

open Text (Solid isBlank stripEnd)

/-! ## Lines by columns -/

/-- The place where a column begins: behind the columns before it, each with two spaces after it. -/
def offset (widths : List Nat) (column : Nat) : Nat := ((widths.take column).map (· + 2)).sum

/-- A line with spaces at its end, as long as all columns together. -/
def filled (widths : List Nat) (line : List Char) : List Char :=
  pad (offset widths widths.length) line

/-- Entries filled up to their widths, each with two spaces after it. -/
def columnsOf (widths : List Nat) (entries : List (List Char)) : List Char :=
  (List.zipWith pad widths entries).flatMap (· ++ [' ', ' '])

/-- The entries of a line, cut out at the given widths. -/
def cutLine : List Nat → List Char → List (List Char)
  | [], _ => []
  | width :: widths, line =>
    (line.take width).takeWhile (· ≠ ' ') :: cutLine widths (line.drop (width + 2))

/-- Whether every entry of a line fits in the width of its column. -/
def Fits (widths : List Nat) (entries : List (List Char)) : Prop :=
  List.Forall₂ (fun width entry => entry.length ≤ width) widths entries

variable {ws : List Nat} {entries : List (List Char)} {entry : List Char} {width column : Nat}

@[simp] theorem offset_zero : offset ws 0 = 0 := rfl

@[simp] theorem offset_cons_succ :
    offset (width :: ws) (column + 1) = width + 2 + offset ws column := by
  simp [offset]

theorem length_pad (h : entry.length ≤ width) : (pad width entry).length = width := by
  rw [pad, List.length_append, List.length_replicate]
  omega

theorem columnsOf_cons : columnsOf (width :: ws) (entry :: entries) =
    (pad width entry ++ [' ', ' ']) ++ columnsOf ws entries := rfl

theorem length_columnsOf (h : Fits ws entries) :
    (columnsOf ws entries).length = offset ws ws.length := by
  induction h with
  | nil => rfl
  | cons hfit _ ih =>
    rw [columnsOf_cons, List.length_append, List.length_append, length_pad hfit, ih]
    exact offset_cons_succ.symm

/-- **An entry stands at the place where its column begins**, filled up to the width and followed by
two spaces. -/
theorem take_drop_columns (h : Fits ws entries) (hw : ws[column]? = some width)
    (he : entries[column]? = some entry) :
    ((columnsOf ws entries).drop (offset ws column)).take (width + 2) =
      pad width entry ++ [' ', ' '] := by
  induction h generalizing column with
  | nil => cases hw
  | @cons width' entry' ws entries hfit _ ih =>
    have hlen : (pad width' entry' ++ [' ', ' ']).length = width' + 2 := by
      rw [List.length_append, length_pad hfit]
      rfl
    cases column with
    | zero =>
      obtain rfl : width' = width := by simpa using hw
      obtain rfl : entry' = entry := by simpa using he
      rw [columnsOf_cons, offset_zero, List.drop_zero, ← hlen, List.take_left]
    | succ column =>
      rw [List.getElem?_cons_succ] at hw he
      rw [columnsOf_cons, offset_cons_succ, ← hlen, List.drop_length_add_append]
      exact ih hw he

/-! ## Spaces at the end of a line -/

theorem intercalate_append {sep : List Char} {parts : List (List Char)} (hne : parts ≠ []) :
    sep.intercalate parts ++ sep = parts.flatMap (· ++ sep) := by
  induction parts with
  | nil => exact absurd rfl hne
  | cons part parts ih =>
    cases parts with
    | nil => simp
    | cons next parts =>
      rw [List.intercalate_cons_cons, List.append_assoc, ih (List.cons_ne_nil _ _)]
      rfl

/-- All blanks between and behind entries are spaces. -/
theorem eq_space_of_mem_columnsOf (h : Fits ws entries) (hs : ∀ entry ∈ entries, Solid entry) :
    ∀ c ∈ columnsOf ws entries, isBlank c = true → c = ' ' := by
  intro c hc hblank
  induction h with
  | nil => cases hc
  | @cons width entry ws entries _ _ ih =>
    obtain ⟨hentry, hrest⟩ := List.forall_mem_cons.1 hs
    rw [columnsOf_cons, pad, List.mem_append, List.mem_append, List.mem_append] at hc
    rcases hc with ((hc | hc) | hc) | hc
    · rw [hentry c hc] at hblank
      cases hblank
    · exact List.eq_of_mem_replicate hc
    · simpa using hc
    · exact ih hrest hc

/-- **A line lacks nothing but spaces at its end.** -/
theorem filled_renderLine (hne : entries ≠ []) (h : Fits ws entries)
    (hs : ∀ entry ∈ entries, Solid entry) :
    filled ws (renderLine ws entries) = columnsOf ws entries := by
  have hparts : List.zipWith pad ws entries ≠ [] := by
    cases h with
    | nil => exact absurd rfl hne
    | cons => simp
  have hjoined : [' ', ' '].intercalate (List.zipWith pad ws entries) ++ [' ', ' '] =
      columnsOf ws entries := intercalate_append hparts
  have hspaces := eq_space_of_mem_columnsOf h hs
  rw [← hjoined] at hspaces
  obtain ⟨n, hn⟩ := Text.exists_stripEnd_append fun c hc =>
    hspaces c (List.mem_append_left _ hc)
  have hline : renderLine ws entries ++ List.replicate (n + 2) ' ' =
      columnsOf ws entries := by
    rw [List.replicate_add, ← List.append_assoc, ← hjoined]
    exact congrArg (· ++ [' ', ' ']) hn
  have hlen := congrArg List.length hline
  rw [length_columnsOf h, List.length_append, List.length_replicate] at hlen
  rw [filled, pad, ← hline, ← hlen, Nat.add_sub_cancel_left]

/-! ## Reading the entries again -/

theorem takeWhile_append_spaces (cs : List Char) (n : Nat) :
    (cs ++ List.replicate n ' ').takeWhile (· ≠ ' ') = cs.takeWhile (· ≠ ' ') := by
  have hspaces : (List.replicate n ' ').takeWhile (· ≠ ' ') = [] := by
    cases n <;> simp [List.replicate_succ]
  induction cs with
  | nil => exact hspaces
  | cons c cs ih =>
    rw [List.cons_append, List.takeWhile_cons, List.takeWhile_cons, ih]

/-- Spaces at the end of a line say nothing. -/
theorem cutLine_append_spaces (ws : List Nat) (line : List Char) (n : Nat) :
    cutLine ws (line ++ List.replicate n ' ') = cutLine ws line := by
  induction ws generalizing line n with
  | nil => rfl
  | cons width ws ih =>
    rw [cutLine, cutLine, List.take_append, List.drop_append, List.take_replicate,
      List.drop_replicate, takeWhile_append_spaces, ih]

theorem takeWhile_pad (hs : Solid entry) : (pad width entry).takeWhile (· ≠ ' ') = entry := by
  rw [pad, takeWhile_append_spaces, List.takeWhile_eq_self_iff]
  intro c hc
  refine decide_eq_true ?_
  rintro rfl
  exact absurd (hs ' ' hc) (by decide)

theorem cutLine_columnsOf (h : Fits ws entries) (hs : ∀ entry ∈ entries, Solid entry) :
    cutLine ws (columnsOf ws entries) = entries := by
  induction h with
  | nil => rfl
  | @cons width entry ws entries hfit _ ih =>
    obtain ⟨hentry, hrest⟩ := List.forall_mem_cons.1 hs
    have hlen : (pad width entry ++ [' ', ' ']).length = width + 2 := by
      rw [List.length_append, length_pad hfit]
      rfl
    rw [cutLine, columnsOf_cons, ← hlen, List.drop_left, ih hrest, List.append_assoc,
      List.take_left' (length_pad hfit), takeWhile_pad hentry]

/-- **The entries of a line can be cut out again.** -/
theorem cutLine_renderLine (hne : entries ≠ []) (h : Fits ws entries)
    (hs : ∀ entry ∈ entries, Solid entry) :
    cutLine ws (renderLine ws entries) = entries := by
  have hfilled := filled_renderLine hne h hs
  rw [filled, pad] at hfilled
  rw [← cutLine_append_spaces, hfilled, cutLine_columnsOf h hs]

/-! ## The widths -/

/-- The lengths of the entries in a column of some lines. -/
def lengths (lines : List (List (List Char))) (column : Nat) : Set Nat :=
  {n | ∃ entries ∈ lines, (entries[column]?).map List.length = some n}

theorem lengths_cons {rest : List (List (List Char))} (he : entries[column]? = some entry) :
    lengths (entries :: rest) column = insert entry.length (lengths rest column) := by
  ext n
  simp [lengths, he, eq_comm]

/-- **A width is the largest length in its column.** -/
theorem isGreatest_widths {lines : List (List (List Char))} {n : Nat} (hne : lines ≠ [])
    (hn : ∀ entries ∈ lines, entries.length = n) : (widths lines).length = n ∧
      ∀ column width, (widths lines)[column]? = some width →
        IsGreatest (lengths lines column) width := by
  induction lines using widths.induct with
  | case1 => exact absurd rfl hne
  | case2 entries =>
    rw [widths]
    refine ⟨?_, fun column width hw => ?_⟩
    · rw [List.length_map, hn entries List.mem_cons_self]
    · rw [List.getElem?_map, Option.map_eq_some_iff] at hw
      obtain ⟨entry, he, rfl⟩ := hw
      have hempty : lengths [] column = ∅ := by simp [lengths]
      rw [lengths_cons he, hempty, insert_empty_eq]
      exact isGreatest_singleton
  | case3 entries rest hrest ih =>
    obtain ⟨hfirst, htail⟩ := List.forall_mem_cons.1 hn
    obtain ⟨hlen, hgreatest⟩ := ih hrest htail
    rw [widths.eq_3 entries rest hrest]
    refine ⟨?_, fun column width hw => ?_⟩
    · rw [List.length_zipWith, List.length_map, hfirst, hlen, Nat.min_self]
    · rw [List.getElem?_zipWith_eq_some] at hw
      obtain ⟨a, b, ha, hb, rfl⟩ := hw
      rw [List.getElem?_map, Option.map_eq_some_iff] at ha
      obtain ⟨entry, he, rfl⟩ := ha
      rw [lengths_cons he]
      exact (hgreatest column b hb).insert entry.length

/-- Every line fits in the widths of all lines. -/
theorem fits_widths {lines : List (List (List Char))} {n : Nat}
    (hn : ∀ entries ∈ lines, entries.length = n) (hmem : entries ∈ lines) :
    Fits (widths lines) entries := by
  obtain ⟨hlen, hgreatest⟩ := isGreatest_widths (List.ne_nil_of_mem hmem) hn
  refine List.forall₂_iff_get.2 ⟨hlen.trans (hn entries hmem).symm, fun column hw he => ?_⟩
  refine (hgreatest column _ (List.getElem?_eq_getElem hw)).2 ⟨entries, hmem, ?_⟩
  rw [List.getElem?_eq_getElem he]
  rfl

/-! ## Whole tables -/

/-- The entries of all lines, the heading first. -/
def texts (table : Table) : List (List String) := table.heading :: table.states.map table.line

/-- The entries of all lines of a text, cut out at the given widths. -/
def cutLines (ws : List Nat) (rendered : String) : List (List String) :=
  (Text.pieces '\n' rendered.toList).map fun line => (cutLine ws line).map String.ofList

/-- Whether a text shows lines of entries in columns of the given widths. -/
structure Aligned (ws : List Nat) (texts : List (List String)) (rendered : String) : Prop where
  /-- There is a width for each entry of a line and no other width. -/
  columns : ∀ entries ∈ texts, entries.length = ws.length
  /-- A width is the largest length in its column. -/
  widths : ∀ (column width : Nat), ws[column]? = some width →
    IsGreatest {n | ∃ entries ∈ texts, (entries[column]?).map String.length = some n} width
  /-- There is a line of text for each line of entries. -/
  lines : (Text.pieces '\n' rendered.toList).length = texts.length
  /-- The only blanks in a line are spaces. -/
  spaces : ∀ line ∈ Text.pieces '\n' rendered.toList, ∀ c ∈ line, isBlank c = true → c = ' '
  /-- An entry stands where its column begins, and spaces follow it up to the next column. -/
  entries : ∀ (row : Nat) line entries, (Text.pieces '\n' rendered.toList)[row]? = some line →
    texts[row]? = some entries → ∀ (column width : Nat) entry, ws[column]? = some width →
    entries[column]? = some entry →
    ((filled ws line).drop (offset ws column)).take (width + 2) =
      pad width entry.toList ++ [' ', ' ']
  /-- The entries can be read again. -/
  read : cutLines ws rendered = texts

theorem solid_texts {table : Table}
    (h : ∀ x ∈ table.terminals ++ table.nonterminals, Solid x.toList) :
    ∀ entries ∈ table.texts, ∀ entry ∈ entries, Solid entry.toList := by
  have hcolumns : ∀ x ∈ table.columns, Solid x.toList := by
    intro x hx
    rw [Table.columns, actionColumns, List.append_assoc, List.mem_append, List.mem_append] at hx
    rcases hx with hx | hx | hx
    · exact h x (List.mem_append_left _ hx)
    · rw [List.mem_singleton.1 hx]
      decide
    · exact h x (List.mem_append_right _ hx)
  intro entries hentries entry hentry
  rcases List.mem_cons.1 hentries with rfl | hentries
  · rcases List.mem_cons.1 hentry with rfl | hentry
    · decide
    · exact hcolumns entry hentry
  · obtain ⟨q, -, rfl⟩ := List.mem_map.1 hentries
    rcases List.mem_cons.1 hentry with rfl | hentry
    · intro c hc
      apply Text.isBlank_of_isAlphanum
      simp [Char.isAlphanum, Cell.isDigit_of_mem_numeral hc]
    · obtain ⟨cell, -, rfl⟩ := List.mem_map.1 hentry
      intro c hc
      rcases Cell.mem_render hc with rfl | hc
      · decide
      · exact Text.isBlank_of_isAlphanum hc

theorem length_of_mem_texts {table : Table} {entries : List String} (h : entries ∈ table.texts) :
    entries.length = table.columns.length + 1 := by
  rcases List.mem_cons.1 h with rfl | h
  · rfl
  · obtain ⟨q, -, rfl⟩ := List.mem_map.1 h
    simp [line, row]

theorem length_texts (table : Table) : table.texts.length = table.stateCount.toNat + 1 := by
  simp [texts, states]

section Whole

variable {table : Table} (h : ∀ x ∈ table.terminals ++ table.nonterminals, Solid x.toList)

theorem entries_eq : table.entries = table.texts.map (·.map String.toList) := rfl

theorem entries_ne_nil : table.entries ≠ [] := List.cons_ne_nil _ _

theorem getElem?_entries {row : Nat} {texts : List String}
    (htexts : table.texts[row]? = some texts) :
    table.entries[row]? = some (texts.map String.toList) := by
  rw [entries_eq, List.getElem?_map, htexts, Option.map_some]

theorem length_of_mem_entries (hmem : entries ∈ table.entries) :
    entries.length = table.columns.length + 1 := by
  obtain ⟨texts, htexts, rfl⟩ := List.mem_map.1 hmem
  rw [List.length_map, length_of_mem_texts htexts]

theorem ne_nil_of_mem_entries (hmem : entries ∈ table.entries) : entries ≠ [] := by
  rintro rfl
  cases length_of_mem_entries hmem

theorem fits_of_mem_entries (hmem : entries ∈ table.entries) :
    Fits (widths table.entries) entries :=
  fits_widths (fun _ => length_of_mem_entries) hmem

theorem lengths_entries (column : Nat) : lengths table.entries column =
    {n | ∃ texts ∈ table.texts, (texts[column]?).map String.length = some n} := by
  ext n
  simp [lengths, entries_eq, String.length_toList]

include h

theorem solid_of_mem_entries (hmem : entries ∈ table.entries) :
    ∀ entry ∈ entries, Solid entry := by
  obtain ⟨texts, htexts, rfl⟩ := List.mem_map.1 hmem
  intro entry hentry
  obtain ⟨text, htext, rfl⟩ := List.mem_map.1 hentry
  exact solid_texts h texts htexts text htext

theorem filled_of_mem_entries (hmem : entries ∈ table.entries) :
    filled (widths table.entries) (renderLine (widths table.entries) entries) =
      columnsOf (widths table.entries) entries :=
  filled_renderLine (ne_nil_of_mem_entries hmem) (fits_of_mem_entries hmem)
    (solid_of_mem_entries h hmem)

theorem eq_space_of_mem_renderLine (hmem : entries ∈ table.entries) :
    ∀ c ∈ renderLine (widths table.entries) entries, isBlank c = true → c = ' ' := by
  intro c hc
  apply eq_space_of_mem_columnsOf (fits_of_mem_entries hmem) (solid_of_mem_entries h hmem)
  rw [← filled_of_mem_entries h hmem]
  exact List.mem_append_left _ hc

/-- No line of the text is broken by what it shows. -/
theorem pieces_render : Text.pieces '\n' table.render.toList =
    table.entries.map (renderLine (widths table.entries)) := by
  refine (Text.separated_iff.1 ⟨?_, fun line hline => ?_, ?_⟩).symm
  · exact List.cons_ne_nil _ _
  · obtain ⟨entries, hmem, rfl⟩ := List.mem_map.1 hline
    intro hbreak
    exact absurd (eq_space_of_mem_renderLine h hmem '\n' hbreak (by decide)) (by decide)
  · rw [render, String.toList_ofList]

theorem cutLines_render : cutLines (widths table.entries) table.render = table.texts := by
  have hmap : ∀ texts : List String, (texts.map String.toList).map String.ofList = texts := by
    intro texts
    rw [List.map_map]
    exact (List.map_congr_left fun text _ => String.ofList_toList).trans (List.map_id texts)
  rw [cutLines, pieces_render h, List.map_map, entries_eq, List.map_map]
  refine (List.map_congr_left fun texts htexts => ?_).trans (List.map_id _)
  have hmem : texts.map String.toList ∈ table.entries := List.mem_map_of_mem htexts
  have hread := cutLine_renderLine (ne_nil_of_mem_entries hmem) (fits_of_mem_entries hmem)
    (solid_of_mem_entries h hmem)
  exact (congrArg (List.map String.ofList) hread).trans (hmap texts)

end Whole

/-- **The text of a table is aligned.**  For every table whose symbols have no blanks in them the
text has one line more than there are rows.  All entries of a column begin at the same place in
their lines, they are filled up with spaces to the largest length in the column, and two spaces
follow.  What a line lacks at its end are spaces, so the columns and the texts of the rows can be
read again when the widths are known. -/
theorem render_aligned {table : Table}
    (h : ∀ x ∈ table.terminals ++ table.nonterminals, Solid x.toList) :
    Aligned (widths table.entries) table.texts table.render ∧
      table.texts.length = table.stateCount.toNat + 1 ∧
      (cutLines (widths table.entries) table.render).map List.tail =
        table.columns :: table.rows.map (·.map Cell.render) := by
  have hlength : ∀ entries ∈ table.entries, entries.length = table.columns.length + 1 :=
    fun _ => length_of_mem_entries
  obtain ⟨hlen, hgreatest⟩ := isGreatest_widths entries_ne_nil hlength
  refine ⟨?_, length_texts table, ?_⟩
  · constructor
    case columns => exact fun texts htexts => (length_of_mem_texts htexts).trans hlen.symm
    case widths =>
      intro column width hw
      rw [← lengths_entries]
      exact hgreatest column width hw
    case lines => rw [pieces_render h, List.length_map, entries_eq, List.length_map]
    case spaces =>
      intro line hline
      rw [pieces_render h] at hline
      obtain ⟨entries, hmem, rfl⟩ := List.mem_map.1 hline
      exact eq_space_of_mem_renderLine h hmem
    case entries =>
      intro row line texts hline htexts column width entry hw he
      have hget := getElem?_entries htexts
      have hmem := List.mem_of_getElem? hget
      rw [pieces_render h, List.getElem?_map, hget] at hline
      obtain rfl := Option.some.inj hline
      rw [filled_of_mem_entries h hmem]
      refine take_drop_columns (fits_of_mem_entries hmem) hw ?_
      rw [List.getElem?_map, he, Option.map_some]
    case read => exact cutLines_render h
  · rw [cutLines_render h, texts, List.map_cons, heading, List.tail_cons, List.map_map, rows,
      List.map_map]
    rfl

/-- A symbol wider than all entries in its column, an entry wider than its symbol, and a line that
ends early. -/
theorem render_aligned_ragged :
    let table : Table := ⟨⟨[(0, [("id", .shift 1024)]), (1, [("$", .accept)])]⟩,
      ⟨[(0, [("Expr", -1)])]⟩, ["id", "=="], ["Expr"], 2⟩
    (∀ x ∈ table.terminals ++ table.nonterminals, Solid x.toList) ∧
      table.render =
        "State  id     ==  $    Expr\n0      s1024           -1\n1                 acc" ∧
      Aligned [5, 5, 2, 3, 4] table.texts table.render ∧
      (cutLines [5, 5, 2, 3, 4] table.render).map List.tail =
        [["id", "==", "$", "Expr"], ["s1024", "", "", "-1"], ["", "", "acc", ""]] := by
  intro table
  have hsolid : ∀ x ∈ table.terminals ++ table.nonterminals, Solid x.toList := by decide +kernel
  have hwidths : widths table.entries = [5, 5, 2, 3, 4] := by decide +kernel
  obtain ⟨haligned, -, hread⟩ := render_aligned hsolid
  rw [hwidths] at haligned hread
  refine ⟨hsolid, by decide +kernel, haligned, hread.trans ?_⟩
  decide +kernel

end Table

end CanonicalLR
