import CanonicalLR.Proofs.Grids
import CanonicalLR.Proofs.Service

/-!
# What the rows of a table show

A row has one cell for each column, and a cell has room for one entry.  In a table that was built
nothing gets lost by that (`rows_of_build`): no column stands twice, ACTION entries are in the
columns of terminals and of the end marker, GOTO entries in those of nonterminals, and every state
has a row.  So every entry is shown in one cell and no other cell shows anything.  The text of a
cell tells what it shows (`Cell.ofText?_render`), and the columns with the texts of the rows tell
the whole table (`Table.Clean.sameEntries_ofTexts`).
-/

namespace CanonicalLR

/-! ## Tables by their texts -/

namespace Cell

/-- The action that a cell shows. -/
def action? : Cell → Option Action
  | action act => some act
  | _ => none

/-- The target that a cell shows. -/
def goto? : Cell → Option Int
  | goto target => some target
  | _ => none

end Cell

/-- The grid that some columns and the contents of some rows make. -/
def Grid.ofRows {α : Type} (columns : List Symbol) (rows : List (List (Option α))) : Grid α :=
  ⟨rows.zipIdx.map fun row => ((row.2 : Int),
    (columns.zip row.1).filterMap fun cell => cell.2.map (cell.1, ·))⟩

/-- The table that some columns and the texts of some rows show. -/
def Table.ofTexts (columns : List Symbol) (rows : List (List String)) : Table :=
  let cells := rows.map (·.map fun text => (Cell.ofText? text).getD .blank)
  { action := .ofRows columns (cells.map (·.map Cell.action?))
    goto := .ofRows columns (cells.map (·.map Cell.goto?))
    terminals := columns.takeWhile (· ≠ endMarker)
    nonterminals := (columns.dropWhile (· ≠ endMarker)).drop 1
    stateCount := rows.length }

/-- Whether two tables have the same columns, rows and entries, in any order within a row. -/
structure Table.SameEntries (table other : Table) : Prop where
  columns : other.terminals = table.terminals ∧ other.nonterminals = table.nonterminals
  stateCount : other.stateCount = table.stateCount
  rows : other.action.rows.keys = table.action.rows.keys ∧
    other.goto.rows.keys = table.goto.rows.keys
  action : ∀ q x act, other.action.Holds q x act ↔ table.action.Holds q x act
  goto : ∀ q x target, other.goto.Holds q x target ↔ table.goto.Holds q x target

section OfRows

variable {α : Type} {columns : List Symbol} {content : Nat → Symbol → Option α} {n : Nat}

theorem Grid.keys_ofRows (rows : List (List (Option α))) :
    (ofRows columns rows).rows.keys = (List.range rows.length).map Nat.cast := by
  refine List.ext_getElem? fun k => ?_
  simp only [ofRows, Entries.keys, List.map_map, List.getElem?_map, List.getElem?_zipIdx,
    Option.map_map, Nat.zero_add]
  by_cases hk : k < rows.length
  · rw [List.getElem?_eq_getElem hk, List.getElem?_range hk]
    rfl
  · rw [List.getElem?_eq_none (Nat.le_of_not_lt hk), List.getElem?_eq_none (by simpa using hk)]
    rfl

/-- A grid made of rows holds what they show. -/
theorem Grid.holds_ofRows {q : Int} {x : Symbol} {v : α} :
    (ofRows columns ((List.range n).map fun k => columns.map (content k))).Holds q x v ↔
      ∃ k : Nat, k < n ∧ q = k ∧ x ∈ columns ∧ content k x = some v := by
  have hcells : ∀ k, (x, v) ∈ ((columns.zip (columns.map (content k))).filterMap
      fun cell => cell.2.map (cell.1, ·)) ↔ x ∈ columns ∧ content k x = some v := by
    intro k
    have hzip : columns.zip (columns.map (content k)) = columns.map fun y => (y, content k y) := by
      simpa using List.zip_map' (f := id) (g := content k) (l := columns)
    rw [hzip, List.filterMap_map, List.mem_filterMap]
    constructor
    · rintro ⟨y, hy, he⟩
      obtain ⟨w, hw, e⟩ := Option.map_eq_some_iff.1 he
      obtain ⟨rfl, rfl⟩ := Prod.mk.inj e
      exact ⟨hy, hw⟩
    · rintro ⟨hx, hv⟩
      exact ⟨x, hx, Option.map_eq_some_iff.2 ⟨v, hv, rfl⟩⟩
  constructor
  · rintro ⟨cells, hrow, hx⟩
    obtain ⟨⟨row, k⟩, hk, he⟩ := List.mem_map.1 hrow
    obtain ⟨rfl, rfl⟩ := Prod.mk.inj he
    have hget := List.mem_zipIdx_iff_getElem?.1 hk
    rw [List.getElem?_map, Option.map_eq_some_iff] at hget
    obtain ⟨k', hk', rfl⟩ := hget
    obtain ⟨hlt, hsame⟩ := List.getElem?_eq_some_iff.1 hk'
    obtain rfl : k = k' := by rwa [List.getElem_range] at hsame
    exact ⟨k, by simpa using hlt, rfl, (hcells k).1 hx⟩
  · rintro ⟨k, hk, rfl, hx⟩
    refine ⟨_, List.mem_map.2 ⟨(columns.map (content k), k), ?_, rfl⟩, (hcells k).2 hx⟩
    rw [List.mem_zipIdx_iff_getElem?, List.getElem?_map, List.getElem?_range hk]
    rfl

end OfRows

/-! ## Tables in which every entry has a cell -/

namespace Table

/-- The cell at a place, by the number of its row and of its column. -/
def cellAt? (table : Table) (row column : Nat) : Option Cell :=
  (table.rows[row]?).bind (·[column]?)

/-- Whether the place of a cell is in the row of a state and in the column of a symbol, and the cell
shows the given content. -/
def ShowsAt (table : Table) (place : Nat × Nat) (q : Int) (x : Symbol) (cell : Cell) : Prop :=
  place.1 = q ∧ table.columns[place.2]? = some x ∧ table.cellAt? place.1 place.2 = some cell

/-- Whether every entry of a table with `n` rows has a cell of its own. -/
structure Clean (n : Nat) (table : Table) : Prop where
  tidy : table.Tidy ((List.range n).map Nat.cast)
  stateCount : table.stateCount = n
  columns : table.columns.Nodup
  action : ∀ q x act, table.action.get? q x = some act → x ∈ table.actionColumns
  goto : ∀ q x target, table.goto.get? q x = some target → x ∈ table.nonterminals

variable {table : Table} {n row column : Nat} {cell : Cell} {q : Int} {x : Symbol} {act : Action}
  {target : Int}

theorem columns_eq : table.columns = table.terminals ++ endMarker :: table.nonterminals := by
  rw [Table.columns, actionColumns, List.append_assoc]
  rfl

theorem cellAt?_eq_some : table.cellAt? row column = some cell ↔
    row < table.stateCount.toNat ∧
      ∃ x, table.columns[column]? = some x ∧ table.cell row x = cell := by
  rw [cellAt?, rows, states, List.getElem?_map]
  by_cases hrow : row < table.stateCount.toNat
  · rw [List.getElem?_range hrow, Option.map_some, Option.bind_some, Table.row, List.getElem?_map,
      Option.map_eq_some_iff]
    exact (and_iff_right hrow).symm
  · rw [List.getElem?_eq_none (by simpa using hrow)]
    exact iff_of_false (by simp) fun h => hrow h.1

namespace Clean

/-- The columns of the two parts are apart. -/
theorem not_mem_nonterminals (h : table.Clean n) (hx : x ∈ table.actionColumns) :
    x ∉ table.nonterminals := fun hn => (List.nodup_append.1 h.columns).2.2 x hx x hn rfl

theorem cell_of_actionColumns (h : table.Clean n) (hx : x ∈ table.actionColumns) :
    table.cell q x = match table.action.get? q x with
      | some act => .action act
      | none => .blank := by
  have hnone : table.goto.get? q x = none := by
    cases hget : table.goto.get? q x with
    | none => rfl
    | some target => exact absurd (h.goto q x target hget) (h.not_mem_nonterminals hx)
  cases hget : table.action.get? q x <;> simp only [cell, hnone, hget]

theorem cell_of_nonterminals (h : table.Clean n) (hx : x ∈ table.nonterminals) :
    table.cell q x = match table.goto.get? q x with
      | some target => .goto target
      | none => .blank := by
  have hnone : table.action.get? q x = none := by
    cases hget : table.action.get? q x with
    | none => rfl
    | some act => exact absurd hx (h.not_mem_nonterminals (h.action q x act hget))
  cases hget : table.goto.get? q x <;> simp only [cell, hnone, hget]

/-- A cell shows an action exactly if the table holds it, and likewise a GOTO entry. -/
theorem cell_eq_action_iff (h : table.Clean n) :
    table.cell q x = .action act ↔ table.action.Holds q x act := by
  rw [h.tidy.action.holds_iff]
  refine ⟨action_of_cell, fun hget => ?_⟩
  rw [h.cell_of_actionColumns (h.action q x act hget), hget]

theorem cell_eq_goto_iff (h : table.Clean n) :
    table.cell q x = .goto target ↔ table.goto.Holds q x target := by
  rw [h.tidy.goto.holds_iff]
  refine ⟨goto_of_cell, fun hget => ?_⟩
  rw [h.cell_of_nonterminals (h.goto q x target hget), hget]

/-- Where there is no column there is no entry. -/
theorem cell_eq_blank (h : table.Clean n) (hx : x ∉ table.columns) : table.cell q x = .blank := by
  rw [Table.columns, List.mem_append, not_or] at hx
  cases hcell : table.cell q x with
  | blank => rfl
  | action act => exact absurd (h.action q x act (action_of_cell hcell)) hx.1
  | goto target => exact absurd (h.goto q x target (goto_of_cell hcell)) hx.2

theorem exists_row_of_mem (h : table.Clean n) {α : Type} {grid : Grid α}
    (ht : grid.Tidy ((List.range n).map Nat.cast)) {v : α} (hv : grid.Holds q x v) :
    ∃ k : Nat, k < table.stateCount.toNat ∧ q = k := by
  obtain ⟨cells, hc, -⟩ := hv
  have hkey : q ∈ grid.rows.keys := List.mem_map_of_mem hc
  rw [ht.keys] at hkey
  obtain ⟨k, hk, rfl⟩ := List.mem_map.1 hkey
  refine ⟨k, ?_, rfl⟩
  rw [h.stateCount]
  simpa using hk

/-- What a cell shows stands at one place. -/
theorem existsUnique_showsAt (h : table.Clean n) {k : Nat} (hk : k < table.stateCount.toNat)
    (hx : x ∈ table.columns) (hcell : table.cell k x = cell) :
    ∃! place : Nat × Nat, table.ShowsAt place k x cell := by
  obtain ⟨column, hcolumn⟩ := List.mem_iff_getElem?.1 hx
  refine ⟨(k, column), ⟨rfl, hcolumn, cellAt?_eq_some.2 ⟨hk, x, hcolumn, hcell⟩⟩, ?_⟩
  rintro ⟨row, other⟩ ⟨hrow, hother, -⟩
  obtain rfl : row = k := Int.ofNat.inj hrow
  have hlt : column < table.columns.length := (List.getElem?_eq_some_iff.1 hcolumn).1
  obtain rfl := (List.getElem?_inj hlt h.columns).1 (hcolumn.trans hother.symm)
  rfl

theorem action_showsAt (h : table.Clean n) (hact : table.action.Holds q x act) :
    ∃! place : Nat × Nat, table.ShowsAt place q x (.action act) := by
  obtain ⟨k, hk, rfl⟩ := h.exists_row_of_mem h.tidy.action hact
  have hx := h.action _ x act (h.tidy.action.holds_iff.1 hact)
  exact h.existsUnique_showsAt hk (List.mem_append_left _ hx) (h.cell_eq_action_iff.2 hact)

theorem goto_showsAt (h : table.Clean n) (ht : table.goto.Holds q x target) :
    ∃! place : Nat × Nat, table.ShowsAt place q x (.goto target) := by
  obtain ⟨k, hk, rfl⟩ := h.exists_row_of_mem h.tidy.goto ht
  have hx := h.goto _ x target (h.tidy.goto.holds_iff.1 ht)
  exact h.existsUnique_showsAt hk (List.mem_append_right _ hx) (h.cell_eq_goto_iff.2 ht)

/-- A cell that shows something shows an entry of its row and column. -/
theorem entry_of_cellAt? (h : table.Clean n) (hc : table.cellAt? row column = some cell) :
    cell = .blank ∨ ∃ x, table.columns[column]? = some x ∧
      ((∃ act, cell = .action act ∧ table.action.Holds row x act) ∨
        ∃ target, cell = .goto target ∧ table.goto.Holds row x target) := by
  obtain ⟨-, x, hx, hcell⟩ := cellAt?_eq_some.1 hc
  cases cell with
  | blank => exact .inl rfl
  | action act => exact .inr ⟨x, hx, .inl ⟨act, rfl, h.cell_eq_action_iff.1 hcell⟩⟩
  | goto target => exact .inr ⟨x, hx, .inr ⟨target, rfl, h.cell_eq_goto_iff.1 hcell⟩⟩

/-! ### Counting -/

theorem size_action (h : table.Clean n) : table.action.size = (table.rows.map fun row =>
    (row.take table.actionColumns.length).countP (·.render ≠ "")).sum := by
  have hn : table.actionColumns.Nodup := (List.nodup_append.1 h.columns).1
  have hrow : ∀ k : Nat, ((table.row k).take table.actionColumns.length).countP (·.render ≠ "") =
      table.actionColumns.countP fun x => (table.action.get? k x).isSome := by
    intro k
    rw [Table.row, Table.columns, List.map_append,
      List.take_left' (List.length_map _), List.countP_map]
    refine List.countP_congr fun x hx => ?_
    rw [Function.comp_apply, decide_eq_true_eq, ne_eq, Cell.render_eq_empty_iff,
      h.cell_of_actionColumns hx]
    cases table.action.get? k x <;> simp
  rw [h.tidy.action.size_eq hn h.action, rows, states, h.stateCount, List.map_map, List.map_map]
  exact congrArg List.sum (List.map_congr_left fun k _ => (hrow k).symm)

theorem size_goto (h : table.Clean n) : table.goto.size = (table.rows.map fun row =>
    (row.drop table.actionColumns.length).countP (·.render ≠ "")).sum := by
  have hn : table.nonterminals.Nodup := (List.nodup_append.1 h.columns).2.1
  have hrow : ∀ k : Nat, ((table.row k).drop table.actionColumns.length).countP (·.render ≠ "") =
      table.nonterminals.countP fun x => (table.goto.get? k x).isSome := by
    intro k
    rw [Table.row, Table.columns, List.map_append,
      List.drop_left' (List.length_map _), List.countP_map]
    refine List.countP_congr fun x hx => ?_
    rw [Function.comp_apply, decide_eq_true_eq, ne_eq, Cell.render_eq_empty_iff,
      h.cell_of_nonterminals hx]
    cases table.goto.get? k x <;> simp
  rw [h.tidy.goto.size_eq hn h.goto, rows, states, h.stateCount, List.map_map, List.map_map]
  exact congrArg List.sum (List.map_congr_left fun k _ => (hrow k).symm)

/-! ### Reading the rows again -/

/-- The end marker tells the two groups of columns apart. -/
theorem split_columns (h : table.Clean n) :
    table.columns.takeWhile (· ≠ endMarker) = table.terminals ∧
      (table.columns.dropWhile (· ≠ endMarker)).drop 1 = table.nonterminals := by
  have hend : ∀ x ∈ table.terminals, decide (x ≠ endMarker) = true := by
    intro x hx
    have hn := (List.nodup_append.1 (List.nodup_append.1 h.columns).1).2.2
    exact decide_eq_true fun e => hn x hx endMarker List.mem_cons_self e
  rw [columns_eq, List.takeWhile_append_of_pos hend, List.dropWhile_append_of_pos hend]
  simp

theorem length_rows (h : table.Clean n) : table.rows.length = n := by
  rw [rows, states, h.stateCount]
  simp

/-- What all cells show of one kind. -/
theorem map_rows (h : table.Clean n) {α : Type} (content : Cell → Option α) :
    table.rows.map (·.map content) =
      (List.range n).map fun k : Nat => table.columns.map fun x => content (table.cell k x) := by
  rw [rows, states, h.stateCount, List.map_map]
  refine List.map_congr_left fun k _ => ?_
  rw [Function.comp_apply, Table.row, List.map_map]
  rfl

/-- The cells are told by their texts. -/
theorem map_ofText?_rows : (table.rows.map (·.map Cell.render)).map
    (·.map fun text => (Cell.ofText? text).getD .blank) = table.rows := by
  rw [List.map_map]
  refine (List.map_congr_left fun row _ => ?_).trans (List.map_id _)
  rw [Function.comp_apply, List.map_map]
  refine (List.map_congr_left fun cell _ => ?_).trans (List.map_id _)
  rw [Function.comp_apply, Cell.ofText?_render, Option.getD_some, id]

/-- The columns and the texts of the rows tell the table. -/
theorem sameEntries_ofTexts (h : table.Clean n) :
    table.SameEntries (ofTexts table.columns (table.rows.map (·.map Cell.render))) := by
  have hkeys : ∀ {α : Type} {grid : Grid α} (content : Cell → Option α),
      grid.Tidy ((List.range n).map Nat.cast) →
      (Grid.ofRows table.columns (table.rows.map (·.map content))).rows.keys = grid.rows.keys := by
    intro α grid content ht
    rw [Grid.keys_ofRows, List.length_map, h.length_rows, ht.keys]
  -- a place that shows an entry is one of the rows and columns
  have hholds : ∀ {α : Type} {grid : Grid α} (content : Cell → Option α),
      grid.Tidy ((List.range n).map Nat.cast) → (∀ q x v, grid.Holds q x v → x ∈ table.columns) →
      (∀ q x v, content (table.cell q x) = some v ↔ grid.Holds q x v) → ∀ q x v,
      (Grid.ofRows table.columns (table.rows.map (·.map content))).Holds q x v ↔
        grid.Holds q x v := by
    intro α grid content ht hcolumns hcontent q x v
    rw [h.map_rows, Grid.holds_ofRows]
    constructor
    · rintro ⟨k, -, rfl, -, hv⟩
      exact (hcontent _ x v).1 hv
    · intro hv
      obtain ⟨k, hk, rfl⟩ := h.exists_row_of_mem ht hv
      rw [h.stateCount] at hk
      exact ⟨k, hk, rfl, hcolumns _ x v hv, (hcontent _ x v).2 hv⟩
  unfold ofTexts
  rw [map_ofText?_rows]
  constructor
  case columns => exact h.split_columns
  case stateCount => rw [List.length_map, h.length_rows, h.stateCount]
  case rows => exact ⟨hkeys _ h.tidy.action, hkeys _ h.tidy.goto⟩
  case action =>
    refine hholds Cell.action? h.tidy.action (fun q x act hact => ?_) fun q x act => ?_
    · exact List.mem_append_left _ (h.action q x act (h.tidy.action.holds_iff.1 hact))
    · rw [← h.cell_eq_action_iff]
      cases table.cell q x <;> simp [Cell.action?]
  case goto =>
    refine hholds Cell.goto? h.tidy.goto (fun q x target ht => ?_) fun q x target => ?_
    · exact List.mem_append_right _ (h.goto q x target (h.tidy.goto.holds_iff.1 ht))
    · rw [← h.cell_eq_goto_iff]
      cases table.cell q x <;> simp [Cell.goto?]

end Clean

end Table

/-! ## Builds -/

section Builds

variable {text : String} {config : Config} {b : Build} {listing : Listing}

theorem Automaton.Canonical.map_index {g : Grammar} {a : Automaton} {F : List Symbol → SymbolSet}
    (hc : a.Canonical g F) :
    a.states.map (·.index) = (List.range a.states.length).map Nat.cast := by
  refine List.ext_getElem? fun q => ?_
  rw [List.getElem?_map, List.getElem?_map]
  by_cases hq : q < a.states.length
  · rw [List.getElem?_eq_getElem hq, List.getElem?_range hq, Option.map_some, Option.map_some,
      hc.index (List.getElem?_eq_getElem hq)]
  · rw [List.getElem?_eq_none (Nat.le_of_not_lt hq), List.getElem?_eq_none (by simpa using hq)]
    rfl

/-- The columns of a listing are its symbols and the end marker, each once. -/
theorem columns_of_read (h : Listing.read text = .ok listing) :
    let classes := listing.classes
    (classes.terminals ++ [endMarker] ++ classes.nonterminals).Nodup ∧
      (∀ x, x ∈ classes.terminals ∨ x ∈ classes.nonterminals ↔ x ∈ listing.symbols) := by
  intro classes
  have wf := wellFormed_of_read h
  have hcl : classes.Of listing.toGrammar := classes_of_read h
  have hmem : ∀ x, x ∈ classes.terminals ∨ x ∈ classes.nonterminals ↔ x ∈ listing.symbols := by
    intro x
    rw [hcl.terminals, hcl.nonterminals, Grammar.mem_symbols]
    cases listing.isNonterminal x <;> simp
  refine ⟨?_, hmem⟩
  have hend : endMarker ∉ classes.terminals ∧ endMarker ∉ classes.nonterminals :=
    ⟨fun hm => wf.endMarker ((hmem _).1 (.inl hm)), fun hm => wf.endMarker ((hmem _).1 (.inr hm))⟩
  have happart : ∀ x ∈ classes.terminals, x ∉ classes.nonterminals := by
    intro x ht hn
    have hfalse := ((hcl.terminals x).1 ht).2
    rw [(hcl.nonterminals x).1 hn] at hfalse
    cases hfalse
  have hterminals : classes.terminals.Nodup := nodup_distinct _
  have hnonterminals : classes.nonterminals.Nodup := nodup_distinct _
  rw [List.nodup_append, List.nodup_append]
  refine ⟨⟨hterminals, List.nodup_singleton _, ?_⟩, hnonterminals, ?_⟩
  · rintro x hx _ hm rfl
    exact hend.1 (List.mem_singleton.1 hm ▸ hx)
  · rintro x hx _ hm rfl
    rcases List.mem_append.1 hx with hx | hx
    · exact happart x hx hm
    · exact hend.2 (List.mem_singleton.1 hx ▸ hm)

theorem clean_of_build (h : build text config = .ok b) :
    b.table.Clean b.automaton.states.length := by
  obtain ⟨wf, hauto, hserves⟩ := serves_of_build h
  obtain ⟨hterminals, hnonterminals, hcount⟩ := columns_of_build h
  have hcl := classes_of_read (read_of_build h)
  obtain ⟨F, hc⟩ := b.listing.exists_canonical config.firstStrategy
  rw [← hauto] at hc
  constructor
  case tidy =>
    have hindex : (b.automaton.states.map (·.index)).Nodup := by
      rw [hc.map_index]
      exact List.nodup_range.map fun i j hij => Int.ofNat.inj hij
    obtain ⟨listing, table, -, htable, rfl⟩ := exists_table_of_build h
    exact hc.map_index ▸ Table.tidy_build hindex htable
  case stateCount => exact hcount
  case columns =>
    rw [Table.columns, Table.actionColumns, hterminals, hnonterminals]
    exact (columns_of_read (read_of_build h)).1
  case action =>
    intro q x act hget
    rw [Table.actionColumns, hterminals, List.mem_append, List.mem_singleton]
    obtain ⟨p, -, state, i, hp, hi, hasks⟩ := hserves.sound q (.action x act) hget
    have hitem := hc.isItem hp i hi
    cases hasks with
    | accept => exact .inr rfl
    | reduce =>
      rcases hitem.lookahead with hlook | hlook
      · exact .inr hlook
      · exact .inl ((hcl.terminals _).2 hlook)
    | shift hx hn =>
      have hbody := (Grammar.mem_symbols.1 (hitem.mem_symbols_of_next? wf hx)).resolve_left
        (by simp [hn])
      exact .inl ((hcl.terminals x).2 ⟨hbody, hn⟩)
  case goto =>
    intro q x target hget
    rw [hnonterminals, hcl.nonterminals]
    obtain ⟨p, -, state, i, -, -, hasks⟩ := hserves.sound q (.goto x target) hget
    cases hasks with
    | goto _ hn => exact hn

/-- What the rows of a table over some symbols keep of it. -/
structure Table.Lossless (symbols : SymbolSet) (table : Table) : Prop where
  /-- No column stands twice. -/
  nodup : table.columns.Nodup
  /-- The columns are the symbols and the end marker. -/
  columns : ∀ x, x ∈ table.columns ↔ x ∈ symbols ∨ x = endMarker
  /-- No symbol is a terminal and a nonterminal. -/
  disjoint : ∀ x ∈ table.terminals, x ∉ table.nonterminals
  /-- Neither the end marker nor the sign for the empty string is one of them. -/
  unreserved : ∀ x, x ∈ table.terminals ∨ x ∈ table.nonterminals → Unreserved x
  /-- Every state has a row, shown and in both parts. -/
  rows : table.stateCount = table.rows.length ∧
    table.action.rows.keys = (List.range table.rows.length).map Nat.cast ∧
    table.goto.rows.keys = (List.range table.rows.length).map Nat.cast
  /-- ACTION entries are for terminals and the end marker. -/
  actionKeys : ∀ q x act, table.action.Holds q x act → x ∈ table.terminals ∨ x = endMarker
  /-- GOTO entries are for nonterminals. -/
  gotoKeys : ∀ q x target, table.goto.Holds q x target → x ∈ table.nonterminals
  /-- An ACTION entry is shown at one place. -/
  actionShown : ∀ q x act, table.action.Holds q x act →
    ∃! place : Nat × Nat, table.ShowsAt place q x (.action act)
  /-- A GOTO entry is shown at one place. -/
  gotoShown : ∀ q x target, table.goto.Holds q x target →
    ∃! place : Nat × Nat, table.ShowsAt place q x (.goto target)
  /-- A cell whose text is not empty shows an entry of its row and column. -/
  others : ∀ row column cell, table.cellAt? row column = some cell → cell.render = "" ∨
    ∃ x, table.columns[column]? = some x ∧
      ((∃ act, cell = .action act ∧ table.action.Holds row x act) ∨
        ∃ target, cell = .goto target ∧ table.goto.Holds row x target)
  /-- The columns and the texts of the rows tell the table. -/
  texts : table.SameEntries (.ofTexts table.columns (table.rows.map (·.map Cell.render)))

/-- The number of cells with a text in the columns of the ACTION part. -/
def Table.actionCells (table : Table) : Nat :=
  (table.rows.map fun row => (row.take table.actionColumns.length).countP (·.render ≠ "")).sum

/-- The number of cells with a text in the columns of the GOTO part. -/
def Table.gotoCells (table : Table) : Nat :=
  (table.rows.map fun row => (row.drop table.actionColumns.length).countP (·.render ≠ "")).sum

theorem lossless_of_build (h : build text config = .ok b) :
    b.table.Lossless b.listing.symbols := by
  have hclean := clean_of_build h
  have wf := (serves_of_build h).1
  obtain ⟨hterminals, hnonterminals, -⟩ := columns_of_build h
  have hmem : ∀ x, x ∈ b.table.terminals ∨ x ∈ b.table.nonterminals ↔ x ∈ b.listing.symbols := by
    rw [hterminals, hnonterminals]
    exact (columns_of_read (read_of_build h)).2
  constructor
  case nodup => exact hclean.columns
  case columns =>
    intro x
    rw [← hmem, Table.columns_eq, List.mem_append, List.mem_cons, or_left_comm, or_comm]
  case disjoint => exact fun x hx => hclean.not_mem_nonterminals (List.mem_append_left _ hx)
  case unreserved =>
    intro x hx
    have hsymbol := (hmem x).1 hx
    exact ⟨fun e => wf.endMarker (e ▸ hsymbol), fun e => wf.epsilon (e ▸ hsymbol)⟩
  case rows =>
    rw [hclean.length_rows]
    exact ⟨hclean.stateCount, hclean.tidy.action.keys, hclean.tidy.goto.keys⟩
  case actionKeys =>
    intro q x act hact
    have hx := hclean.action q x act (hclean.tidy.action.holds_iff.1 hact)
    rwa [Table.actionColumns, List.mem_append, List.mem_singleton] at hx
  case gotoKeys => exact fun q x t ht => hclean.goto q x t (hclean.tidy.goto.holds_iff.1 ht)
  case actionShown => exact fun q x act => hclean.action_showsAt
  case gotoShown => exact fun q x target => hclean.goto_showsAt
  case others =>
    intro row column cell hcell
    rw [Cell.render_eq_empty_iff]
    exact hclean.entry_of_cellAt? hcell
  case texts => exact hclean.sameEntries_ofTexts

end Builds

/-- **The rows of a table lose nothing.**  In every table that is built the columns are the symbols
of the grammar and the end marker, each once, and all entries are for columns of their part and rows
of states.  Every entry is shown in one cell and the other cells are empty; the text of a cell tells
what it shows, and the columns and the texts of the rows tell the table.  A service that is asked
for the table answers with these rows, and its numbers of entries are those of the cells with a text
in the two groups of columns. -/
theorem rows_of_build {text : String} {config : Config} {b : Build}
    (h : build text config = .ok b) :
    b.table.Lossless b.listing.symbols ∧ b.table.stateCount = b.automaton.states.length ∧
    (∀ cell other : Cell, cell.render = other.render → cell = other) ∧
    ∀ (defaults : ServiceDefaults) (body : Json), body.Carries text →
      defaults.chosen body = .ok config →
      ∃ built, answer defaults .buildParseTable body = some built ∧
        built.body.field "table" = b.table.view ∧
        (built.body.field "table_info").field "action_entries" = .int b.table.actionCells ∧
        (built.body.field "table_info").field "goto_entries" = .int b.table.gotoCells := by
  have hclean := clean_of_build h
  refine ⟨lossless_of_build h, hclean.stateCount, fun _ _ => Cell.render_injective, ?_⟩
  intro defaults body hbody hconfig
  refine ⟨.ofBuild b, ?_, ?_⟩
  · rw [answer_buildParseTable hbody hconfig, answerBuild, h]
  · have hsizes : b.table.action.size = b.table.actionCells ∧
        b.table.goto.size = b.table.gotoCells := ⟨hclean.size_action, hclean.size_goto⟩
    rw [Response.ofBuild, hsizes.1, hsizes.2]
    simp

/-- A list of `a`: six ACTION entries, two GOTO entries, and the rows that show them. -/
theorem rows_of_build_list :
    let text := "S -> a S |"
    let body := Json.record [("grammar", .string text)]
    ∃ b built, build text .standard = .ok b ∧
      answer .standard .buildParseTable body = some built ∧
      b.table.Lossless b.listing.symbols ∧ b.table.columns = ["a", "$", "S"] ∧
      b.table.rows.map (·.map Cell.render) =
        [["s2", "r1", "1"], ["", "acc", ""], ["s2", "r1", "3"], ["", "r0", ""]] ∧
      (built.body.field "table_info").field "action_entries" = .int 6 ∧
      (built.body.field "table_info").field "goto_entries" = .int 2 := by
  intro text body
  have htable : (build text .standard).toOption.map (fun b =>
      (b.table.columns, b.table.rows.map (·.map Cell.render), b.table.actionCells,
        b.table.gotoCells)) =
      some (["a", "$", "S"],
        [["s2", "r1", "1"], ["", "acc", ""], ["s2", "r1", "3"], ["", "r0", ""]], 6, 2) := by
    decide +kernel
  obtain ⟨b, hb, hfacts⟩ := exists_ok_of_toOption htable
  obtain ⟨hcolumns, hrows, haction, hgoto⟩ := by simpa only [Prod.mk.injEq] using hfacts
  have hbody : body.Carries text := ⟨by simp [body], by decide⟩
  have hconfig : ServiceDefaults.standard.chosen body = .ok .standard := by decide +kernel
  obtain ⟨hlossless, -, -, hservice⟩ := rows_of_build hb
  obtain ⟨built, hbuilt, -, hactions, hgotos⟩ := hservice .standard body hbody hconfig
  rw [haction] at hactions
  rw [hgoto] at hgotos
  exact ⟨b, built, hb, hbuilt, hlossless, hcolumns, hrows, hactions, hgotos⟩

end CanonicalLR
