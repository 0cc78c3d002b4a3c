import CanonicalLR.Html.ErrorPage
import CanonicalLR.Html.TablePage
import CanonicalLR.Proofs.Markup
import CanonicalLR.Table.Text

/-!
# What pages say, and what they look like

No text can change the look of a page.  The tags of a table page are fixed by how many columns and
states there are and by the kinds of the cells (`look_tablePage`), those of an error page by whether
a line is shown (`look_errorPage`).  And a reader gets all texts back: columns and cells, row by row
(`yields_tablePage`), and the message with the number and the line of a malformed rule
(`yields_errorPage`).
-/

namespace CanonicalLR

/-! ## What may have an influence -/

/-- The kinds of cells. -/
inductive CellKind where
  | blank
  | accept
  | shift
  | reduce
  | integer
deriving DecidableEq, Repr

/-- The kind of a cell. -/
def Cell.kind : Cell → CellKind
  | .blank => .blank
  | .action .accept => .accept
  | .action (.shift _) => .shift
  | .action (.reduce _) => .reduce
  | .goto _ => .integer

/-- A cell of a kind. -/
def CellKind.sample : CellKind → Cell
  | .blank => .blank
  | .accept => .action .accept
  | .shift => .action (.shift 0)
  | .reduce => .action (.reduce 0)
  | .integer => .goto 0

/-- Whether two tables have as many columns of each sort and as many states, and cells of the same
kinds. -/
structure Table.SameShape (table other : Table) : Prop where
  terminals : table.terminals.length = other.terminals.length
  nonterminals : table.nonterminals.length = other.nonterminals.length
  stateCount : table.stateCount = other.stateCount
  kinds : table.rows.map (·.map Cell.kind) = other.rows.map (·.map Cell.kind)

/-- The number and the text of the line that a malformed rule stands on. -/
def Report.context : Report → Option (Int × String)
  | .malformed _ number line => some (number, line)
  | _ => none

namespace Html

/-- Whether the classes of an appearance can stand in a quoted value. -/
structure Appearance.IsPlain (a : Appearance) : Prop where
  tableClasses : a.tableClasses.toList.all isValueChar = true
  errorClasses : a.errorClasses.toList.all isValueChar = true

/-- The tag around a table. -/
def tableTag (a : Appearance) : Piece :=
  .start "table" [("class", "grammar-table " ++ a.tableClasses), ("role", "table"),
    ("aria-label", "LR(1) Parsing Table with ACTION and GOTO sections")]

/-- The tag around a message. -/
def errorTag (a : Appearance) : Piece := .start "div" [("class", a.errorClasses)]

theorem Appearance.IsPlain.tableTag {a : Appearance} (h : a.IsPlain) :
    (tableTag a).isPlain = true := by
  simp only [Html.tableTag, Piece.isPlain, List.all_cons, String.toList_append, List.all_append,
    h.tableClasses]
  decide

theorem Appearance.IsPlain.errorTag {a : Appearance} (h : a.IsPlain) :
    (errorTag a).isPlain = true := by
  simp only [Html.errorTag, Piece.isPlain, List.all_cons, h.errorClasses]
  decide

/-! ## Reading rows and cells -/

/-- The texts of the cells, row by row. -/
def readRows (ts : List Token) : List (List String) :=
  (elements ["tr"] ts).map (texts ["th", "td"])

/-- Whether some lines are cells of one row, with the given texts. -/
structure Page.IsCells (page : Page) (contents : List String) : Prop where
  yields : page.Yields (texts ["th", "td"]) contents
  inRow : "/tr" ∉ page.names

namespace Page.IsCells

variable {α : Type} {page page' : Page} {contents contents' : List String}

theorem empty : Page.IsCells [] [] := ⟨yields_empty, List.not_mem_nil⟩

theorem append (h : page.IsCells contents) (h' : page'.IsCells contents') :
    (page ++ page').IsCells (contents ++ contents') where
  yields := h.yields.append h'.yields
  inRow := by
    rw [names_append, List.mem_append]
    exact not_or.2 ⟨h.inRow, h'.inRow⟩

theorem map {f : α → List Piece} {g : α → String} {xs : List α}
    (h : ∀ x ∈ xs, Page.IsCells [f x] [g x]) : Page.IsCells (xs.map f) (xs.map g) := by
  have hlines : xs.map f = xs.flatMap fun x => [f x] := List.map_eq_flatMap
  rw [hlines]
  refine ⟨.flatMap fun x hx => (h x hx).yields, fun hmem => ?_⟩
  obtain ⟨line, hline, hmem⟩ := List.mem_flatMap.1 hmem
  obtain ⟨x, hx, hline⟩ := List.mem_flatMap.1 hline
  exact (h x hx).inRow (List.mem_flatMap.2 ⟨line, hline, hmem⟩)

/-- A cell on one line, with nothing but marked text in it. -/
theorem of_line {attributes : List (String × String)} (content : List Piece) {name : String}
    (hname : name = "th" ∨ name = "td") (hstart : (Piece.start name attributes).isPlain = true)
    (hcontent : ∀ p ∈ content, p.isPlain = true)
    (hnames : ∀ n ∈ content.filterMap Piece.name?, n = "span" ∨ n = "/span") :
    Page.IsCells [.start name attributes :: content ++ [.stop name]]
      [textOf (content.flatMap Piece.tokens)] where
  yields := by
    have hmem : name ∈ ["th", "td"] := by simpa using hname
    refine (yields_line hstart hmem hcontent fun n hn => ?_).map textOf
    rcases hnames n hn with rfl | rfl <;> decide
  inRow := by
    have hall : Page.names [.start name attributes :: content ++ [.stop name]] =
        name :: (content.filterMap Piece.name? ++ ["/" ++ name]) := by
      simp [Page.names, Piece.name?]
    rw [hall, List.mem_cons, List.mem_append, List.mem_singleton]
    rintro (h | h | h)
    · rcases hname with rfl | rfl <;> revert h <;> decide
    · rcases hnames _ h with h | h <;> revert h <;> decide
    · rcases hname with rfl | rfl <;> revert h <;> decide

/-- Cells make a row. -/
theorem row (h : page.IsCells contents) :
    Page.Yields readRows ([Html.plain "tr"] :: page ++ [[.stop "tr"]]) [contents] := by
  have hcells : texts ["th", "td"] (page.tokens ++ [.char '\n']) = contents := by
    rw [h.yields.reads]
    exact List.append_nil contents
  have hrow : Page.Yields (elements ["tr"]) ([Html.plain "tr"] :: page ++ [[.stop "tr"]])
      [page.tokens ++ [.char '\n']] := by
    refine yields_element (by decide) (List.mem_singleton_self _) h.yields.plain fun n hn hmem => ?_
    have hn' : n = "/tr" := List.mem_singleton.1 hmem
    exact h.inRow (hn' ▸ hn)
  have hrows := hrow.map (texts ["th", "td"])
  rwa [List.map_singleton, hcells] at hrows

end Page.IsCells

/-- Lines between rows. -/
theorem yields_between {page : Page} (h : page.IsPlain) (hnames : "tr" ∉ page.names) :
    page.Yields readRows [] := by
  refine (Page.yields_nil h fun n hn hmem => ?_).map (texts ["th", "td"])
  exact hnames (List.mem_singleton.1 hmem ▸ hn)

/-! ## What table pages say -/

section TablePage

variable {a : Appearance} {table : Table} {attributes : List (String × String)}

theorem isValue_numeral (n : Nat) : (toString n).toList.all isValueChar = true := by
  refine List.all_eq_true.2 fun c hc => ?_
  have hdigit := Cell.isDigit_of_mem_numeral hc
  have hne : ∀ d : Char, d.isDigit = false → c ≠ d := by
    rintro d hd rfl
    rw [hd] at hdigit
    cases hdigit
  simp [isValueChar, hne '<' (by decide), hne '>' (by decide), hne '"' (by decide)]

theorem isCells_text (attributes : List (String × String)) {name : String}
    (hname : name = "th" ∨ name = "td") (hstart : (Piece.start name attributes).isPlain = true)
    (content : String) :
    Page.IsCells [[.start name attributes, .text content, .stop name]] [content] := by
  have hcells := Page.IsCells.of_line [.text content] hname hstart
    (by simp [Piece.isPlain]) (by simp [Piece.name?])
  rwa [List.flatMap_singleton, textOf_text] at hcells

theorem isCells_headCell (attributes : List (String × String))
    (h : (headCell attributes "").all Piece.isPlain = true) (content : String) :
    Page.IsCells [headCell attributes content] [content] :=
  isCells_text _ (.inl rfl) (Bool.and_eq_true_iff.1 h).1 content

theorem isPlain_marked {name : String} (h : (Piece.start name attributes).isPlain = true)
    (content : String) :
    ∀ p ∈ [Piece.start name attributes, .text content, .stop name], p.isPlain = true :=
  List.forall_mem_cons.2 ⟨h, List.forall_mem_cons.2
    ⟨rfl, List.forall_mem_singleton.2 (Page.isPlain_stop h)⟩⟩

/-- Marks are not part of a text. -/
theorem textOf_marked (name content : String) (attributes : List (String × String)) :
    textOf ([.start name attributes, .text content, .stop name].flatMap Piece.tokens) =
      content := by
  refine Eq.trans ?_ (textOf_text content)
  simp [textOf, Piece.tokens, Token.char?, List.filterMap_cons]

theorem isCells_bodyCell (content : List Piece) (h : ∀ p ∈ content, p.isPlain = true)
    (hnames : ∀ n ∈ content.filterMap Piece.name?, n = "span" ∨ n = "/span") :
    Page.IsCells [bodyCell content] [textOf (content.flatMap Piece.tokens)] :=
  .of_line content (.inr rfl) (by decide) h hnames

theorem isCells_actionContent (cell : Cell) :
    Page.IsCells [bodyCell (actionContent cell)] [cell.render] := by
  have marked : ∀ (act : Action) (kind : String), (Piece.start "span"
      [("class", "grammar-action-" ++ kind)]).isPlain = true →
      Page.IsCells [bodyCell (markedAction kind act)] [act.render] := by
    intro act kind hkind
    have hcells := isCells_bodyCell (markedAction kind act) (isPlain_marked hkind _)
      (by simp [markedAction, Piece.name?])
    rwa [markedAction, textOf_marked] at hcells
  cases cell with
  | blank => exact isCells_bodyCell [] (by simp) (by simp)
  | goto target => exact isCells_text _ (.inr rfl) (by decide) _
  | action act =>
    cases act with
    | accept => exact marked .accept "accept" (by decide)
    | shift target => exact marked (.shift target) "shift" (by decide)
    | reduce rule => exact marked (.reduce rule) "reduce" (by decide)

theorem isCells_gotoContent (cell : Cell) :
    Page.IsCells [bodyCell (gotoContent cell)] [cell.render] := by
  cases cell with
  | blank => exact isCells_actionContent .blank
  | _ => exact isCells_text _ (.inr rfl) (by decide) _

/-- The parts of a table, as its head names them. -/
def partNames (table : Table) : List String :=
  "State" :: "ACTION" :: if table.nonterminals.isEmpty then [] else ["GOTO"]

/-- The head of a table: its parts, and under them its columns. -/
theorem yields_tableHead (table : Table) :
    (tableHead table).Yields readRows [partNames table, table.columns] := by
  have part : ∀ (columns : List Symbol) (name : String),
      Page.IsCells [partHead columns name] [name] := by
    intro columns name
    refine isCells_headCell _ ?_ name
    have hvalue := isValue_numeral columns.length
    simp only [headCell, Piece.isPlain, List.all_cons, hvalue]
    decide
  have goto : Page.IsCells
      (if table.nonterminals.isEmpty then [] else [partHead table.nonterminals "GOTO"])
      (if table.nonterminals.isEmpty then [] else ["GOTO"]) := by
    split
    · exact .empty
    · exact part table.nonterminals "GOTO"
  have parts := ((isCells_text [("class", "grammar-table-header grammar-table-header-primary"),
    ("scope", "col"), ("rowspan", "2")] (.inl rfl) (by decide) "State").append
    (part table.actionColumns "ACTION")).append goto
  have columns : Page.IsCells (table.columns.map (headCell [("scope", "col")])) table.columns := by
    have hmap : Page.IsCells _ (table.columns.map id) :=
      .map fun x _ => isCells_headCell [("scope", "col")] (by decide) x
    rwa [List.map_id] at hmap
  have opening : Page.Yields readRows [[plain "thead"]] [] := yields_between (by decide) (by decide)
  have closing : Page.Yields readRows [[.stop "thead"]] [] := yields_between (by decide) (by decide)
  have head := ((opening.append parts.row).append columns.row).append closing
  simpa [tableHead, partNames, List.append_assoc] using head

/-- The row of a state: its number, and its cells in order. -/
theorem yields_tableRow (table : Table) (state : Nat) :
    (tableRow table state).Yields readRows
      [toString state :: (table.row state).map Cell.render] := by
  have number := isCells_text [("class", "grammar-table-cell grammar-table-cell-primary"),
    ("scope", "row")] (.inl rfl) (by decide) (toString state)
  have actions : Page.IsCells
      (table.actionColumns.map fun x => bodyCell (actionContent (table.cell state x)))
      (table.actionColumns.map fun x => (table.cell state x).render) :=
    .map fun x _ => isCells_actionContent (table.cell state x)
  have gotos : Page.IsCells
      (table.nonterminals.map fun x => bodyCell (gotoContent (table.cell state x)))
      (table.nonterminals.map fun x => (table.cell state x).render) :=
    .map fun x _ => isCells_gotoContent (table.cell state x)
  have row := ((number.append actions).append gotos).row
  simpa [tableRow, Table.row, Table.columns, List.append_assoc, Function.comp_def] using row

/-- **A table page can be read back**: parts, columns, and the row of each state. -/
theorem yields_tablePage (ha : a.IsPlain) (h : table.stateCount ≠ 0) :
    (tablePage a table).Yields readRows
      (partNames table :: table.columns :: table.states.map table.line) := by
  have start : Page.Yields readRows [[tableTag a]] [] :=
    yields_between (List.forall_mem_singleton.2 (List.forall_mem_singleton.2 ha.tableTag))
      (by simp [Page.names, Piece.name?, tableTag])
  have body : Page.Yields readRows [[plain "tbody"]] [] := yields_between (by decide) (by decide)
  have closing : Page.Yields readRows [[.stop "tbody"], [.stop "table"]] [] :=
    yields_between (by decide) (by decide)
  have rows : Page.Yields readRows (table.states.flatMap (tableRow table))
      (table.states.map table.line) :=
    .flatMap fun state _ => yields_tableRow table state
  have page := (((start.append (yields_tableHead table)).append body).append rows).append closing
  rw [tablePage, if_neg h]
  simpa [tableTag] using page

end TablePage

/-! ## What error pages say -/

section ErrorPage

variable {a : Appearance} {report : Report}

/-- The line number in the heading of a line. -/
def lineNumber? (heading : String) : Option Int :=
  (String.ofList (heading.toList.drop 5).dropLast).toInt?

/-- The texts of the headings and paragraphs. -/
def readTexts (ts : List Token) : List String := texts ["h4", "p", "pre"] ts

/-- The message on an error page, and the number and the text of the line that it shows. -/
def readReport (ts : List Token) : Option (String × Option (Int × String)) :=
  match readTexts ts with
  | [_, message] => some (message, none)
  | [_, message, heading, line] =>
    (lineNumber? heading).map fun number => (message, some (number, line))
  | _ => none

theorem lineNumber?_heading (number : Int) :
    lineNumber? ("Line " ++ toString number ++ ":") = some number := by
  have hlist : ("Line " ++ toString number ++ ":").toList =
      ['L', 'i', 'n', 'e', ' '] ++ ((toString number).toList ++ [':']) := by
    rw [String.toList_append, String.toList_append, List.append_assoc]
    rfl
  rw [lineNumber?, hlist]
  show (String.ofList ((toString number).toList ++ [':']).dropLast).toInt? = some number
  rw [List.dropLast_concat, String.ofList_toList, Cell.toInt?_toString]

/-- Lines between texts. -/
theorem yields_apart {page : Page} (h : page.IsPlain)
    (hnames : ∀ n ∈ page.names, n ∉ ["h4", "p", "pre"]) : page.Yields readTexts [] :=
  (Page.yields_nil h hnames).map textOf

/-- A heading or paragraph on one line. -/
theorem yields_shown (content : List Piece) {name : String} {attributes : List (String × String)}
    (hname : name ∈ ["h4", "p", "pre"]) (hstart : (Piece.start name attributes).isPlain = true)
    (hcontent : ∀ p ∈ content, p.isPlain = true)
    (hnames : ∀ n ∈ content.filterMap Piece.name?, n ∉ ["h4", "p", "pre"].map ("/" ++ ·)) :
    Page.Yields readTexts [.start name attributes :: content ++ [.stop name]]
      [textOf (content.flatMap Piece.tokens)] :=
  (Page.yields_line hstart hname hcontent hnames).map textOf

theorem yields_text (name : String) (attributes : List (String × String)) (content : String)
    (hname : name ∈ ["h4", "p", "pre"]) (hstart : (Piece.start name attributes).isPlain = true) :
    Page.Yields readTexts [[.start name attributes, .text content, .stop name]] [content] := by
  have htext := yields_shown [.text content] hname hstart
    (by simp [Piece.isPlain]) (by simp [Piece.name?])
  rwa [List.flatMap_singleton, textOf_text] at htext

/-- What is shown of a report below its message. -/
def contextTexts (report : Report) : List String :=
  match report.context with
  | some (number, line) => ["Line " ++ toString number ++ ":", line]
  | none => []

theorem yields_contextPage (report : Report) :
    (contextPage report).Yields readTexts (contextTexts report) := by
  cases report with
  | malformed message number line =>
    have opening : Page.Yields readTexts [[.start "div" [("class", "error-context")]]] [] :=
      yields_apart (by decide) (by decide)
    have closing : Page.Yields readTexts [[.stop "div"]] [] := yields_apart (by decide) (by decide)
    have heading : Page.Yields readTexts [.start "p" [] :: [.start "strong" [],
        .text ("Line " ++ toString number ++ ":"), .stop "strong"] ++ [.stop "p"]] _ :=
      yields_shown _ (by decide) (by decide) (isPlain_marked (by decide) _)
        (show ∀ n ∈ ["strong", "/strong"], _ from by decide)
    rw [textOf_marked] at heading
    have body := yields_text "pre" [("class", "context-display")] line (by decide) (by decide)
    exact ((opening.append heading).append body).append closing
  | _ => exact Page.yields_empty

/-- **An error page can be read back**. -/
theorem yields_errorPage (ha : a.IsPlain) (report : Report) :
    (errorPage a report).Yields readTexts
      ("Grammar Error" :: report.message :: contextTexts report) := by
  have styles : Page.Yields readTexts (if a.inlineStyles then stylePage else []) [] := by
    split
    · exact yields_apart (by decide) (by decide)
    · exact Page.yields_empty
  have opening : Page.Yields readTexts [[errorTag a]] [] :=
    yields_apart (List.forall_mem_singleton.2 (List.forall_mem_singleton.2 ha.errorTag))
      (by simp [Page.names, Piece.name?, errorTag])
  have closing : Page.Yields readTexts [[.stop "div"]] [] := yields_apart (by decide) (by decide)
  have title := yields_text "h4" [] "Grammar Error" (by decide) (by decide)
  have message := yields_text "p" [("class", "error-text")] report.message (by decide) (by decide)
  have page := ((((styles.append opening).append title).append message).append
    (yields_contextPage report)).append closing
  simpa [errorPage, errorTag, plain] using page

end ErrorPage

/-! ## What pages look like -/

section Look

variable {α β : Type} {f : Token → Option β} {a b : Appearance} {table other : Table}
  {report report' : Report}

/-- What can be seen of the tags of a page. -/
def Page.look (f : Token → Option β) (page : Page) : List β :=
  page.flatMap (·.flatMap (·.tokens.filterMap f))

theorem Page.look_append (f : Token → Option β) (page rest : Page) :
    look f (page ++ rest) = page.look f ++ rest.look f := List.flatMap_append

theorem Page.look_cons (f : Token → Option β) (line : List Piece) (page : Page) :
    look f (line :: page) = line.flatMap (·.tokens.filterMap f) ++ page.look f := List.flatMap_cons

theorem yields_look (hf : ∀ c, f (.char c) = none) {page : Page} (h : page.IsPlain) :
    page.Yields (List.filterMap f) (page.look f) := by
  refine ⟨h, fun rest => ?_⟩
  have hline : ∀ line : List Piece, (Token.char '\n' :: line.flatMap Piece.tokens).filterMap f =
      line.flatMap (·.tokens.filterMap f) := by
    intro line
    rw [List.filterMap_cons_none (hf _), List.filterMap_flatMap]
  rw [List.filterMap_append, Page.tokens, List.filterMap_flatMap, Page.look]
  simp only [hline]

/-- Lines look the same if each of them does. -/
theorem look_map {κ : Type} {g g' : α → List Piece} {k k' : α → κ} {xs ys : List α}
    (hk : xs.map k = ys.map k')
    (hg : ∀ x y, k x = k' y →
      (g x).flatMap (·.tokens.filterMap f) = (g' y).flatMap (·.tokens.filterMap f)) :
    Page.look f (xs.map g) = Page.look f (ys.map g') := by
  induction xs generalizing ys with
  | nil =>
    rw [List.map_nil, eq_comm, List.map_eq_nil_iff] at hk
    rw [hk]
    rfl
  | cons x xs ih =>
    cases ys with
    | nil => cases hk
    | cons y ys =>
      obtain ⟨hfirst, hrest⟩ := List.cons.inj hk
      simp only [Page.look, List.map_cons, List.flatMap_cons] at ih ⊢
      rw [hg x y hfirst, ih hrest]

theorem map_unit_eq {xs ys : List α} (h : xs.length = ys.length) :
    xs.map (fun _ => ()) = ys.map (fun _ => ()) := by
  rw [List.map_const', List.map_const', h]

theorem states_eq (h : table.SameShape other) : other.states = table.states := by
  rw [Table.states, Table.states, h.stateCount]

/-- The kinds of the cells in the ACTION part of a row. -/
theorem kinds_row (h : table.SameShape other) {state : Nat} (hstate : state ∈ table.states) :
    table.actionColumns.map (fun x => (table.cell state x).kind) =
      other.actionColumns.map (fun x => (other.cell state x).kind) := by
  have hkinds := h.kinds
  rw [Table.rows, Table.rows, states_eq h, List.map_map, List.map_map, List.map_inj_left] at hkinds
  have hrow := hkinds state hstate
  simp only [Function.comp_apply, Table.row, Table.columns, List.map_append, List.map_map] at hrow
  exact (List.append_inj hrow (by simp [Table.actionColumns, h.terminals])).1

variable (hf : ∀ c, f (.char c) = none)

include hf

/-- Of a text nothing can be seen. -/
theorem look_text (content : String) : (Piece.text content).tokens.filterMap f = [] := by
  rw [Piece.tokens, List.filterMap_map]
  exact List.filterMap_eq_nil_iff.2 fun c _ => hf c

theorem look_actionContent (cell : Cell) :
    (actionContent cell).flatMap (·.tokens.filterMap f) =
      (actionContent cell.kind.sample).flatMap (·.tokens.filterMap f) := by
  cases cell with
  | blank => rfl
  | goto target => simp [actionContent, Cell.kind, CellKind.sample, look_text hf]
  | action act =>
    cases act <;> simp [actionContent, markedAction, Cell.kind, CellKind.sample, look_text hf]

theorem look_gotoContent (cell : Cell) :
    (gotoContent cell).flatMap (·.tokens.filterMap f) = [] := by
  cases cell with
  | blank => rfl
  | _ => simp [gotoContent, look_text hf]

theorem look_headCells (attributes : List (String × String)) {xs ys : List String}
    (h : xs.length = ys.length) : Page.look f (xs.map (headCell attributes)) =
      Page.look f (ys.map (headCell attributes)) := by
  refine look_map (map_unit_eq h) fun x y _ => ?_
  simp [headCell, look_text hf]

theorem look_tableHead (h : table.SameShape other) :
    (tableHead table).look f = (tableHead other).look f := by
  have hactions : table.actionColumns.length = other.actionColumns.length := by
    simp [Table.actionColumns, h.terminals]
  have hcolumns : table.columns.length = other.columns.length := by
    simp [Table.columns, hactions, h.nonterminals]
  have haction : partHead table.actionColumns "ACTION" = partHead other.actionColumns "ACTION" := by
    rw [partHead, partHead, hactions]
  have hgoto : partHead table.nonterminals "GOTO" = partHead other.nonterminals "GOTO" := by
    rw [partHead, partHead, h.nonterminals]
  have hempty : table.nonterminals.isEmpty = other.nonterminals.isEmpty := by
    rw [Bool.eq_iff_iff, List.isEmpty_iff_length_eq_zero, List.isEmpty_iff_length_eq_zero,
      h.nonterminals]
  rw [tableHead, tableHead, haction, hgoto, hempty]
  simp only [Page.look_append, look_headCells hf _ hcolumns]

theorem look_tableRow (h : table.SameShape other) {state : Nat} (hstate : state ∈ table.states) :
    (tableRow table state).look f = (tableRow other state).look f := by
  have hactions : Page.look f
      (table.actionColumns.map fun x => bodyCell (actionContent (table.cell state x))) =
      Page.look f
        (other.actionColumns.map fun x => bodyCell (actionContent (other.cell state x))) := by
    refine look_map (kinds_row h hstate) fun x y hxy => ?_
    simp only [bodyCell, List.flatMap_append, List.flatMap_cons]
    rw [look_actionContent hf, hxy, ← look_actionContent hf]
  have hgotos : Page.look f
      (table.nonterminals.map fun x => bodyCell (gotoContent (table.cell state x))) =
      Page.look f
        (other.nonterminals.map fun x => bodyCell (gotoContent (other.cell state x))) := by
    refine look_map (map_unit_eq h.nonterminals) fun x y _ => ?_
    simp only [bodyCell, List.flatMap_append, List.flatMap_cons, look_gotoContent hf]
  simp only [tableRow, Page.look_append, hactions, hgotos]

/-- Whether the tags that depend on an appearance look the same. -/
structure Appearance.Alike (f : Token → Option β) (a b : Appearance) : Prop where
  tableTag : (tableTag a).tokens.filterMap f = (tableTag b).tokens.filterMap f
  errorTag : (errorTag a).tokens.filterMap f = (errorTag b).tokens.filterMap f

/-- **Tables of one shape have pages that look the same.** -/
theorem look_tablePage (hab : a.Alike f b) (h : table.SameShape other) :
    (tablePage a table).look f = (tablePage b other).look f := by
  have hrows : Page.look f (table.states.flatMap (tableRow table)) =
      Page.look f (other.states.flatMap (tableRow other)) := by
    rw [states_eq h, Page.look, Page.look, List.flatMap_assoc, List.flatMap_assoc]
    exact List.flatMap_congr fun state hstate => look_tableRow hf h hstate
  have hstart := hab.tableTag
  have herror := hab.errorTag
  simp only [Html.tableTag, Html.errorTag] at hstart herror
  rw [tablePage, tablePage, h.stateCount]
  split
  · simp only [Page.look, List.flatMap_cons, herror]
  · simp only [List.cons_append, Page.look_append, hrows, look_tableHead hf h, Page.look_cons]
    simp only [List.flatMap_singleton, hstart]

/-- **Reports that both show a line, or both do not, have pages that look the same.** -/
theorem look_errorPage (hab : a.Alike f b) (hstyles : a.inlineStyles = b.inlineStyles)
    (h : report.context.isSome = report'.context.isSome) :
    (errorPage a report).look f = (errorPage b report').look f := by
  have hcontext : (contextPage report).look f = (contextPage report').look f := by
    cases report <;> cases report'
    case malformed.malformed => simp [contextPage, Page.look, look_text hf]
    all_goals first | rfl | cases h
  have herror := hab.errorTag
  simp only [Html.errorTag] at herror
  rw [errorPage, errorPage, hstyles]
  simp only [Page.look_append, hcontext, Page.look_cons, List.flatMap_cons, herror, look_text hf]

end Look

/-! ## Written pages -/

/-- The tags of a written page, attributes included. -/
def tagTexts? (s : String) : Option (List String) :=
  (tokens? .text s.toList).map (·.filterMap Token.tag?)

/-- The names in the tags of a written page. -/
def tagNames? (s : String) : Option (List String) :=
  (tokens? .text s.toList).map (·.filterMap Token.name?)

/-- The texts of the cells of a written page, row by row. -/
def rows? (s : String) : Option (List (List String)) := (tokens? .text s.toList).map readRows

/-- The message on a written page, and the number and the text of the line that it shows. -/
def report? (s : String) : Option (String × Option (Int × String)) :=
  (tokens? .text s.toList).bind readReport

section Written

variable {a b : Appearance}

theorem isPlain_tablePage (ha : a.IsPlain) (table : Table) : (tablePage a table).IsPlain := by
  by_cases h : table.stateCount = 0
  · rw [tablePage, if_pos h]
    exact List.forall_mem_cons.2 ⟨List.forall_mem_singleton.2 ha.errorTag, by decide⟩
  · exact (yields_tablePage ha h).plain

theorem alike_name? (ha : a.IsPlain) (hb : b.IsPlain) : a.Alike Token.name? b where
  tableTag := by
    rw [filterMap_name?_tokens ha.tableTag, filterMap_name?_tokens hb.tableTag]
    rfl
  errorTag := by
    rw [filterMap_name?_tokens ha.errorTag, filterMap_name?_tokens hb.errorTag]
    rfl

theorem readReport_of_texts {report : Report} {ts : List Token}
    (h : readTexts ts = "Grammar Error" :: report.message :: contextTexts report) :
    readReport ts = some (report.message, report.context) := by
  rw [readReport, h]
  cases report with
  | malformed message number line =>
    show (lineNumber? ("Line " ++ toString number ++ ":")).map _ = _
    rw [lineNumber?_heading]
    rfl
  | _ => rfl

end Written

/-- **No text can break a page, and every text can be read back.**  If the classes of an appearance
can stand in a quoted value, then the tags of a table page, as a strict reader finds them in what is
written, depend on the shape of the table only, and their names not even on the appearance.  If
there are states, the cells read: the parts, the columns, and for each state its number and its
cells.  The tags of an error page depend on whether it shows a line and on whether styles are asked
for, and the page gives back the message, and the number and the text of the line. -/
theorem pages_faithful {a : Appearance} (ha : a.IsPlain) :
    (∀ table other : Table, table.SameShape other → ∃ tags,
      tagTexts? (tablePage a table).render = some tags ∧
      tagTexts? (tablePage a other).render = some tags) ∧
    (∀ (b : Appearance) (table other : Table), b.IsPlain → table.SameShape other → ∃ names,
      tagNames? (tablePage a table).render = some names ∧
      tagNames? (tablePage b other).render = some names) ∧
    (∀ table : Table, table.stateCount ≠ 0 → rows? (tablePage a table).render =
      some (partNames table :: table.columns :: table.states.map table.line)) ∧
    (∀ report report' : Report, report.context.isSome = report'.context.isSome → ∃ tags,
      tagTexts? (errorPage a report).render = some tags ∧
      tagTexts? (errorPage a report').render = some tags) ∧
    (∀ (b : Appearance) (report report' : Report), b.IsPlain → a.inlineStyles = b.inlineStyles →
      report.context.isSome = report'.context.isSome → ∃ names,
      tagNames? (errorPage a report).render = some names ∧
      tagNames? (errorPage b report').render = some names) ∧
    ∀ report : Report,
      report? (errorPage a report).render = some (report.message, report.context) := by
  have htag : ∀ c, Token.tag? (.char c) = none := fun _ => rfl
  have hname : ∀ c, Token.name? (.char c) = none := fun _ => rfl
  have tags : ∀ {page : Page}, page.IsPlain →
      tagTexts? page.render = some (page.look Token.tag?) :=
    fun h => (yields_look htag h).render rfl fun _ => rfl
  have names : ∀ {page : Page}, page.IsPlain →
      tagNames? page.render = some (page.look Token.name?) :=
    fun h => (yields_look hname h).render rfl fun _ => rfl
  refine ⟨?_, ?_, ?_, ?_, ?_, ?_⟩
  · intro table other hshape
    refine ⟨_, tags (isPlain_tablePage ha table), ?_⟩
    rw [tags (isPlain_tablePage ha other), look_tablePage htag ⟨rfl, rfl⟩ hshape]
  · intro b table other hb hshape
    refine ⟨_, names (isPlain_tablePage ha table), ?_⟩
    rw [names (isPlain_tablePage hb other), look_tablePage hname (alike_name? ha hb) hshape]
  · intro table hstates
    exact (yields_tablePage ha hstates).render rfl fun _ => rfl
  · intro report report' hcontext
    refine ⟨_, tags (yields_errorPage ha report).plain, ?_⟩
    rw [tags (yields_errorPage ha report').plain, look_errorPage htag ⟨rfl, rfl⟩ rfl hcontext]
  · intro b report report' hb hstyles hcontext
    refine ⟨_, names (yields_errorPage ha report).plain, ?_⟩
    rw [names (yields_errorPage hb report').plain,
      look_errorPage hname (alike_name? ha hb) hstyles hcontext]
  · intro report
    have htexts := (yields_errorPage ha report).render rfl fun _ => rfl
    obtain ⟨ts, hts, hread⟩ := Option.map_eq_some_iff.1 htexts
    rw [report?, hts, Option.bind_some]
    exact readReport_of_texts hread

/-- Columns that look like tags and entities: the page has the tags of one with harmless columns,
and the columns are read as they are. -/
theorem pages_faithful_hostile :
    let hostile : Table := ⟨⟨[(0, [("</th>", .shift 1)])]⟩, ⟨[(0, [("&lt;", 7)])]⟩,
      ["</th>"], ["&lt;"], 1⟩
    let harmless : Table := ⟨⟨[(0, [("a", .shift 2)])]⟩, ⟨[(0, [("S", 3)])]⟩, ["a"], ["S"], 1⟩
    (∃ tags, tagTexts? (tablePage .standard hostile).render = some tags ∧
      tagTexts? (tablePage .standard harmless).render = some tags) ∧
    rows? (tablePage .standard hostile).render = some [["State", "ACTION", "GOTO"],
      ["</th>", "$", "&lt;"], ["0", "s1", "", "7"]] ∧
    report? (errorPage .standard (.malformed "no <arrow>" 3 "S & <b>")).render =
      some ("Line 3: no <arrow>", some (3, "S & <b>")) := by
  intro hostile harmless
  have hplain : Appearance.standard.IsPlain := ⟨by decide, by decide⟩
  have hshape : hostile.SameShape harmless := ⟨rfl, rfl, rfl, by decide⟩
  obtain ⟨htags, -, hrows, -, -, hreport⟩ := pages_faithful hplain
  exact ⟨htags hostile harmless hshape, hrows hostile (by decide), hreport _⟩

end Html

end CanonicalLR
