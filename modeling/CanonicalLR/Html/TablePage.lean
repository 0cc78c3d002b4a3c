import CanonicalLR.Html.Markup
import CanonicalLR.Table.Basic

/-!
# Parse tables as pages

A table has a head of two lines, which names the ACTION and GOTO parts and then the columns, and a
body with one row for each state.  In the ACTION part an action is marked by its kind.  A table
without states is replaced by a note.
-/

namespace CanonicalLR.Html

/-- A heading cell of the table. -/
def headCell (attributes : List (String × String)) (content : String) : List Piece :=
  [.start "th" (("class", "grammar-table-header") :: attributes), .text content, .stop "th"]

/-- A body cell with given content. -/
def bodyCell (content : List Piece) : List Piece :=
  .start "td" [("class", "grammar-table-cell")] :: content ++ [.stop "td"]

/-- An action marked by its kind. -/
def markedAction (kind : String) (action : Action) : List Piece :=
  [.start "span" [("class", "grammar-action-" ++ kind)], .text action.render, .stop "span"]

/-- The content of a cell of the ACTION part. -/
def actionContent : Cell → List Piece
  | .blank => []
  | .action .accept => markedAction "accept" .accept
  | .action (.shift target) => markedAction "shift" (.shift target)
  | .action (.reduce rule) => markedAction "reduce" (.reduce rule)
  | .goto target => [.text (toString target)]

/-- The content of a cell of the GOTO part. -/
def gotoContent : Cell → List Piece
  | .blank => []
  | cell => [.text cell.render]

/-- The heading over a part of the table. -/
def partHead (columns : List Symbol) (name : String) : List Piece :=
  headCell [("scope", "colgroup"), ("colspan", toString columns.length)] name

/-- The head of a table. -/
def tableHead (table : Table) : Page :=
  [[plain "thead"], [plain "tr"],
    [.start "th" [("class", "grammar-table-header grammar-table-header-primary"),
      ("scope", "col"), ("rowspan", "2")], .text "State", .stop "th"],
    partHead table.actionColumns "ACTION"] ++
  (if table.nonterminals.isEmpty then [] else [partHead table.nonterminals "GOTO"]) ++
  [[.stop "tr"], [plain "tr"]] ++
  table.columns.map (headCell [("scope", "col")]) ++
  [[.stop "tr"], [.stop "thead"]]

/-- The row of a state. -/
def tableRow (table : Table) (state : Nat) : Page :=
  [[plain "tr"],
    [.start "th" [("class", "grammar-table-cell grammar-table-cell-primary"), ("scope", "row")],
      .text (toString state), .stop "th"]] ++
  table.actionColumns.map (fun x => bodyCell (actionContent (table.cell state x))) ++
  table.nonterminals.map (fun x => bodyCell (gotoContent (table.cell state x))) ++
  [[.stop "tr"]]

/-- The page of a table. -/
def tablePage (appearance : Appearance) (table : Table) : Page :=
  if table.stateCount = 0 then
    [[.start "div" [("class", appearance.errorClasses)]],
      [plain "p", .text "No parsing states found", .stop "p"], [.stop "div"]]
  else
    [.start "table" [("class", "grammar-table " ++ appearance.tableClasses), ("role", "table"),
      ("aria-label", "LR(1) Parsing Table with ACTION and GOTO sections")]] ::
    tableHead table ++ [[plain "tbody"]] ++
    table.states.flatMap (tableRow table) ++
    [[.stop "tbody"], [.stop "table"]]

end CanonicalLR.Html
