import CanonicalLR.Table.Grid

/-!
# Parse tables

A table has an ACTION part, with one column for each terminal and for the end marker, and a GOTO
part with one column for each nonterminal.  The rows shown are those of the states 0, 1, 2, ... up
to the number of states; a table made by hand may give any number, and a negative one shows no rows.
A cell of a row shows the GOTO entry of its column if there is one, else the ACTION entry, else
nothing.
-/

namespace CanonicalLR

/-- What a parser does with a token: move to a state, reduce by a production, or accept. -/
inductive Action where
  | shift (target : Int)
  | reduce (rule : Int)
  | accept
deriving DecidableEq, Repr

namespace Action

/-- The text of an action: `s3`, `r2` or `acc`. -/
def render : Action → String
  | shift target => "s" ++ toString target
  | reduce rule => "r" ++ toString rule
  | accept => "acc"

end Action

/-- The content of a table cell. -/
inductive Cell where
  | blank
  | action (action : Action)
  | goto (target : Int)
deriving DecidableEq, Repr

namespace Cell

/-- The text of a cell; a GOTO entry is its number alone. -/
def render : Cell → String
  | blank => ""
  | action a => a.render
  | goto target => toString target

end Cell

/-- ACTION and GOTO entries with the order of the columns. -/
structure Table where
  action : Grid Action
  goto : Grid Int
  terminals : List Symbol
  nonterminals : List Symbol
  stateCount : Int
deriving DecidableEq, Repr

namespace Table

/-- The columns of the ACTION part. -/
def actionColumns (table : Table) : List Symbol := table.terminals ++ [endMarker]

/-- All columns: terminals, end marker, nonterminals. -/
def columns (table : Table) : List Symbol := table.actionColumns ++ table.nonterminals

/-- The states that have a row. -/
def states (table : Table) : List Nat := List.range table.stateCount.toNat

/-- The content of a cell. -/
def cell (table : Table) (state : Int) (x : Symbol) : Cell :=
  match table.goto.get? state x with
  | some target => .goto target
  | none =>
    match table.action.get? state x with
    | some action => .action action
    | none => .blank

/-- The row of a state, column by column. -/
def row (table : Table) (state : Nat) : List Cell := table.columns.map (table.cell state)

/-- The rows of all states in order. -/
def rows (table : Table) : List (List Cell) := table.states.map table.row

end Table

end CanonicalLR
