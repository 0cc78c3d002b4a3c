import CanonicalLR.Build
import CanonicalLR.Json.Basic

/-!
# JSON views of grammars, automata and tables

The views hold everything a client needs to draw an automaton or a table.
-/

namespace CanonicalLR

/-- A production with its number and its text. -/
def Rule.view (rule : Rule) : Json :=
  .record [("id", .int rule.id), ("lhs", .string rule.lhs), ("rhs", .strings rule.rhs),
    ("text", .string rule.render)]

/-- An item with its text. -/
def Item.view (item : Item) : Json :=
  .record [("non_terminal", .string item.lhs), ("production", .strings item.rhs),
    ("dot", .int item.dot), ("lookahead", .string item.lookahead), ("text", .string item.render)]

/-- A state with its items and its transitions. -/
def State.view (state : State) : Json :=
  .record [("index", .int state.index), ("items", .list (state.items.map Item.view)),
    ("transitions", .record (state.transitions.map fun move => (move.1, .int move.2)))]

/-- An automaton with its states. -/
def Automaton.view (automaton : Automaton) : Json :=
  .record [("augmented_start", .string automaton.augmentedStart),
    ("states", .list (automaton.states.map State.view))]

/-- A cell: a number for a GOTO entry, a text otherwise. -/
def Cell.view : Cell → Json
  | .goto target => .int target
  | cell => .string cell.render

/-- The columns and rows of a table. -/
def Table.view (table : Table) : Json :=
  .record [("columns", .strings table.columns),
    ("rows", .list (table.rows.map fun row => .list (row.map Cell.view)))]

end CanonicalLR
