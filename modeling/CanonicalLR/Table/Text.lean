import CanonicalLR.Table.Basic
import CanonicalLR.Text.Blank

/-!
# Tables as aligned text

The text of a table has a heading line and one line for each state.  Every column is as wide as
its widest entry, counted in characters; entries are filled up with spaces on the right, columns
are two spaces apart, and blanks at the end of a line are dropped.
-/

namespace CanonicalLR

namespace Table

/-- An entry filled up to a width. -/
def pad (width : Nat) (entry : List Char) : List Char :=
  entry ++ List.replicate (width - entry.length) ' '

/-- The widths of the columns of some lines. -/
def widths : List (List (List Char)) → List Nat
  | [] => []
  | [line] => line.map List.length
  | line :: rest => List.zipWith max (line.map List.length) (widths rest)

/-- One line of the text, without the blanks at its end. -/
def renderLine (widths : List Nat) (entries : List (List Char)) : List Char :=
  Text.stripEnd <| [' ', ' '].intercalate <| List.zipWith pad widths entries

/-- The entries of the heading line. -/
def heading (table : Table) : List String := "State" :: table.columns

/-- The entries of the line of a state. -/
def line (table : Table) (state : Nat) : List String :=
  toString state :: (table.row state).map Cell.render

/-- The entries of all lines. -/
def entries (table : Table) : List (List (List Char)) :=
  (table.heading :: table.states.map table.line).map (·.map String.toList)

/-- The text of a table. -/
def render (table : Table) : String :=
  String.ofList <| ['\n'].intercalate <|
    table.entries.map (renderLine (widths table.entries))

end Table

end CanonicalLR
