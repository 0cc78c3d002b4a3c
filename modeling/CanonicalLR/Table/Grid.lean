import CanonicalLR.Entries
import CanonicalLR.Symbol

/-!
# Cells by state number and symbol

A grid has a row for each state number that was opened, possibly empty, in order of arrival.
Writing a cell opens its row.  `get?` is the view of a grid: a written cell holds the value
written last, and writing leaves every other cell alone.
-/

namespace CanonicalLR

/-- Rows of cells by state number. -/
structure Grid (α : Type) where
  rows : Entries Int (Entries Symbol α)
deriving DecidableEq, Repr

namespace Grid

variable {α : Type}

/-- The grid without rows. -/
def empty : Grid α := ⟨[]⟩

/-- The cells of a row; a row that is not open has none. -/
def row (grid : Grid α) (i : Int) : Entries Symbol α := (grid.rows.lookup i).getD []

/-- The value of a cell. -/
def get? (grid : Grid α) (i : Int) (x : Symbol) : Option α := (grid.row i).lookup x

/-- Opens a row and keeps the cells it has. -/
def openRow (grid : Grid α) (i : Int) : Grid α := ⟨grid.rows.put i (grid.row i)⟩

/-- Writes a cell. -/
def put (grid : Grid α) (i : Int) (x : Symbol) (value : α) : Grid α :=
  ⟨grid.rows.put i ((grid.row i).put x value)⟩

/-- The number of cells that hold a value. -/
def size (grid : Grid α) : Nat := grid.rows.foldr (fun entry count => entry.2.length + count) 0

theorem row_put (grid : Grid α) (i j : Int) (x : Symbol) (value : α) :
    (grid.put i x value).row j = if j = i then (grid.row i).put x value else grid.row j := by
  by_cases h : j = i <;> simp [put, row, Entries.lookup_put, h]

theorem row_openRow (grid : Grid α) (i j : Int) : (grid.openRow i).row j = grid.row j := by
  by_cases h : j = i
  · subst h; simp [openRow, row, Entries.lookup_put]
  · simp [openRow, row, Entries.lookup_put, h]

/-- A written cell holds the new value, and every other cell holds what it held. -/
theorem get?_put (grid : Grid α) (i j : Int) (x y : Symbol) (value : α) :
    (grid.put i x value).get? j y =
      if j = i ∧ y = x then some value else grid.get? j y := by
  unfold get?
  rw [row_put]
  by_cases h : j = i
  · subst h
    simp [Entries.lookup_put]
  · simp [h]

theorem get?_openRow (grid : Grid α) (i j : Int) (x : Symbol) :
    (grid.openRow i).get? j x = grid.get? j x := by
  rw [get?, row_openRow, get?]

end Grid

end CanonicalLR
