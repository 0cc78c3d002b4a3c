import CanonicalLR.Grammar.Basic

/-!
# LR(1) items

An item is a production with a dot in its right-hand side and a lookahead symbol.  The dot may
stand past the end; such an item is complete like one whose dot stands at the end.
-/

namespace CanonicalLR

/-- A production `lhs -> rhs` read up to `dot`, to be followed by `lookahead`. -/
structure Item where
  lhs : Symbol
  rhs : List Symbol
  dot : Nat
  lookahead : Symbol
deriving DecidableEq, Repr

namespace Item

/-- Whether nothing is left to read. -/
def isComplete (item : Item) : Bool := item.rhs.length ≤ item.dot

/-- The symbol after the dot. -/
def next? (item : Item) : Option Symbol := item.rhs[item.dot]?

/-- What follows the symbol after the dot. -/
def beyond (item : Item) : List Symbol := item.rhs.drop (item.dot + 1)

/-- The item with the dot one symbol further. -/
def advance (item : Item) : Item := { item with dot := item.dot + 1 }

/-- The text of an item, such as `[A -> x . y, $]`; a dot past the end is written at the end. -/
def render (item : Item) : String :=
  let body :=
    if item.rhs.isEmpty then "."
    else " ".intercalate (item.rhs.take item.dot ++ "." :: item.rhs.drop item.dot)
  "[" ++ item.lhs ++ " -> " ++ body ++ ", " ++ item.lookahead ++ "]"

/-- Compares items by left-hand side, right-hand side, dot and lookahead. -/
protected def compare (a b : Item) : Ordering :=
  (compare a.lhs b.lhs).then <| (compare a.rhs b.rhs).then <|
    (compare a.dot b.dot).then (compare a.lookahead b.lookahead)

/-- The items in ascending order. -/
def sort (items : List Item) : List Item := items.mergeSort fun a b => (a.compare b).isLE

/-- The symbols that stand after a dot, in order of first appearance. -/
def nextSymbols (items : List Item) : List Symbol := distinct (items.filterMap next?)

/-- Whether two lists hold the same items. -/
def sameSet (a b : List Item) : Bool := a.all (b.contains ·) && b.all (a.contains ·)

end Item

end CanonicalLR
