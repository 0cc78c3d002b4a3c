import CanonicalLR.Text.Blank

/-!
# Lines and separated pieces

A line ends at a carriage return followed by a line feed, at a carriage return alone, or at a
line feed alone; no other character ends a line.  Every text has at least one line and at least
one piece between separators, possibly empty.
-/

namespace CanonicalLR.Text

/-- The lines of a text without their line breaks. -/
def lines : List Char → List (List Char)
  | [] => [[]]
  | '\r' :: '\n' :: cs => [] :: lines cs
  | c :: cs => if c = '\r' ∨ c = '\n' then [] :: lines cs else extendFirst c (lines cs)

/-- A text with every line break written as a line feed. -/
def unifyBreaks : List Char → List Char
  | [] => []
  | '\r' :: '\n' :: cs => '\n' :: unifyBreaks cs
  | c :: cs => (if c = '\r' then '\n' else c) :: unifyBreaks cs

/-- The pieces of a text between the occurrences of a separator. -/
def pieces (separator : Char) : List Char → List (List Char)
  | [] => [[]]
  | c :: cs =>
    if c = separator then [] :: pieces separator cs else extendFirst c (pieces separator cs)

/-- Cuts a text around the first `->` in it; nothing if there is none. -/
def cutArrow : List Char → Option (List Char × List Char)
  | [] => none
  | '-' :: '>' :: cs => some ([], cs)
  | c :: cs => (cutArrow cs).map fun cut => (c :: cut.1, cut.2)

end CanonicalLR.Text
