import CanonicalLR.Text.Ranges

/-!
# Blank characters, stripping and words

A character is blank if it belongs to the Unicode property `White_Space` or is one of the four
information separators U+001C to U+001F.  `strip` removes the blanks at both ends of a text and
`words` cuts a text into its maximal runs of other characters.  All functions work on lists of
characters, so that they recurse on the text itself.
-/

namespace CanonicalLR.Text

/-- The blank characters as closed ranges of code points, ascending and apart. -/
def blankRanges : List (Nat × Nat) :=
  [(0x09, 0x0D), (0x1C, 0x20), (0x85, 0x85), (0xA0, 0xA0), (0x1680, 0x1680), (0x2000, 0x200A),
    (0x2028, 0x2029), (0x202F, 0x202F), (0x205F, 0x205F), (0x3000, 0x3000)]

/-- Whether a character separates words. -/
def isBlank (c : Char) : Bool := inRanges blankRanges c.toNat

/-- A text without the blanks at its end. -/
def stripEnd (cs : List Char) : List Char := (cs.reverse.dropWhile isBlank).reverse

/-- A text without the blanks at both ends. -/
def strip (cs : List Char) : List Char := stripEnd (cs.dropWhile isBlank)

/-- Puts a character in front of the first of several pieces of text. -/
def extendFirst (c : Char) : List (List Char) → List (List Char)
  | [] => [[c]]
  | piece :: pieces => (c :: piece) :: pieces

/-- The words of a text: its maximal runs of characters that are not blank, in order. -/
def words : List Char → List (List Char)
  | [] => []
  | c :: cs =>
    if isBlank c then words cs
    else if cs.head?.all isBlank then [c] :: words cs
    else extendFirst c (words cs)

end CanonicalLR.Text
