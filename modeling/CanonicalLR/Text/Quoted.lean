import CanonicalLR.Text.CodePoint
import CanonicalLR.Text.Printable

/-!
# Quoted texts

A text is shown between single quotes, or between double quotes if it holds a single quote and no
double quote.  Backslashes and the quote in use are written with a backslash, and so are line
breaks and tabs; every other code point that is no printable character is written by its number in
two, four or eight hexadecimal digits.  A text that is shown without quotes stands for itself, only
surrogates are written by their numbers.
-/

namespace CanonicalLR.Text

/-- The lower-case hexadecimal digits of a number, filled up with zeros to a width. -/
def hexDigits (width n : Nat) : List Char :=
  let digits := Nat.toDigits 16 n
  List.replicate (width - digits.length) '0' ++ digits

/-- The escape of a code point by its number. -/
def escapeCode (p : CodePoint) : List Char :=
  if p.value < 0x100 then '\\' :: 'x' :: hexDigits 2 p.value
  else if p.value < 0x10000 then '\\' :: 'u' :: hexDigits 4 p.value
  else '\\' :: 'U' :: hexDigits 8 p.value

/-- The written form of a code point between the given quotes. -/
def quotePoint (mark : Char) : CodePoint → List Char
  | .char c =>
    if c = mark ∨ c = '\\' then ['\\', c]
    else if c = '\n' then ['\\', 'n']
    else if c = '\r' then ['\\', 'r']
    else if c = '\t' then ['\\', 't']
    else if isPrintable c then [c]
    else escapeCode (.char c)
  | .surrogate offset => escapeCode (.surrogate offset)

/-- The quote for a text. -/
def quoteMark (points : List CodePoint) : Char :=
  if points.contains (.char '\'') && !points.contains (.char '"') then '"' else '\''

/-- The quoted form of a text. -/
def quoted (points : List CodePoint) : String :=
  let mark := quoteMark points
  String.ofList (mark :: points.flatMap (quotePoint mark) ++ [mark])

/-- The form of a text without quotes. -/
def shown (points : List CodePoint) : String :=
  String.ofList <| points.flatMap fun
    | .char c => [c]
    | .surrogate offset => escapeCode (.surrogate offset)

/-- A text between braces. -/
def braced (text : String) : String := ("".push '{' ++ text).push '}'

end CanonicalLR.Text
