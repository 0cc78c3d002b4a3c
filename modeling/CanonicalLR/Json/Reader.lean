import CanonicalLR.Json.Basic

/-!
# Reading JSON text

The text of one value may have blanks around it and between its tokens.  `NaN`, `Infinity` and
`-Infinity` are accepted as numbers.  An escape that names the first half of a surrogate pair is
joined with an escape that names the second half right after it; any other half stands alone.  In
an object the last of several fields of one name counts, at the place of the first.  An integer may
have at most 4300 digits.
-/

namespace CanonicalLR.Json

/-- The text after its leading blanks. -/
def skipBlanks (ps : List CodePoint) : List CodePoint :=
  ps.dropWhile fun p => p = .char ' ' || p = .char '\t' || p = .char '\n' || p = .char '\r'

/-- The value of a hexadecimal digit. -/
def hexDigit? : CodePoint → Option Nat
  | .char c =>
    if '0' ≤ c ∧ c ≤ '9' then some (c.toNat - 48)
    else if 'a' ≤ c ∧ c ≤ 'f' then some (c.toNat - 87)
    else if 'A' ≤ c ∧ c ≤ 'F' then some (c.toNat - 55)
    else none
  | .surrogate _ => none

/-- The code point that four hexadecimal digits name. -/
def hexUnit? (a b c d : CodePoint) : Option CodePoint :=
  match hexDigit? a, hexDigit? b, hexDigit? c, hexDigit? d with
  | some a, some b, some c, some d => some (.ofNat (((a * 16 + b) * 16 + c) * 16 + d))
  | _, _, _, _ => none

/-- The character that a backslash and a letter stand for. -/
def escaped? : CodePoint → Option Char
  | .char '"' => some '"'
  | .char '\\' => some '\\'
  | .char '/' => some '/'
  | .char 'b' => some '\x08'
  | .char 'f' => some '\x0c'
  | .char 'n' => some '\n'
  | .char 'r' => some '\r'
  | .char 't' => some '\t'
  | _ => none

/-- A piece of a text between quotes: a code point, and whether an escape names it by number. -/
structure Piece where
  point : CodePoint
  isNamed : Bool
deriving DecidableEq, Repr

/-- Reads the pieces of a text up to its closing quote, in front of the pieces read so far in
reverse. -/
def readPieces (read : List Piece) : List CodePoint → Option (List Piece × List CodePoint)
  | .char '"' :: rest => some (read, rest)
  | .char '\\' :: .char 'u' :: a :: b :: c :: d :: rest =>
    match hexUnit? a b c d with
    | some point => readPieces (⟨point, true⟩ :: read) rest
    | none => none
  | .char '\\' :: p :: rest =>
    match escaped? p with
    | some c => readPieces (⟨.char c, false⟩ :: read) rest
    | none => none
  | p :: rest => if p.value < 0x20 then none else readPieces (⟨p, false⟩ :: read) rest
  | [] => none

/-- Whether two neighbouring pieces name the halves of a surrogate pair. -/
def Piece.isPair (high low : Piece) : Bool :=
  high.isNamed && low.isNamed && high.point.isHigh && low.point.isLow

/-- The code points of pieces in reverse order, with surrogate pairs joined, in front of the code
points after them. -/
def joinPieces (joined : List CodePoint) : List Piece → List CodePoint
  | [] => joined
  | low :: high :: rest =>
    if high.isPair low then joinPieces (.ofPair high.point low.point :: joined) rest
    else joinPieces (low.point :: joined) (high :: rest)
  | [piece] => piece.point :: joined

/-- Reads a text after its opening quote. -/
def readText (ps : List CodePoint) : Option (List CodePoint × List CodePoint) :=
  (readPieces [] ps).map fun found => (joinPieces [] found.1, found.2)

/-- Whether a code point is one of the digits `0` to `9`. -/
def isDigit (p : CodePoint) : Bool := 48 ≤ p.value && p.value ≤ 57

/-- The value of decimal digits. -/
def digitsValue (digits : List CodePoint) : Nat :=
  digits.foldl (fun value p => value * 10 + (p.value - 48)) 0

/-- The number `digits * 10 ^ exponent` in the 64-bit format.  What lies far outside its range is
zero or infinite. -/
def realOf (negative : Bool) (digits : Nat) (exponent : Int) : Float :=
  let magnitude := (toString digits).length + exponent
  let size : Float :=
    if digits = 0 ∨ magnitude < -400 then 0.0
    else if 400 < magnitude then 1.0 / 0.0
    else Float.ofScientific digits (decide (exponent < 0)) exponent.natAbs
  if negative then -size else size

/-- The fraction digits after a point, if a digit follows the point. -/
def readFraction : List CodePoint → Option (List CodePoint × List CodePoint)
  | .char '.' :: rest =>
    let digits := rest.takeWhile isDigit
    if digits.isEmpty then none else some (digits, rest.dropWhile isDigit)
  | _ => none

/-- The exponent after its mark, if it has a digit. -/
def readExponent : List CodePoint → Option (Int × List CodePoint)
  | mark :: rest =>
    if mark = .char 'e' ∨ mark = .char 'E' then
      let (sign, unsigned) : Int × List CodePoint :=
        match rest with
        | .char '-' :: more => (-1, more)
        | .char '+' :: more => (1, more)
        | more => (1, more)
      let digits := unsigned.takeWhile isDigit
      if digits.isEmpty then none
      else some (sign * (digitsValue digits : Nat), unsigned.dropWhile isDigit)
    else none
  | [] => none

/-- The most digits that an integer may have. -/
def maxIntegerDigits : Nat := 4300

/-- Reads a number after its sign. -/
def readNumber (negative : Bool) (ps : List CodePoint) : Option (Json × List CodePoint) :=
  let digits : List CodePoint := match ps with
    | .char '0' :: _ => [.char '0']
    | _ => ps.takeWhile isDigit
  if digits.isEmpty then none
  else
    let rest := ps.drop digits.length
    let fraction := readFraction rest
    let (places, afterFraction) := fraction.getD ([], rest)
    match fraction, readExponent afterFraction with
    | none, none =>
      if maxIntegerDigits < digits.length then none
      else
        let value : Int := digitsValue digits
        some (.int (if negative then -value else value), rest)
    | _, exponent =>
      let (power, afterExponent) := exponent.getD (0, afterFraction)
      some (.real (realOf negative (digitsValue (digits ++ places)) (power - places.length)),
        afterExponent)

/-- The rest of a text after a given beginning. -/
def expect? : List Char → List CodePoint → Option (List CodePoint)
  | [], ps => some ps
  | c :: cs, p :: ps => if p = .char c then expect? cs ps else none
  | _ :: _, [] => none

mutual

/-- Reads a value that starts at the first code point; `depth` bounds the nesting. -/
def readValue : Nat → List CodePoint → Option (Json × List CodePoint)
  | 0, _ => none
  | depth + 1, ps =>
    match ps with
    | .char '"' :: rest => (readText rest).map fun found => (.text found.1, found.2)
    | .char '[' :: rest =>
      match skipBlanks rest with
      | .char ']' :: rest => some (.list [], rest)
      | items => (readItems depth items).map fun found => (.list found.1, found.2)
    | .char '{' :: rest =>
      match skipBlanks rest with
      | .char '}' :: rest => some (.object [], rest)
      | fields => (readFields depth [] fields).map fun found => (.object found.1, found.2)
    | .char 'n' :: rest => (expect? "ull".toList rest).map fun rest => (.null, rest)
    | .char 't' :: rest => (expect? "rue".toList rest).map fun rest => (.bool true, rest)
    | .char 'f' :: rest => (expect? "alse".toList rest).map fun rest => (.bool false, rest)
    | .char 'N' :: rest => (expect? "aN".toList rest).map fun rest => (.real (0.0 / 0.0), rest)
    | .char 'I' :: rest => (expect? "nfinity".toList rest).map fun rest => (.real (1.0 / 0.0), rest)
    | .char '-' :: .char 'I' :: rest =>
      (expect? "nfinity".toList rest).map fun rest => (.real (-1.0 / 0.0), rest)
    | .char '-' :: rest => readNumber true rest
    | _ => readNumber false ps

/-- Reads the items of a list up to its end. -/
def readItems : Nat → List CodePoint → Option (List Json × List CodePoint)
  | 0, _ => none
  | depth + 1, ps =>
    match readValue depth ps with
    | none => none
    | some (item, rest) =>
      match skipBlanks rest with
      | .char ']' :: rest => some ([item], rest)
      | .char ',' :: rest =>
        (readItems depth (skipBlanks rest)).map fun found => (item :: found.1, found.2)
      | _ => none

/-- Reads the fields of an object up to its end, after those read so far. -/
def readFields : Nat → List (List CodePoint × Json) → List CodePoint →
    Option (List (List CodePoint × Json) × List CodePoint)
  | 0, _, _ => none
  | depth + 1, fields, ps =>
    match ps with
    | .char '"' :: rest =>
      match readText rest with
      | none => none
      | some (name, rest) =>
        match skipBlanks rest with
        | .char ':' :: rest =>
          match readValue depth (skipBlanks rest) with
          | none => none
          | some (value, rest) =>
            let fields := Entries.put name value fields
            match skipBlanks rest with
            | .char '}' :: rest => some (fields, rest)
            | .char ',' :: rest => readFields depth fields (skipBlanks rest)
            | _ => none
        | _ => none
    | _ => none

end

/-- Reads the text of one value. -/
def read (ps : List CodePoint) : Option Json :=
  match readValue (ps.length + 1) (skipBlanks ps) with
  | some (value, rest) => if (skipBlanks rest).isEmpty then some value else none
  | none => none

end CanonicalLR.Json
