import CanonicalLR.Grammar.Listing
import CanonicalLR.Text.Split

/-!
# Reading grammar text

Each line that is not blank is one rule, `LHS -> RHS | RHS | ...`.  The left-hand side is a single
word.  An alternative is a list of words; no word at all, or the single word `ε`, is the empty
alternative.  The words `$` and `ε` are no symbols of a grammar.  A text without rules is refused
as empty; otherwise the first line that breaks a rule of the notation is reported with its number
and its stripped text.
-/

namespace CanonicalLR

/-- What is wrong with a rule line. -/
inductive LineFault where
  | missingArrow
  | repeatedArrow
  | missingHead
  | severalHeads
  | reservedHead (symbol : Symbol)
  | epsilonNotAlone
  | endMarkerUsed
deriving DecidableEq, Repr

namespace LineFault

/-- The explanation of a fault. -/
def message : LineFault → String
  | missingArrow => "missing '->' separator"
  | repeatedArrow => "more than one '->'"
  | missingHead => "missing left-hand side"
  | severalHeads => "left-hand side must be a single symbol"
  | reservedHead symbol => "'" ++ symbol ++ "' is reserved"
  | epsilonNotAlone => "'" ++ epsilon ++ "' must stand alone in an alternative"
  | endMarkerUsed => "'" ++ endMarker ++ "' is reserved"

end LineFault

/-- Why a text is no grammar. -/
inductive TextError where
  | empty
  | malformed (number : Nat) (line : String) (fault : LineFault)
deriving DecidableEq, Repr

/-- The words of a text as symbols. -/
def readSymbols (cs : List Char) : List Symbol := (Text.words cs).map String.ofList

/-- Reads one alternative. -/
def readAlternative (piece : List Char) : Except LineFault (List Symbol) :=
  let symbols := readSymbols piece
  if symbols = [epsilon] then .ok []
  else if epsilon ∈ symbols then .error .epsilonNotAlone
  else if endMarker ∈ symbols then .error .endMarkerUsed
  else .ok symbols

/-- Reads the left-hand side of a rule. -/
def readHead (cs : List Char) : Except LineFault Symbol :=
  match readSymbols cs with
  | [] => .error .missingHead
  | [symbol] =>
    if symbol = endMarker ∨ symbol = epsilon then .error (.reservedHead symbol) else .ok symbol
  | _ :: _ :: _ => .error .severalHeads

/-- Reads the alternatives of a rule from left to right. -/
def readAlternatives : List (List Char) → Except LineFault (List (List Symbol))
  | [] => .ok []
  | piece :: rest =>
    match readAlternative piece with
    | .error fault => .error fault
    | .ok rhs => (readAlternatives rest).map (rhs :: ·)

/-- Reads one rule line: its left-hand side with each of its alternatives. -/
def readLine (line : List Char) : Except LineFault (List (Symbol × List Symbol)) :=
  match Text.cutArrow line with
  | none => .error .missingArrow
  | some (left, right) =>
    if (Text.cutArrow right).isSome then .error .repeatedArrow
    else
      match readHead left with
      | .error fault => .error fault
      | .ok lhs =>
        (readAlternatives (Text.pieces '|' right)).map fun bodies => bodies.map (lhs, ·)

/-- Reads lines, the first of which has the given number, and skips blank ones. -/
def readLines : Nat → List (List Char) → Except TextError (List (Symbol × List Symbol))
  | _, [] => .ok []
  | number, raw :: rest =>
    let line := Text.strip raw
    if line.isEmpty then readLines (number + 1) rest
    else
      match readLine line with
      | .error fault => .error (.malformed number (String.ofList line) fault)
      | .ok pairs => (readLines (number + 1) rest).map (pairs ++ ·)

/-- Reads a grammar text.  The start symbol is the left-hand side of the first rule. -/
def Listing.read (text : String) : Except TextError Listing :=
  match readLines 1 (Text.lines text.toList) with
  | .error e => .error e
  | .ok [] => .error .empty
  | .ok (first :: rest) => .ok (.ofPairs (first :: rest) first.1)

end CanonicalLR
