import CanonicalLR.Decimal
import CanonicalLR.Json.Basic
import CanonicalLR.Text.Quoted

/-!
# The text of a JSON value inside a message

A text stands for itself; inside a list or an object it is quoted.  Numbers with a fraction are
written with the fewest digits that identify them, positionally from `0.0001` up to below `10^16`
and otherwise with a signed exponent of at least two digits.
-/

namespace CanonicalLR

/-- The digits of a decimal with the point after the given number of them. -/
def Decimal.positional (digits : List Char) (point : Int) : List Char :=
  if point ≤ 0 then '0' :: '.' :: List.replicate (-point).toNat '0' ++ digits
  else if digits.length ≤ point.toNat then
    digits ++ List.replicate (point.toNat - digits.length) '0' ++ ['.', '0']
  else digits.take point.toNat ++ '.' :: digits.drop point.toNat

/-- The digits of a decimal with a point after the first and an exponent. -/
def Decimal.scientific (digits : List Char) (exponent : Int) : List Char :=
  let power := (toString exponent.natAbs).toList
  let fraction := digits.drop 1
  digits.take 1 ++ (if fraction.isEmpty then [] else '.' :: fraction) ++
    ['e', if exponent < 0 then '-' else '+'] ++ List.replicate (2 - power.length) '0' ++ power

/-- The text of a decimal. -/
def Decimal.render (d : Decimal) : List Char :=
  let all := (toString d.digits).toList
  let digits := (all.reverse.dropWhile (· = '0')).reverse
  if digits.isEmpty then ['0', '.', '0']
  else
    let leading := d.exponent + all.length - 1
    if -4 ≤ leading ∧ leading < 16 then positional digits (leading + 1)
    else scientific digits leading

/-- The text of a number with a fraction. -/
def displayReal (x : Float) : String :=
  if x.isNaN then "nan"
  else
    let sign := if x.toBits >>> 63 = 1 then "-" else ""
    let size := if x.isInf then "inf" else String.ofList (Binary.ofBits x.toBits).shortest.render
    sign ++ size

namespace Json

mutual

/-- The text of a value inside another one. -/
def displayInner : Json → String
  | null => "None"
  | bool value => if value then "True" else "False"
  | int value => toString value
  | real value => displayReal value
  | text points => Text.quoted points
  | list items => "[" ++ ", ".intercalate (displayItems items) ++ "]"
  | object fields => Text.braced (", ".intercalate (displayFields fields))

/-- The texts of the items of a list. -/
def displayItems : List Json → List String
  | [] => []
  | item :: rest => displayInner item :: displayItems rest

/-- The texts of the fields of an object. -/
def displayFields : List (List CodePoint × Json) → List String
  | [] => []
  | (name, value) :: rest => (Text.quoted name ++ ": " ++ displayInner value) :: displayFields rest

end

/-- The text of a value. -/
def display : Json → List CodePoint
  | text points => points
  | value => Text.points (displayInner value)

end Json

end CanonicalLR
