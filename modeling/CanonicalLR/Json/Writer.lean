import CanonicalLR.Json.Display

/-!
# Writing JSON text

A value is written on one line without spaces.  Quotes, backslashes, control characters,
surrogates and the characters that some readers take for line breaks are escaped; all others stand
for themselves.
-/

namespace CanonicalLR.Json

/-- The written form of a character between quotes. -/
def writeChar (c : Char) : List Char :=
  if c = '"' ∨ c = '\\' then ['\\', c]
  else if c.toNat < 0x20 ∨ c.toNat = 0x7F ∨ c.toNat = 0x85 ∨ c.toNat = 0x2028 ∨
      c.toNat = 0x2029 then
    '\\' :: 'u' :: Text.hexDigits 4 c.toNat
  else [c]

/-- The written form of a code point between quotes. -/
def writePoint : CodePoint → List Char
  | .char c => writeChar c
  | .surrogate offset => '\\' :: 'u' :: Text.hexDigits 4 (CodePoint.surrogate offset).value

/-- The written form of a text. -/
def writeText (points : List CodePoint) : String :=
  String.ofList ('"' :: points.flatMap writePoint ++ ['"'])

mutual

/-- The written form of a value. -/
def write : Json → String
  | null => "null"
  | bool value => if value then "true" else "false"
  | int value => toString value
  | real value => displayReal value
  | text points => writeText points
  | list items => "[" ++ ",".intercalate (writeItems items) ++ "]"
  | object fields => Text.braced (",".intercalate (writeFields fields))

/-- The written forms of the items of a list. -/
def writeItems : List Json → List String
  | [] => []
  | item :: rest => write item :: writeItems rest

/-- The written forms of the fields of an object. -/
def writeFields : List (List CodePoint × Json) → List String
  | [] => []
  | (name, value) :: rest => (writeText name ++ ":" ++ write value) :: writeFields rest

end

end CanonicalLR.Json
