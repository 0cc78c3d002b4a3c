import CanonicalLR.Json.Reader

/-!
# The encoding of JSON bytes

JSON text begins with an ASCII character, so the zero bytes among its first four tell in which
encoding it is written; a byte order mark tells it too and is no part of the text.  A 16-bit unit
without its partner is a surrogate that stands alone.
-/

namespace CanonicalLR.Json

/-- A Unicode encoding with the order of its bytes. -/
inductive Encoding where
  | utf8
  | utf16 (isBigEndian : Bool)
  | utf32 (isBigEndian : Bool)
deriving DecidableEq, Repr

/-- The encoding of some bytes, and the bytes after a byte order mark. -/
def detect (bytes : List UInt8) : Encoding × List UInt8 :=
  match bytes with
  | 0x00 :: 0x00 :: 0xFE :: 0xFF :: rest => (.utf32 true, rest)
  | 0xFF :: 0xFE :: 0x00 :: 0x00 :: rest => (.utf32 false, rest)
  | 0xFE :: 0xFF :: rest => (.utf16 true, rest)
  | 0xFF :: 0xFE :: rest => (.utf16 false, rest)
  | 0xEF :: 0xBB :: 0xBF :: rest => (.utf8, rest)
  | a :: b :: c :: d :: _ =>
    if a = 0 then (if b = 0 then .utf32 true else .utf16 true, bytes)
    else if b = 0 then (if c = 0 ∧ d = 0 then .utf32 false else .utf16 false, bytes)
    else (.utf8, bytes)
  | [a, b] =>
    (if a = 0 then .utf16 true else if b = 0 then .utf16 false else .utf8, bytes)
  | _ => (.utf8, bytes)

/-- Bytes in groups of two as numbers; nothing if a byte is left over. -/
def pairUnits (isBigEndian : Bool) : List UInt8 → Option (List Nat)
  | [] => some []
  | a :: b :: rest =>
    let unit := if isBigEndian then a.toNat * 256 + b.toNat else b.toNat * 256 + a.toNat
    (pairUnits isBigEndian rest).map (unit :: ·)
  | [_] => none

/-- Bytes in groups of four as code points; nothing if bytes are left over or a group is no code
point. -/
def quadUnits (isBigEndian : Bool) (bytes : List UInt8) : Option (List Nat) :=
  match pairUnits isBigEndian bytes with
  | none => none
  | some units => join units
where
  /-- Joins neighbouring 16-bit halves. -/
  join : List Nat → Option (List Nat)
    | [] => some []
    | a :: b :: rest =>
      let code := if isBigEndian then a * 65536 + b else b * 65536 + a
      if code < 0x110000 then (join rest).map (code :: ·) else none
    | [_] => none

/-- The code points of 16-bit units, each first half of a pair joined with a second half after
it. -/
def joinPairs : List CodePoint → List CodePoint
  | high :: low :: rest =>
    if high.isHigh && low.isLow then .ofPair high low :: joinPairs rest
    else high :: joinPairs (low :: rest)
  | points => points

/-- The text that some bytes encode. -/
def decode? (bytes : ByteArray) : Option (List CodePoint) :=
  match detect bytes.toList with
  | (.utf8, rest) => (String.fromUTF8? ⟨rest.toArray⟩).map Text.points
  | (.utf16 isBigEndian, rest) =>
    (pairUnits isBigEndian rest).map fun units => joinPairs (units.map .ofNat)
  | (.utf32 isBigEndian, rest) =>
    (quadUnits isBigEndian rest).map fun units => units.map .ofNat

/-- Reads the bytes of one value. -/
def readBytes (bytes : ByteArray) : Option Json := (decode? bytes).bind read

end CanonicalLR.Json
