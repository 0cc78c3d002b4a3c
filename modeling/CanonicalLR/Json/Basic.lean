import CanonicalLR.Entries
import CanonicalLR.Text.CodePoint

/-!
# JSON values

Objects keep their fields in order of arrival, and integers stay apart from numbers with a
fraction or an exponent.  Texts and the names of fields are lists of code points, since JSON can
name surrogates that stand alone.  A value is void if it says as good as nothing: null, false, zero,
and the empty text, list and object.
-/

namespace CanonicalLR

/-- A JSON value. -/
inductive Json where
  | null
  | bool (value : Bool)
  | int (value : Int)
  | real (value : Float)
  | text (points : List CodePoint)
  | list (items : List Json)
  | object (fields : List (List CodePoint × Json))
deriving Inhabited

namespace Json

/-- Whether a value says as good as nothing. -/
def isVoid : Json → Bool
  | null => true
  | bool value => !value
  | int value => value == 0
  | real value => value == 0.0
  | text points => points.isEmpty
  | list items => items.isEmpty
  | object fields => fields.isEmpty

/-- A well-formed text. -/
def string (content : String) : Json := text (Text.points content)

/-- A list of well-formed texts. -/
def strings (items : List String) : Json := list (items.map string)

/-- An object whose fields have well-formed names. -/
def record (fields : List (String × Json)) : Json :=
  object (fields.map fun entry => (Text.points entry.1, entry.2))

/-- The field of an object with a well-formed name, if there is one. -/
def field? (value : Json) (name : String) : Option Json :=
  match value with
  | object fields => fields.lookup (Text.points name)
  | _ => none

/-- A field of an object; null if there is none. -/
def field (value : Json) (name : String) : Json := (value.field? name).getD null

end Json

end CanonicalLR
