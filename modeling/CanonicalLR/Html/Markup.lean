/-!
# Markup with escaped text

A page is a list of lines, and a line is a list of pieces: opening tags, closing tags and texts.
Only texts carry foreign characters, and `render` escapes each of them exactly once, so a text can
never add a tag.  Attribute values are written as they are.
-/

namespace CanonicalLR.Html

/-- An opening tag with its attributes, a closing tag, or a text. -/
inductive Piece where
  | start (name : String) (attributes : List (String × String))
  | stop (name : String)
  | text (content : String)
deriving DecidableEq, Repr

/-- The written form of a character inside a text. -/
def escapeChar : Char → List Char
  | '&' => "&amp;".toList
  | '<' => "&lt;".toList
  | '>' => "&gt;".toList
  | '"' => "&quot;".toList
  | '\'' => "&#x27;".toList
  | c => [c]

/-- The written form of a text: the five characters with a meaning in markup become entities. -/
def escape (content : String) : String := String.ofList (content.toList.flatMap escapeChar)

/-- The written form of an attribute. -/
def renderAttribute (entry : String × String) : String :=
  " " ++ entry.1 ++ "=\"" ++ entry.2 ++ "\""

/-- The written form of a piece. -/
def Piece.render : Piece → String
  | start name attributes => "<" ++ name ++ String.join (attributes.map renderAttribute) ++ ">"
  | stop name => "</" ++ name ++ ">"
  | text content => escape content

/-- Lines of pieces. -/
abbrev Page := List (List Piece)

/-- The written form of a page, its lines separated by line feeds. -/
def Page.render (page : Page) : String :=
  "\n".intercalate (page.map fun line => String.join (line.map Piece.render))

/-- An opening tag without attributes. -/
def plain (name : String) : Piece := .start name []

/-- The classes and settings of the pages. -/
structure Appearance where
  tableClasses : String
  errorClasses : String
  inlineStyles : Bool
deriving DecidableEq, Repr

/-- The appearance of a page for which nothing is set. -/
def Appearance.standard : Appearance := ⟨"parse-table", "error-message", true⟩

end CanonicalLR.Html
