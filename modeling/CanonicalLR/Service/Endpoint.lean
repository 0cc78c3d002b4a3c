import CanonicalLR.Config
import CanonicalLR.Html.ErrorPage
import CanonicalLR.Html.TablePage
import CanonicalLR.Json.Encoding
import CanonicalLR.Service.View

/-!
# The two endpoints of the service

`/parse-grammar` answers with the productions and symbols of a grammar, `/build-parse-table` with
its automaton and table.  Both take a JSON object with the grammar text; the second also takes the
two choices of a configuration, which default to those of the service.  A body that is no JSON
counts as an empty object, and so does a void value.  The symbols of a grammar are well-formed
texts, so a request whose grammar text holds a surrogate is left open: `answer` gives nothing.
-/

namespace CanonicalLR

/-- The request paths of the service. -/
inductive Endpoint where
  | parseGrammar
  | buildParseTable
deriving DecidableEq, Repr

/-- The endpoint of a path. -/
def Endpoint.ofPath? : String → Option Endpoint
  | "/parse-grammar" => some parseGrammar
  | "/build-parse-table" => some buildParseTable
  | _ => none

/-- The choices of the service for requests that make none. -/
structure ServiceDefaults where
  conflictPolicy : Json
  firstStrategy : Json

/-- The choices of a service for which nothing is set. -/
def ServiceDefaults.standard : ServiceDefaults :=
  ⟨.string Config.standard.conflictPolicy.name, .string Config.standard.firstStrategy.name⟩

/-- An answer: a status code, and a body unless the request could not be handled at all. -/
structure Response where
  status : Nat
  body : Json

namespace Response

/-- A request whose body is no object. -/
def crashed : Response := ⟨500, .null⟩

/-- An answer that names an error. -/
def failure (status : Nat) (kind message : String) (more : List (String × Json)) : Response :=
  ⟨status, .record ([("success", .bool false), ("error", .string message),
    ("error_type", .string kind)] ++ more)⟩

/-- The answer to a request without a grammar. -/
def missingInput : Response := failure 400 "missing_input" "No grammar provided" []

/-- The answer to a request that the service cannot make sense of. -/
def systemError : Response := failure 500 "system_error" "Unexpected server error" []

/-- The answer to a grammar error. -/
def ofReport (report : Report) : Response :=
  failure 400 report.kind report.message <|
    ("error_html", .string (Html.errorPage .standard report).render) ::
      match report with
      | .malformed _ number _ => [("line_number", .int number)]
      | _ => []

/-- The answer to a failed build. -/
def ofBuildError (error : BuildError) : Response :=
  match error.report? with
  | some report => ofReport report
  | none => systemError

/-- The answer with the productions and symbols of a grammar. -/
def ofListing (listing : Listing) : Response :=
  ⟨200, .record [("success", .bool true), ("start_symbol", .string listing.start),
    ("productions", .list (listing.flattened.map Rule.view)),
    ("terminals", .strings listing.classes.terminals),
    ("non_terminals", .strings listing.classes.nonterminals)]⟩

/-- The answer with the automaton and the table of a grammar. -/
def ofBuild (made : Build) : Response :=
  ⟨200, .record [("success", .bool true), ("start_symbol", .string made.listing.start),
    ("automaton", made.automaton.view), ("table", made.table.view),
    ("parse_table_html", .string (Html.tablePage .standard made.table).render),
    ("table_info", .record [("states_count", .int made.automaton.states.length),
      ("action_entries", .int made.table.action.size),
      ("goto_entries", .int made.table.goto.size)])]⟩

end Response

/-- The first value, or the second if the first is void. -/
def Json.orElse (value other : Json) : Json := if value.isVoid then other else value

/-- Answers a request for the productions of a grammar text. -/
def answerParse (text : String) : Response :=
  match Listing.read text with
  | .error e => .ofReport e.report
  | .ok listing => .ofListing listing

/-- Answers a request for the table of a grammar text. -/
def answerBuild (config : Config) (text : String) : Response :=
  match build text config with
  | .error e => .ofBuildError e
  | .ok made => .ofBuild made

/-- Answers a request about a value that should be a grammar text.  Nothing is answered to a text
that is not well formed. -/
def answerText (answerTo : String → Response) : Json → Option Response
  | .text points => (Text.ofPoints? points).map answerTo
  | _ => some .systemError

/-- Answers a request with the given JSON body. -/
def answer (defaults : ServiceDefaults) (endpoint : Endpoint) (body : Json) : Option Response :=
  match if body.isVoid then .object [] else body with
  | .object fields =>
    let request := Json.object fields
    let grammar := request.field "grammar"
    if grammar.isVoid then some .missingInput
    else
      match endpoint with
      | .parseGrammar => answerText answerParse grammar
      | .buildParseTable =>
        let policy := (request.field "conflict_policy").orElse defaults.conflictPolicy
        let strategy := (request.field "first_strategy").orElse defaults.firstStrategy
        match Config.read policy strategy with
        | .error e => some (.failure 400 "invalid_config" e.message [])
        | .ok config => answerText (answerBuild config) grammar
  | _ => some .crashed

/-- Whether a character is one of the two that may stand around the parts of a header. -/
def isHeaderSpace (c : Char) : Bool := c = ' ' || c = '\t'

/-- The media type that a content type names, in lower case and without its parameters. -/
def mediaType (contentType : String) : List CodePoint :=
  let named := (contentType.toList.takeWhile (· ≠ ';')).dropWhile isHeaderSpace
  Text.lower ((named.reverse.dropWhile isHeaderSpace).reverse.map .char)

/-- Whether a content type announces JSON: `application/json`, or `application/` with a name that
ends in `+json`, in any case and with any parameters. -/
def isJsonType (contentType : String) : Bool :=
  let media := mediaType contentType
  media == Text.points "application/json" ||
    ((Text.points "application/").isPrefixOf media && (Text.points "+json").isSuffixOf media)

/-- The JSON body of a request, null if there is none. -/
def requestBody (contentType : String) (body : ByteArray) : Json :=
  if isJsonType contentType then (Json.readBytes body).getD .null else .null

end CanonicalLR
