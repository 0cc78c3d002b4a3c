import CanonicalLR.Html.Markup
import CanonicalLR.Report

/-!
# Grammar errors as pages

An error page shows the message of a report, and for a malformed rule also the number and the text
of the line.  Styles for it are put in front if the appearance asks for them.
-/

namespace CanonicalLR.Html

/-- One style rule: a selector and its declarations. -/
def styleRule (selector : String) (declarations : List (String × String)) : List String :=
  (selector ++ " ").push '{' ::
    declarations.map (fun d => "    " ++ d.1 ++ ": " ++ d.2 ++ ";") ++ ["".push '}']

/-- The style rules of an error page. -/
def errorStyles : List String :=
  styleRule ".error-message" [("color", "#cc0000"), ("background-color", "#ffeeee"),
    ("border", "1px solid #cc0000"), ("border-radius", "4px"), ("padding", "10px"),
    ("margin", "10px 0"), ("font-family", "Arial, sans-serif")] ++ [""] ++
  styleRule ".error-text" [("font-weight", "bold"), ("margin", "5px 0")] ++ [""] ++
  styleRule ".error-context" [("margin", "10px 0"), ("padding", "8px"),
    ("background-color", "#f8f8f8"), ("border-radius", "4px")] ++ [""] ++
  styleRule ".context-display" [("font-family", "monospace"), ("background-color", "#ffffff"),
    ("padding", "8px"), ("border", "1px solid #ddd"), ("border-radius", "2px"),
    ("overflow-x", "auto")]

/-- The style element, with an empty line before and after it. -/
def stylePage : Page :=
  [[], [plain "style"]] ++ errorStyles.map (fun line => [.text line]) ++ [[.stop "style"], []]

/-- The rejected line of a malformed rule. -/
def contextPage : Report → Page
  | .malformed _ number line =>
    [[.start "div" [("class", "error-context")]],
      [plain "p", plain "strong", .text ("Line " ++ toString number ++ ":"), .stop "strong",
        .stop "p"],
      [.start "pre" [("class", "context-display")], .text line, .stop "pre"],
      [.stop "div"]]
  | _ => []

/-- The page of a report. -/
def errorPage (appearance : Appearance) (report : Report) : Page :=
  (if appearance.inlineStyles then stylePage else []) ++
  [[.start "div" [("class", appearance.errorClasses)]],
    [plain "h4", .text "Grammar Error", .stop "h4"],
    [.start "p" [("class", "error-text")], .text report.message, .stop "p"]] ++
  contextPage report ++
  [[.stop "div"]]

end CanonicalLR.Html
