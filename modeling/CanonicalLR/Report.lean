import CanonicalLR.Grammar.Reader
import CanonicalLR.Table.Build

/-!
# Reports of grammar errors

A report is what a person is shown about a failed build: its kind, a message, and for a malformed
rule the number and the text of the line.  Reports can also be made by hand, with any message.
-/

namespace CanonicalLR

/-- A grammar error as it is shown. -/
inductive Report where
  | empty (message : String)
  | malformed (message : String) (number : Int) (line : String)
  | conflict (conflict : Conflict)
  | other (message : String)
deriving DecidableEq, Repr

namespace Report

/-- The message for a text without rules. -/
def emptyText : String := "Input cannot be empty."

/-- The full message; that of a malformed rule begins with its line number. -/
def message : Report → String
  | empty text => text
  | malformed text number _ => "Line " ++ toString number ++ ": " ++ text
  | conflict c => c.message
  | other text => text

/-- The kind of error, as a service names it. -/
def kind : Report → String
  | empty _ => "empty_input"
  | malformed .. => "malformed_rule"
  | conflict _ => "conflict"
  | other _ => "grammar_error"

end Report

/-- The report of a text that is no grammar. -/
def TextError.report : TextError → Report
  | .empty => .empty Report.emptyText
  | .malformed number line fault => .malformed fault.message number line

end CanonicalLR
