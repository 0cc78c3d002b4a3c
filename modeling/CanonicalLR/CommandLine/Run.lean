import CanonicalLR.CommandLine.Arguments
import CanonicalLR.Table.Text

/-!
# Running the command line

A run reads its arguments, then the grammar file, then builds the table and prints the grammar,
on demand the item sets, and the table.  Line breaks of the file are unified first.  Nothing is
printed to the standard output before the build has succeeded.
-/

namespace CanonicalLR.CommandLine

/-- What a run leaves behind. -/
structure Outcome where
  exit : Nat
  stdout : String
  stderr : String
deriving DecidableEq, Repr

/-- Why the grammar file could not be read: nothing has its name, a directory has it, a file stands
where its name asks for a directory, or its content is no text. -/
inductive FileFault where
  | missing
  | directory
  | notDirectory
  | notText
deriving DecidableEq, Repr

/-- The choices of an option in the usage text. -/
def usageChoices (flag : Flag) : String := Text.braced (",".intercalate flag.choices)

/-- The usage lines. -/
def usage : String :=
  "usage: lr1-table [-h] [--conflict-policy " ++ usageChoices .conflictPolicy ++ "]\n" ++
  "                 [--first-strategy " ++ usageChoices .firstStrategy ++ "] [--states] [-v]\n" ++
  "                 grammar\n"

/-- The help text. -/
def helpText : String :=
  usage ++ "\nBuild an LR(1) parse table for a grammar.\n" ++
  "\npositional arguments:\n" ++
  "  grammar               grammar file, one 'LHS -> RHS | ...' rule per line\n" ++
  "\noptions:\n" ++
  "  -h, --help            show this help message and exit\n" ++
  "  --conflict-policy " ++ usageChoices .conflictPolicy ++ "\n" ++
  "  --first-strategy " ++ usageChoices .firstStrategy ++ "\n" ++
  "  --states              print the item sets too\n" ++
  "  -v, --verbose\n"

/-- Lines, each ended by a line feed. -/
def unlines (lines : List String) : String := String.join (lines.map (· ++ "\n"))

/-- A line of the log. -/
def logLine (level message : String) : String := level ++ " lr1_parser: " ++ message

/-- The log of reading a grammar. -/
def readingLog (listing : Listing) : List String :=
  [logLine "DEBUG" ("Parsed " ++ toString listing.rules.length ++ " productions for " ++
    toString listing.productions.length ++ " nonterminals")]

/-- The log of exploring an automaton. -/
def automatonLog (automaton : Automaton) : List String :=
  automaton.states.map (fun state =>
    logLine "DEBUG" ("Registered state " ++ toString state.index ++ " with " ++
      toString state.items.length ++ " items")) ++
  [logLine "INFO" ("Built LR(1) automaton with " ++ toString automaton.states.length ++ " states")]

/-- The log of filling a table. -/
def tableLog (analysis : Analysis) : List String :=
  [logLine "INFO" ("Built parse table: " ++ toString analysis.automaton.states.length ++
    " states, " ++ toString analysis.listing.rules.length ++ " productions")]

/-- The run ends with a grammar error. -/
def failed (log : List String) (message : String) : Outcome :=
  ⟨1, "", unlines (log ++ ["error: " ++ message])⟩

/-- What is printed for a finished build. -/
def printed (showStates : Bool) (made : Build) : String :=
  unlines <|
    [made.listing.render, ""] ++
    (if showStates then [made.automaton.render, ""] else []) ++
    [made.table.render]

/-- The message of a table error. -/
def tableMessage : TableError → String
  | .conflict c => c.message
  | .unknownRule lhs rhs => "unknown production " ++ (Rule.mk 0 lhs rhs).render

/-- Builds the table of a grammar text and prints it. -/
def runBuild (config : Config) (showStates verbose : Bool) (text : String) : Outcome :=
  let shown := fun (log : List String) => if verbose then log else []
  match Listing.read text with
  | .error e => failed [] e.report.message
  | .ok listing =>
    let analysis := listing.analyse config.firstStrategy
    let log := readingLog listing ++ automatonLog analysis.automaton
    match analysis.table config.conflictPolicy with
    | .error e => failed (shown log) (tableMessage e)
    | .ok table =>
      ⟨0, printed showStates { analysis with table }, unlines (shown (log ++ tableLog analysis))⟩

/-- The text of a file with its line breaks unified. -/
def decodeFile (content : ByteArray) : Except FileFault String :=
  match String.fromUTF8? content with
  | none => .error .notText
  | some text => .ok (String.ofList (Text.unifyBreaks text.toList))

/-- Runs the program on its arguments, with `contents` looking up files by name. -/
def run (contents : Argument → Except FileFault ByteArray) (arguments : List Argument) :
    Except FileFault Outcome :=
  match Request.read arguments with
  | .error e => .ok ⟨2, "", usage ++ "lr1-table: error: " ++ e.message ++ "\n"⟩
  | .ok request =>
    if request.help then .ok ⟨0, helpText, ""⟩
    else
      match contents (request.grammar.getD []) with
      | .error fault => .error fault
      | .ok content =>
        (decodeFile content).map (runBuild request.config request.states request.verbose)

end CanonicalLR.CommandLine
