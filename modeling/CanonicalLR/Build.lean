import CanonicalLR.Automaton.Canonical
import CanonicalLR.Report

/-!
# From grammar text to a parse table

A build reads the grammar, classifies its symbols, explores its canonical automaton and fills the
table.  It can fail at two places: the text may be no grammar, and the table may have a conflict
that the configuration forbids.
-/

namespace CanonicalLR

/-- The choices of a build. -/
structure Config where
  conflictPolicy : ConflictPolicy
  firstStrategy : FirstStrategy
deriving DecidableEq, Repr

/-- The choices of a build for which nothing is set. -/
def Config.standard : Config := ⟨.overwrite, .guarded⟩

/-- The canonical automaton of a grammar, explored with nothing known beforehand but what the
strategy knows. -/
def Grammar.automaton (g : Grammar) (strategy : FirstStrategy) : Automaton :=
  (g.canonical (g.openMemo strategy)).1

/-- A grammar with its symbol classes and its canonical automaton. -/
structure Analysis where
  listing : Listing
  classes : SymbolClasses
  automaton : Automaton

/-- The analysis of a grammar. -/
def Listing.analyse (listing : Listing) (strategy : FirstStrategy) : Analysis :=
  ⟨listing, listing.classes, listing.automaton strategy⟩

/-- The table of an analysed grammar. -/
def Analysis.table (a : Analysis) (policy : ConflictPolicy) : Except TableError Table :=
  Table.build policy a.listing.toGrammar a.classes a.listing.start a.automaton

/-- Everything that one build makes. -/
structure Build extends Analysis where
  table : Table

/-- Why a build failed. -/
inductive BuildError where
  | text (error : TextError)
  | table (error : TableError)
deriving DecidableEq, Repr

namespace BuildError

/-- The report of a failed build.  An unknown production is no error of a grammar. -/
def report? : BuildError → Option Report
  | text e => some e.report
  | table (.conflict c) => some (.conflict c)
  | table (.unknownRule ..) => none

end BuildError

/-- Builds the parse table of a grammar text. -/
def build (text : String) (config : Config) : Except BuildError Build :=
  match Listing.read text with
  | .error e => .error (.text e)
  | .ok listing =>
    let analysis := listing.analyse config.firstStrategy
    match analysis.table config.conflictPolicy with
    | .error e => .error (.table e)
    | .ok table => .ok { analysis with table }

/-- Builds the parse table of a text that may be missing, under the standard choices if none are
given.  A missing text has no rules. -/
def buildGiven (text : Option String) (config : Option Config) : Except BuildError Build :=
  match text with
  | none => .error (.text .empty)
  | some text => build text (config.getD .standard)

end CanonicalLR
