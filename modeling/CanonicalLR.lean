import CanonicalLR.Json.Writer
import CanonicalLR.Service.Endpoint
import CanonicalLR.Main
import CanonicalLR.Proofs.Soundness
import CanonicalLR.Proofs.Completeness
import CanonicalLR.Proofs.Conflict
import CanonicalLR.Proofs.Progress
import CanonicalLR.Proofs.Agreement
import CanonicalLR.Proofs.Detection
import CanonicalLR.Proofs.Session
import CanonicalLR.Proofs.Numbering
import CanonicalLR.Proofs.Strategies
import CanonicalLR.Proofs.Policies
import CanonicalLR.Proofs.Failures
import CanonicalLR.Proofs.Layout
import CanonicalLR.Proofs.First.Exact
import CanonicalLR.Proofs.CommandLine
import CanonicalLR.Proofs.Columns
import CanonicalLR.Proofs.Service
import CanonicalLR.Proofs.Gathering
import CanonicalLR.Proofs.Reprint
import CanonicalLR.Proofs.First.Calls
import CanonicalLR.Proofs.Notation
import CanonicalLR.Proofs.Correspondence
import CanonicalLR.Proofs.Isomorphism
import CanonicalLR.Proofs.Renaming.First
import CanonicalLR.Proofs.Renaming.Tables
import CanonicalLR.Proofs.RuleNumbers
import CanonicalLR.Proofs.Acceptance
import CanonicalLR.Proofs.CellTexts
import CanonicalLR.Proofs.Grids
import CanonicalLR.Proofs.Rows
import CanonicalLR.Proofs.Alignment
import CanonicalLR.Proofs.Pages
import CanonicalLR.Proofs.Halting
import CanonicalLR.Proofs.Extension.Grammar
import CanonicalLR.Proofs.Extension.Text
import CanonicalLR.Proofs.Extension.First
import CanonicalLR.Proofs.Extension.Automaton
import CanonicalLR.Proofs.Extension.Tables
import CanonicalLR.Proofs.Pages
import CanonicalLR.Proofs.Halting
