import CanonicalLR.Grammar.Basic

/-!
# The FIRST equations and their least solution

FIRST of a nonterminal is the union of FIRST of its alternatives, and FIRST of a symbol string is
FIRST of its first symbol, or, if that symbol can vanish, FIRST of it without `ε` together with
FIRST of the rest.  `solveFirst` starts with the empty set for every nonterminal and applies the
equations to all of them at once until nothing changes.  The sets only grow, and their members are
symbols of right-hand sides or `ε`, which bounds the number of rounds.
-/

namespace CanonicalLR

/-- FIRST of a symbol string under given sets for its symbols. -/
def firstUnder (look : Symbol → SymbolSet) : List Symbol → SymbolSet
  | [] => .singleton epsilon
  | x :: rest =>
    if epsilon ∈ look x then (look x).erase epsilon ∪ firstUnder look rest else look x

/-- A set for each nonterminal of a grammar. -/
abbrev FirstTable := Entries Symbol SymbolSet

namespace FirstTable

/-- The set of a symbol; a symbol without an entry stands for itself alone. -/
def look (table : FirstTable) (x : Symbol) : SymbolSet :=
  (table.lookup x).getD (.singleton x)

end FirstTable

namespace Grammar

/-- One application of the FIRST equations to every nonterminal. -/
def firstRound (g : Grammar) (table : FirstTable) : FirstTable :=
  g.productions.map fun entry =>
    (entry.1, entry.2.foldr (fun rhs set => firstUnder table.look rhs ∪ set) ∅)

/-- Applies the equations until nothing changes, at most the given number of times. -/
def settleFirst (g : Grammar) : Nat → FirstTable → FirstTable
  | 0, table => table
  | rounds + 1, table =>
    let next := g.firstRound table
    if next = table then table else g.settleFirst rounds next

/-- A bound on the rounds that can change a set: every nonterminal can gain `ε` and every symbol
of a right-hand side. -/
def firstRounds (g : Grammar) : Nat := g.productions.length * (g.bodySymbols.length + 1) + 1

/-- The least sets that satisfy the FIRST equations. -/
def solveFirst (g : Grammar) : FirstTable :=
  g.settleFirst g.firstRounds (g.productions.map fun entry => (entry.1, ∅))

end Grammar

end CanonicalLR
