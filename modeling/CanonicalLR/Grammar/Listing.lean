import CanonicalLR.Grammar.Basic

/-!
# Grammars with their rules in the order of the text

A text may give the alternatives of a nonterminal on several lines, so its rules stand in another
order than the productions of the grammar.  A listing keeps both.  Each rule carries the number of
its production, which is found by counting: the productions of the nonterminals listed before its
left-hand side, and the earlier rules with the same left-hand side.
-/

namespace CanonicalLR

namespace Productions

/-- The number of productions of the nonterminals listed before a given one. -/
def offset (lhs : Symbol) : Productions → Nat
  | [] => 0
  | entry :: rest => if entry.1 = lhs then 0 else entry.2.length + offset lhs rest

/-- Numbers pairs in the order given: a pair's number is the offset of its left-hand side plus
the number of earlier pairs with that left-hand side. -/
def numbered (ps : Productions) (earlier : List Symbol) : List (Symbol × List Symbol) → List Rule
  | [] => []
  | pair :: rest =>
    ⟨ps.offset pair.1 + earlier.count pair.1, pair.1, pair.2⟩ ::
      ps.numbered (pair.1 :: earlier) rest

end Productions

/-- A grammar with its numbered rules in the order of their text. -/
structure Listing extends Grammar where
  rules : List Rule

namespace Listing

/-- The listing of productions that arrive as pairs. -/
def ofPairs (given : List (Symbol × List Symbol)) (start : Symbol) : Listing :=
  ⟨.ofPairs given start, (Productions.ofPairs given).numbered [] given⟩

/-- The listing of a grammar made by hand, whose rules have the order of the productions. -/
def ofGrammar (g : Grammar) : Listing := ⟨g, g.flattened⟩

end Listing

/-- The terminals and the nonterminals of a list of rules, each in order of first appearance.
This order is the order of the columns of a table. -/
structure SymbolClasses where
  terminals : List Symbol
  nonterminals : List Symbol
deriving DecidableEq, Repr

/-- Left-hand sides are nonterminals; every other symbol of a right-hand side is a terminal. -/
def SymbolClasses.ofRules (rules : List Rule) : SymbolClasses :=
  let nonterminals := distinct (rules.map (·.lhs))
  { nonterminals
    terminals := distinct ((rules.flatMap (·.rhs)).filter fun x => !nonterminals.contains x) }

/-- The symbol classes of a listing. -/
def Listing.classes (listing : Listing) : SymbolClasses := .ofRules listing.rules

end CanonicalLR
