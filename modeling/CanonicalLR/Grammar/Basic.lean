import CanonicalLR.Entries
import CanonicalLR.Symbol

/-!
# Context-free grammars

A grammar lists its nonterminals in order of first appearance, each with its alternatives in
order.  Productions are numbered in that order, nonterminal by nonterminal; these numbers are the
ones that reduce actions carry.  Nothing is asked of the symbols: a grammar made by hand may use
any strings, have nonterminals without alternatives, or start with a symbol that is no nonterminal.
-/

namespace CanonicalLR

/-- A numbered production. -/
structure Rule where
  id : Nat
  lhs : Symbol
  rhs : List Symbol
deriving DecidableEq, Repr

namespace Rule

/-- Whether the rule derives the empty string at once. -/
def isEmpty (rule : Rule) : Bool := rule.rhs.isEmpty

/-- The text of a rule, `A -> x y`, or `A -> ε` for an empty right-hand side. -/
def render (rule : Rule) : String :=
  rule.lhs ++ " -> " ++ if rule.isEmpty then epsilon else " ".intercalate rule.rhs

end Rule

/-- Nonterminals in order of first appearance, each with its alternatives. -/
abbrev Productions := Entries Symbol (List (List Symbol))

namespace Productions

/-- The productions as pairs, nonterminal by nonterminal. -/
def pairs (ps : Productions) : List (Symbol × List Symbol) :=
  ps.flatMap fun entry => entry.2.map fun rhs => (entry.1, rhs)

/-- The productions numbered in order. -/
def flattened (ps : Productions) : List Rule :=
  ps.pairs.zipIdx.map fun numbered => ⟨numbered.2, numbered.1.1, numbered.1.2⟩

/-- Pairs gathered by left-hand side, in order of first appearance. -/
def ofPairs (given : List (Symbol × List Symbol)) : Productions :=
  (distinct (given.map (·.1))).map fun lhs =>
    (lhs, (given.filter (·.1 = lhs)).map (·.2))

theorem keys_ofPairs (given : List (Symbol × List Symbol)) :
    (ofPairs given).keys = distinct (given.map (·.1)) := by
  simp [ofPairs, Entries.keys, Function.comp_def]

theorem nodup_keys_ofPairs (given : List (Symbol × List Symbol)) :
    (ofPairs given).keys.Nodup := by
  rw [keys_ofPairs]
  exact nodup_distinct _

end Productions

/-- A context-free grammar.  Every nonterminal has one entry among the productions. -/
structure Grammar where
  productions : Productions
  start : Symbol
  nodup : productions.keys.Nodup

namespace Grammar

/-- The grammar whose productions arrive as pairs. -/
def ofPairs (given : List (Symbol × List Symbol)) (start : Symbol) : Grammar :=
  ⟨.ofPairs given, start, Productions.nodup_keys_ofPairs given⟩

/-- The grammar with given alternatives for each nonterminal; of two entries for one nonterminal
the later one counts. -/
def ofEntries (given : List (Symbol × List (List Symbol))) (start : Symbol) : Grammar :=
  ⟨Entries.ofList given, start, Entries.nodup_keys_ofList given⟩

/-- The nonterminals in order of first appearance. -/
def nonterminals (g : Grammar) : List Symbol := g.productions.keys

/-- Whether a symbol has an entry among the productions. -/
def isNonterminal (g : Grammar) (x : Symbol) : Bool := g.nonterminals.contains x

/-- The alternatives of a symbol; none if it is no nonterminal. -/
def alternatives (g : Grammar) (x : Symbol) : List (List Symbol) :=
  (g.productions.lookup x).getD []

/-- All productions, numbered nonterminal by nonterminal. -/
def flattened (g : Grammar) : List Rule := g.productions.flattened

/-- The number of the first production `lhs -> rhs`, if there is one. -/
def ruleId? (g : Grammar) (lhs : Symbol) (rhs : List Symbol) : Option Nat :=
  g.productions.pairs.idxOf? (lhs, rhs)

/-- The symbols of all right-hand sides, in order and with repetitions. -/
def bodySymbols (g : Grammar) : List Symbol := g.productions.pairs.flatMap (·.2)

/-- The nonterminals and all symbols of right-hand sides. -/
def symbols (g : Grammar) : SymbolSet := .ofList (g.nonterminals ++ g.bodySymbols)

/-- The text of a grammar: its start symbol and its numbered productions. -/
def render (g : Grammar) : String :=
  "\n".intercalate <|
    ("Start Symbol: " ++ g.start) :: "Productions:" ::
      g.flattened.map fun rule => "  " ++ toString rule.id ++ ": " ++ rule.render

end Grammar

end CanonicalLR
