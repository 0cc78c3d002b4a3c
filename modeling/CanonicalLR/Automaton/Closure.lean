import CanonicalLR.First.Memo
import CanonicalLR.Item

/-!
# Closure and goto

An item with a nonterminal `B` after its dot predicts every production of `B`, with the dot at
the start and each lookahead that can follow `B` there.  The closure of a list of items visits
them from first to last, appends what each one predicts and has not been seen yet, and visits the
appended items in turn.  Lookaheads are taken in ascending order.
-/

namespace CanonicalLR

namespace Grammar

/-- The items that one item predicts, production by production. -/
def predictions (g : Grammar) (item : Item) (memo : Memo) : List Item × Memo :=
  match item.next? with
  | none => ([], memo)
  | some x =>
    if g.isNonterminal x then
      let follow := g.firstOfString (item.beyond ++ [item.lookahead]) memo
      let lookaheads := (follow.1.erase epsilon).toList
      ((g.alternatives x).flatMap fun rhs => lookaheads.map fun a => ⟨x, rhs, 0, a⟩, follow.2)
    else ([], memo)

/-- Visits the pending items, which are the last ones of `items`, until none is left or the
budget is spent. -/
def saturate (g : Grammar) : Nat → List Item → List Item → Memo → List Item × Memo
  | 0, items, _, memo => (items, memo)
  | _ + 1, items, [], memo => (items, memo)
  | budget + 1, items, item :: pending, memo =>
    let predicted := g.predictions item memo
    let fresh := distinct (predicted.1.filter fun i => !items.contains i)
    g.saturate budget (items ++ fresh) (pending ++ fresh) predicted.2

/-- A bound on the items that the closure of `seeds` visits: the seeds, and every production with
every symbol that could be a lookahead. -/
def closureBudget (g : Grammar) (seeds : List Item) : Nat :=
  let lookaheads := g.bodySymbols.length + (seeds.flatMap (·.rhs)).length + seeds.length
  seeds.length + g.productions.pairs.length * lookaheads + 1

/-- The closure of a list of items, in order of discovery. -/
def closure (g : Grammar) (items : List Item) (memo : Memo) : List Item × Memo :=
  let seeds := distinct items
  g.saturate (g.closureBudget seeds) seeds seeds memo

/-- Moves the dot over `x` in the items that have `x` after it, and closes. -/
def goto (g : Grammar) (items : List Item) (x : Symbol) (memo : Memo) : List Item × Memo :=
  g.closure ((items.filter fun i => i.next? = some x).map Item.advance) memo

end Grammar

end CanonicalLR
