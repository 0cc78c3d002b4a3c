import CanonicalLR.Automaton.Basic
import CanonicalLR.Automaton.Closure

/-!
# The canonical collection of item sets

State 0 is the closure of the initial item.  States are expanded in the order of their numbers:
for each symbol after a dot, the goto set is looked up among the sets registered so far, and
registered under the next number if no set has the same items.  All sets are made of finitely
many items, which bounds their number.
-/

namespace CanonicalLR

namespace Grammar

/-- Adds apostrophes to a symbol until it is none of the used ones. -/
def primed (used : SymbolSet) (x : Symbol) : Symbol :=
  if x ∈ used then primed used (x ++ "'") else x
termination_by (used.toList.filter fun y => x.length ≤ y.length).length
decreasing_by
  rename_i taken
  have mark : "'".length = 1 := rfl
  have step : (used.toList.filter fun y => (x ++ "'").length ≤ y.length) =
      (used.toList.filter fun y => x.length ≤ y.length).filter fun y =>
        x.length + 1 ≤ y.length := by
    rw [List.filter_filter]
    refine List.filter_congr fun y _ => ?_
    by_cases h : x.length + 1 ≤ y.length
    · simp [String.length_append, mark, h, Nat.le_of_succ_le h]
    · simp [String.length_append, mark, h]
  rw [step]
  exact List.length_filter_lt_length_iff_exists.2
    ⟨x, List.mem_filter.2 ⟨taken, by simp⟩, by simp⟩

/-- The fresh symbol that derives the start symbol: the start symbol with as many apostrophes,
at least one, as it takes to be no symbol of the grammar. -/
def augmentedStart (g : Grammar) : Symbol := primed g.symbols (g.start ++ "'")

/-- The item from which everything starts. -/
def initialItem (g : Grammar) : Item := ⟨g.augmentedStart, [g.start], 0, endMarker⟩

/-- The number of the registered set with the same items, and the registered sets with this one
among them. -/
def register (sets : List (List Item)) (items : List Item) : Nat × List (List Item) :=
  match sets.findIdx? (Item.sameSet items) with
  | some i => (i, sets)
  | none => (sets.length, sets ++ [items])

/-- The transitions of one item set on the given symbols, with the sets and the memo after them. -/
def successors (g : Grammar) (items : List Item) :
    List Symbol → List (List Item) → Memo → Entries Symbol Nat × List (List Item) × Memo
  | [], sets, memo => ([], sets, memo)
  | x :: rest, sets, memo =>
    let target := g.goto items x memo
    let entry := register sets target.1
    let others := g.successors items rest entry.2 target.2
    ((x, entry.1) :: others.1, others.2)

/-- An unfinished collection: the registered sets by number, the transitions of the sets already
expanded, and the memo. -/
structure Collection where
  sets : List (List Item)
  rows : List (Entries Symbol Nat)
  memo : Memo

/-- Expands the registered sets in the order of their numbers until all are expanded or the budget
is spent. -/
def explore (g : Grammar) : Nat → Collection → Collection
  | 0, c => c
  | budget + 1, c =>
    match c.sets[c.rows.length]? with
    | none => c
    | some items =>
      let found := g.successors items (Item.nextSymbols items) c.sets c.memo
      g.explore budget ⟨found.2.1, c.rows ++ [found.1], found.2.2⟩

/-- A bound on the number of items: a production with the new start, a place for the dot, and a
lookahead. -/
def itemCount (g : Grammar) : Nat :=
  ([g.start] :: g.productions.pairs.map (·.2)).foldr (fun rhs count => rhs.length + 1 + count) 0 *
    (g.bodySymbols.length + 1)

/-- The automaton of a finished collection: its sets with their transitions, by number. -/
def Collection.toAutomaton (c : Collection) (augmentedStart : Symbol) : Automaton where
  augmentedStart
  states := (c.sets.zip c.rows).zipIdx.map fun state =>
    ⟨state.2, state.1.1, state.1.2.map fun move => (move.1, (move.2 : Int))⟩

/-- The canonical LR(1) automaton of a grammar. -/
def canonical (g : Grammar) (memo : Memo) : Automaton × Memo :=
  let initial := g.closure [g.initialItem] memo
  let finished := g.explore (Nat.pow 2 g.itemCount) ⟨[initial.1], [], initial.2⟩
  (finished.toAutomaton g.augmentedStart, finished.memo)

end Grammar

end CanonicalLR
