import CanonicalLR.Automaton.Basic
import CanonicalLR.Grammar.Listing
import CanonicalLR.Table.Basic

/-!
# Filling a parse table from an automaton

Every item of every state may demand one entry.  A complete item demands a reduction on its
lookahead, or acceptance if it is the completed start item; an item with a terminal after the dot
demands a shift, and one with a nonterminal a GOTO entry, provided that the state has a transition
on that symbol.  Demands are met in the order of states and items.  When two different actions
are demanded for one cell, the `overwrite` policy lets the later one stand and the `error` policy
reports the clash.
-/

namespace CanonicalLR

/-- What happens when two different actions are demanded for one cell. -/
inductive ConflictPolicy where
  | overwrite
  | error
deriving DecidableEq, Repr

/-- Two different actions demanded for one cell. -/
structure Conflict where
  state : Int
  symbol : Symbol
  existing : Action
  incoming : Action
deriving DecidableEq, Repr

namespace Conflict

/-- The explanation of a conflict. -/
def message (c : Conflict) : String :=
  "Conflict in state " ++ toString c.state ++ " on '" ++ c.symbol ++ "': " ++
    c.existing.render ++ " vs " ++ c.incoming.render

end Conflict

/-- Why no table could be filled: a conflict, or a complete item whose production is unknown. -/
inductive TableError where
  | conflict (conflict : Conflict)
  | unknownRule (lhs : Symbol) (rhs : List Symbol)
deriving DecidableEq, Repr

/-- What a table is filled from, beside the states. -/
structure TableSource where
  grammar : Grammar
  classes : SymbolClasses
  start : Symbol
  augmentedStart : Symbol

/-- An entry demanded by an item. -/
inductive Demand where
  | action (symbol : Symbol) (action : Action)
  | goto (symbol : Symbol) (target : Int)
deriving DecidableEq, Repr

namespace TableSource

/-- Whether an item is the completed start item. -/
def accepts (source : TableSource) (item : Item) : Bool :=
  item.lhs = source.augmentedStart && item.rhs = [source.start] && item.lookahead = endMarker

/-- Whether a symbol has a column in the ACTION part. -/
def isToken (source : TableSource) (x : Symbol) : Bool :=
  source.classes.terminals.contains x || x = endMarker

/-- The entry that an item of a state demands. -/
def demand? (source : TableSource) (state : State) (item : Item) :
    Except TableError (Option Demand) :=
  match item.next? with
  | none =>
    if source.accepts item then .ok (some (.action endMarker .accept))
    else
      match source.grammar.ruleId? item.lhs item.rhs with
      | some id => .ok (some (.action item.lookahead (.reduce id)))
      | none => .error (.unknownRule item.lhs item.rhs)
  | some x =>
    match state.target? x with
    | none => .ok none
    | some target =>
      if source.isToken x then .ok (some (.action x (.shift target)))
      else if source.classes.nonterminals.contains x then .ok (some (.goto x target))
      else .ok none

end TableSource

namespace Table

/-- Enters an action, unless the policy forbids to replace a different one. -/
def enter (policy : ConflictPolicy) (table : Table) (state : Int) (x : Symbol) (incoming : Action) :
    Except TableError Table :=
  let entered : Table := { table with action := table.action.put state x incoming }
  match policy, table.action.get? state x with
  | .error, some existing =>
    if existing = incoming then .ok entered
    else .error (.conflict ⟨state, x, existing, incoming⟩)
  | _, _ => .ok entered

/-- Meets the demand of one item. -/
def meet (policy : ConflictPolicy) (source : TableSource) (state : State) (table : Table)
    (item : Item) : Except TableError Table :=
  match source.demand? state item with
  | .error e => .error e
  | .ok none => .ok table
  | .ok (some (.action x action)) => table.enter policy state.index x action
  | .ok (some (.goto x target)) => .ok { table with goto := table.goto.put state.index x target }

/-- Meets the demands of some items of a state in order. -/
def meetAll (policy : ConflictPolicy) (source : TableSource) (state : State) :
    Table → List Item → Except TableError Table
  | table, [] => .ok table
  | table, item :: rest =>
    match table.meet policy source state item with
    | .error e => .error e
    | .ok next => meetAll policy source state next rest

/-- Opens the rows of a state. -/
def openRows (table : Table) (state : State) : Table :=
  { table with
    action := table.action.openRow state.index
    goto := table.goto.openRow state.index }

/-- Fills the rows of some states in order. -/
def fill (policy : ConflictPolicy) (source : TableSource) :
    Table → List State → Except TableError Table
  | table, [] => .ok table
  | table, state :: rest =>
    match (table.openRows state).meetAll policy source state state.items with
    | .error e => .error e
    | .ok next => fill policy source next rest

/-- The table of an automaton. -/
def build (policy : ConflictPolicy) (grammar : Grammar) (classes : SymbolClasses) (start : Symbol)
    (automaton : Automaton) : Except TableError Table :=
  fill policy ⟨grammar, classes, start, automaton.augmentedStart⟩
    ⟨.empty, .empty, classes.terminals, classes.nonterminals, automaton.states.length⟩
    automaton.states

end Table

end CanonicalLR
