import CanonicalLR.Item

/-!
# Automata over item sets

A state has a number, its items in order, and its transitions in the order in which they were
made.  An automaton lists its states; nothing asks that the numbers be the positions, so an
automaton made by hand may repeat or skip numbers.
-/

namespace CanonicalLR

/-- A numbered item set with its transitions. -/
structure State where
  index : Int
  items : List Item
  transitions : Entries Symbol Int
deriving DecidableEq, Repr

namespace State

/-- The state that a symbol leads to. -/
def target? (state : State) (x : Symbol) : Option Int := state.transitions.lookup x

/-- The text of a state: its number, then one item a line. -/
def render (state : State) : String :=
  "State " ++ toString state.index ++ ":\n  " ++ "\n  ".intercalate (state.items.map Item.render)

end State

/-- A list of states with the fresh symbol that derives the start symbol. -/
structure Automaton where
  augmentedStart : Symbol
  states : List State
deriving DecidableEq, Repr

namespace Automaton

/-- The text of one transition. -/
def renderTransition (state : State) (move : Symbol × Int) : String :=
  "  GOTO(" ++ toString state.index ++ ", " ++ move.1 ++ ") = " ++ toString move.2

/-- The text of an automaton: its states, an empty line, then all transitions. -/
def render (automaton : Automaton) : String :=
  "\n".intercalate <|
    ("LR(1) Automaton with " ++ toString automaton.states.length ++ " states") ::
      automaton.states.map State.render ++ "\nTransitions:" ::
      automaton.states.flatMap fun state => state.transitions.map (renderTransition state)

end Automaton

end CanonicalLR
