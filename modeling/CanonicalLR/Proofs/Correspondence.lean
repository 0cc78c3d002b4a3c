import CanonicalLR.Proofs.Demands
import Mathlib.Data.Set.Function
import Mathlib.Logic.Equiv.Defs

/-!
# Automata that correspond

Two grammars may differ in how their symbols are spelled and in the order of their productions, and
two automata in the numbers of their states.  `Automaton.Corresponds` relates the states of two such
automata: item sets are equal up to the spelling, and transitions up to the spelling and the
numbers.

Then the entries that the states demand are the same, with states under their other numbers and
productions under theirs.  So a clash in one automaton is a clash in the other
(`Corresponds.clashesAt_iff`), and where clashes are errors the tables of the two have the same
entries (`Corresponds.tables`).
-/

namespace CanonicalLR

/-- An item with other symbols. -/
def Item.rename (π : Equiv.Perm Symbol) (i : Item) : Item :=
  ⟨π i.lhs, i.rhs.map π, i.dot, π i.lookahead⟩

theorem Item.next?_rename (π : Equiv.Perm Symbol) (i : Item) :
    (i.rename π).next? = i.next?.map π := List.getElem?_map

theorem Item.rename_refl (i : Item) : i.rename (Equiv.refl Symbol) = i := by simp [rename]

theorem Item.rename_symm_rename (π : Equiv.Perm Symbol) (i : Item) :
    (i.rename π).rename π.symm = i := by
  simp [rename, Function.comp_def]

theorem Item.rename_rename_symm (π : Equiv.Perm Symbol) (i : Item) :
    (i.rename π.symm).rename π = i := by
  simp [rename, Function.comp_def]

theorem Item.rename_injective {π : Equiv.Perm Symbol} : Function.Injective (rename π) :=
  Function.LeftInverse.injective (rename_symm_rename π)

/-- The other number of a target. -/
def renumber (σ : Nat → Nat) (t : Int) : Int := (σ t.toNat : Int)

@[simp] theorem renumber_natCast (σ : Nat → Nat) (t : Nat) : renumber σ t = (σ t : Int) := rfl

/-- A grammar with other symbols, and with its productions in any order. -/
structure Grammar.Renamed (π : Equiv.Perm Symbol) (g g' : Grammar) : Prop where
  nonterminal : ∀ x, g'.isNonterminal (π x) = g.isNonterminal x
  rule : ∀ A rhs, (π A, rhs.map π) ∈ g'.productions.pairs ↔ (A, rhs) ∈ g.productions.pairs
  augmentedStart : g'.augmentedStart = π g.augmentedStart
  endMarker : π endMarker = endMarker

/-- The states of two automata, of which one has other numbers and other symbols. -/
structure Automaton.Corresponds (σ : Nat → Nat) (π : Equiv.Perm Symbol) (a a' : Automaton) :
    Prop where
  zero : σ 0 = 0
  states : Set.BijOn σ {p | p < a.states.length} {p | p < a'.states.length}
  state : ∀ {p state}, a.states[p]? = some state → ∃ state', a'.states[σ p]? = some state' ∧
    (∀ i, i.rename π ∈ state'.items ↔ i ∈ state.items) ∧
    ∀ x, state'.target? (π x) = (state.target? x).map (renumber σ)

/-- The same action: a shift to the state under its other number, or a reduction by the same
production, under the number that it has in each grammar. -/
inductive Action.Same (σ : Nat → Nat) (π : Equiv.Perm Symbol) (g g' : Grammar) :
    Action → Action → Prop
  | shift (t : Int) : Same σ π g g' (.shift t) (.shift (renumber σ t))
  | reduce {k k' : Nat} {A : Symbol} {rhs : List Symbol} (h : g.ruleId? A rhs = some k)
      (h' : g'.ruleId? (π A) (rhs.map π) = some k') : Same σ π g g' (.reduce k) (.reduce k')
  | accept : Same σ π g g' .accept .accept

/-- The same entry for a cell. -/
inductive Demand.Same (σ : Nat → Nat) (π : Equiv.Perm Symbol) (g g' : Grammar) :
    Demand → Demand → Prop
  | action (x : Symbol) {act act' : Action} (h : act.Same σ π g g' act') :
      Same σ π g g' (.action x act) (.action (π x) act')
  | goto (x : Symbol) (t : Int) : Same σ π g g' (.goto x t) (.goto (π x) (renumber σ t))

/-- The same entries in all cells of two tables, of which the first has the given number of rows. -/
def Table.Same (σ : Nat → Nat) (π : Equiv.Perm Symbol) (g g' : Grammar) (rows : Nat)
    (table table' : Table) : Prop :=
  ∀ p < rows, ∀ x,
    Option.Rel (Action.Same σ π g g') (table.action.get? p x) (table'.action.get? (σ p) (π x)) ∧
    table'.goto.get? (σ p) (π x) = (table.goto.get? p x).map (renumber σ)

/-- Both tables are refused for a clash, or both are filled and stand in a relation. -/
inductive Table.SameOutcome (R : Table → Table → Prop) :
    Except TableError Table → Except TableError Table → Prop
  | refused (c c' : Conflict) : SameOutcome R (.error (.conflict c)) (.error (.conflict c'))
  | filled {table table' : Table} (h : R table table') : SameOutcome R (.ok table) (.ok table')

theorem Table.SameOutcome.imp {R R' : Table → Table → Prop}
    {built built' : Except TableError Table} (h : SameOutcome R built built')
    (hR : ∀ {table table'}, built = .ok table → built' = .ok table' → R table table' →
      R' table table') : SameOutcome R' built built' := by
  cases h with
  | refused c c' => exact .refused c c'
  | filled h => exact .filled (hR rfl rfl h)

variable {σ : Nat → Nat} {π : Equiv.Perm Symbol} {g g' : Grammar} {a a' : Automaton}
  {state state' : State} {i : Item} {d d' : Demand} {act act' act₁ act₂ : Action}
  {x x' : Symbol} {p : Nat} {t' : Int}

theorem Demand.Same.of_action (h : d.Same σ π g g' (.action x' act')) :
    ∃ x act, d = .action x act ∧ π x = x' ∧ act.Same σ π g g' act' := by
  cases h with
  | action x h => exact ⟨x, _, rfl, rfl, h⟩

theorem Demand.Same.of_goto (h : d.Same σ π g g' (.goto x' t')) :
    ∃ x t, d = .goto x t ∧ π x = x' ∧ renumber σ t = t' := by
  cases h with
  | goto x t => exact ⟨x, t, rfl, rfl, rfl⟩

/-! ## Entries of one table -/

section Entries

variable {table : Table} {t : Int}

/-- Where clashes are errors, exactly the demanded actions are entered. -/
theorem Table.Serves.action_iff (hs : table.Serves .error g a) :
    table.action.get? p x = some act ↔ a.Demands g p (.action x act) := by
  refine ⟨fun h => ?_, hs.stands rfl p x act⟩
  obtain ⟨q, e, hd⟩ := hs.sound p (.action x act) h
  rwa [Int.ofNat.inj e]

theorem Automaton.Demands.target_of_goto (h : a.Demands g p (.goto x t))
    (hp : a.states[p]? = some state) : state.target? x = some t := by
  obtain ⟨state', i, hp', -, hask⟩ := h
  obtain rfl := Option.some.inj (hp.symm.trans hp')
  cases hask
  assumption

theorem Automaton.Demands.target_of_shift (h : a.Demands g p (.action x (.shift t)))
    (hp : a.states[p]? = some state) : state.target? x = some t := by
  obtain ⟨state', i, hp', -, hask⟩ := h
  obtain rfl := Option.some.inj (hp.symm.trans hp')
  cases hask
  assumption

theorem Automaton.Demands.exists_state (h : a.Demands g p d) :
    ∃ state, a.states[p]? = some state := by
  obtain ⟨state, -, hp, -⟩ := h
  exact ⟨state, hp⟩

/-- Exactly the demanded targets are entered. -/
theorem Table.Serves.goto_iff {policy : ConflictPolicy} (hs : table.Serves policy g a) :
    table.goto.get? p x = some t ↔ a.Demands g p (.goto x t) := by
  constructor
  · intro h
    obtain ⟨q, e, hd⟩ := hs.sound p (.goto x t) h
    rwa [Int.ofNat.inj e]
  · intro hd
    obtain ⟨t', ht'⟩ := (hs.occupied p _ hd).goto
    obtain ⟨q, e, hd'⟩ := hs.sound p (.goto x t') ht'
    obtain rfl := Int.ofNat.inj e
    obtain ⟨state, hp⟩ := hd.exists_state
    have htarget := (hd'.target_of_goto hp).symm.trans (hd.target_of_goto hp)
    rw [ht', Option.some.inj htarget]

end Entries

/-! ## The same demands -/

/-- What corresponding items demand is the same. -/
theorem Grammar.Renamed.asks (hg : g.Renamed π g')
    (ht : ∀ x, state'.target? (π x) = (state.target? x).map (renumber σ))
    (h : g.Asks state i d) : ∃ d', d.Same σ π g g' d' ∧ g'.Asks state' (i.rename π) d' := by
  have hnext : ∀ {y : Option Symbol}, i.next? = y → (i.rename π).next? = y.map π := by
    rintro _ rfl
    exact i.next?_rename π
  cases h with
  | accept hn hl =>
    refine ⟨.action (π CanonicalLR.endMarker) .accept, .action _ .accept, ?_⟩
    rw [hg.endMarker]
    exact .accept (hnext hn) ((congrArg π hl).trans hg.augmentedStart.symm)
  | @reduce k hn hk =>
    have hrule := mem_pairs_of_rule? (rule?_of_ruleId? hk)
    obtain ⟨k', hk'⟩ := exists_ruleId? ((hg.rule _ _).2 hrule)
    exact ⟨_, .action _ (.reduce hk hk'), .reduce (hnext hn) hk'⟩
  | @shift x t hx hn htarget =>
    refine ⟨_, .action x (.shift t), .shift (hnext hx) ((hg.nonterminal x).trans hn) ?_⟩
    rw [ht, htarget, Option.map_some]
  | @goto x t hx hn htarget =>
    refine ⟨_, .goto x t, .goto (hnext hx) ((hg.nonterminal x).trans hn) ?_⟩
    rw [ht, htarget, Option.map_some]

/-- Corresponding items demand nothing else. -/
theorem Grammar.Renamed.asks_of_asks (hg : g.Renamed π g')
    (ht : ∀ x, state'.target? (π x) = (state.target? x).map (renumber σ))
    (h : g'.Asks state' (i.rename π) d') : ∃ d, d.Same σ π g g' d' ∧ g.Asks state i d := by
  have hnone : (i.rename π).next? = none → i.next? = none := by
    rw [i.next?_rename π, Option.map_eq_none_iff]
    exact id
  have hsome : ∀ {x'}, (i.rename π).next? = some x' → ∃ x, i.next? = some x ∧ π x = x' := by
    intro x' hx
    rwa [i.next?_rename π, Option.map_eq_some_iff] at hx
  have htarget : ∀ {x t'}, state'.target? (π x) = some t' →
      ∃ t, state.target? x = some t ∧ renumber σ t = t' := by
    intro x t' ht'
    rwa [ht, Option.map_eq_some_iff] at ht'
  cases h with
  | accept hn hl =>
    refine ⟨.action CanonicalLR.endMarker .accept, ?_, .accept (hnone hn) (π.injective ?_)⟩
    · have hsame : (Demand.action CanonicalLR.endMarker .accept).Same σ π g g' _ :=
        .action _ .accept
      rwa [hg.endMarker] at hsame
    · exact hl.trans hg.augmentedStart
  | @reduce k' hn hk' =>
    have hrule := mem_pairs_of_rule? (rule?_of_ruleId? hk')
    obtain ⟨k, hk⟩ := exists_ruleId? ((hg.rule _ _).1 hrule)
    exact ⟨_, .action _ (.reduce hk hk'), .reduce (hnone hn) hk⟩
  | shift hx' hn ht' =>
    obtain ⟨x, hx, rfl⟩ := hsome hx'
    obtain ⟨t, ht, rfl⟩ := htarget ht'
    exact ⟨_, .action x (.shift t), .shift hx ((hg.nonterminal x).symm.trans hn) ht⟩
  | goto hx' hn ht' =>
    obtain ⟨x, hx, rfl⟩ := hsome hx'
    obtain ⟨t, ht, rfl⟩ := htarget ht'
    exact ⟨_, .goto x t, .goto hx ((hg.nonterminal x).symm.trans hn) ht⟩

namespace Automaton.Corresponds

section Demands

variable (hg : g.Renamed π g') (h : a.Corresponds σ π a')

include hg h

theorem demands (hd : a.Demands g p d) :
    ∃ d', d.Same σ π g g' d' ∧ a'.Demands g' (σ p) d' := by
  obtain ⟨state, i, hp, hi, hask⟩ := hd
  obtain ⟨state', hp', hitems, ht⟩ := h.state hp
  obtain ⟨d', hsame, hask'⟩ := hg.asks ht hask
  exact ⟨d', hsame, state', i.rename π, hp', (hitems i).2 hi, hask'⟩

theorem demands_of_demands (hp : a.states[p]? = some state) (hd : a'.Demands g' (σ p) d') :
    ∃ d, d.Same σ π g g' d' ∧ a.Demands g p d := by
  obtain ⟨state', i', hp', hi', hask'⟩ := hd
  obtain ⟨state'', hp'', hitems, ht⟩ := h.state hp
  obtain rfl := Option.some.inj (hp'.symm.trans hp'')
  obtain ⟨i, rfl⟩ : ∃ i : Item, i.rename π = i' := ⟨_, i'.rename_rename_symm π⟩
  obtain ⟨d, hsame, hask⟩ := hg.asks_of_asks ht hask'
  exact ⟨d, hsame, state, i, hp, (hitems i).1 hi', hask⟩

omit hg h in
/-- Different actions for one cell are not the same as one action. -/
theorem eq_of_same (hd₁ : a.Demands g p (.action x act₁)) (hd₂ : a.Demands g p (.action x act₂))
    (h₁ : act₁.Same σ π g g' act') (h₂ : act₂.Same σ π g g' act') : act₁ = act₂ := by
  obtain ⟨state, hp⟩ := hd₁.exists_state
  generalize hact : act' = other at h₂
  cases h₁ with
  | shift t =>
    cases h₂ with
    | shift t₂ =>
      have htarget := (hd₁.target_of_shift hp).symm.trans (hd₂.target_of_shift hp)
      rw [Option.some.inj htarget]
    | reduce | accept => cases hact
  | reduce hk hk' =>
    cases h₂ with
    | reduce hk₂ hk₂' =>
      cases hact
      have hrule := (Grammar.rule?_of_ruleId? hk').symm.trans (Grammar.rule?_of_ruleId? hk₂')
      obtain ⟨hA, hrhs⟩ := Prod.mk.inj (Option.some.inj hrule)
      obtain rfl := π.injective hA
      obtain rfl := List.map_injective_iff.2 π.injective hrhs
      rw [Option.some.inj (hk.symm.trans hk₂)]
    | shift | accept => cases hact
  | accept =>
    cases h₂ with
    | accept => rfl
    | shift | reduce => cases hact

omit hg h in
/-- One action is not the same as different actions. -/
theorem eq_of_same' (h₁ : act.Same σ π g g' act₁) (h₂ : act.Same σ π g g' act₂) : act₁ = act₂ := by
  generalize hact : act = other at h₂
  cases h₁ with
  | shift t =>
    cases h₂ with
    | shift => rw [Action.shift.inj hact]
    | reduce | accept => cases hact
  | reduce hk hk' =>
    cases h₂ with
    | reduce hk₂ hk₂' =>
      cases hact
      cases (Grammar.rule?_of_ruleId? hk).symm.trans (Grammar.rule?_of_ruleId? hk₂)
      rw [Option.some.inj (hk'.symm.trans hk₂')]
    | shift | accept => cases hact
  | accept =>
    cases h₂ with
    | accept => rfl
    | shift | reduce => cases hact

/-- **Clashes correspond.** -/
theorem clashesAt_iff : (∃ c, a.ClashesAt g c) ↔ ∃ c, a'.ClashesAt g' c := by
  constructor
  · rintro ⟨⟨q, x, old, new⟩, hne, p, rfl, hold, hnew⟩
    obtain ⟨_, ⟨_, hsame⟩, hold'⟩ := h.demands hg hold
    obtain ⟨_, ⟨_, hsame'⟩, hnew'⟩ := h.demands hg hnew
    refine ⟨⟨σ p, π x, _, _⟩, fun e => hne ?_, σ p, rfl, hold', hnew'⟩
    simp only at e
    subst e
    exact eq_of_same hold hnew hsame hsame'
  · rintro ⟨⟨q, x', old, new⟩, hne, p', rfl, hold, hnew⟩
    obtain ⟨state', hp'⟩ := hold.exists_state
    obtain ⟨p, hp, rfl⟩ := h.states.surjOn (List.getElem?_eq_some_iff.1 hp').1
    have hstate := List.getElem?_eq_getElem hp
    obtain ⟨d₁, hd₁, hold'⟩ := h.demands_of_demands hg hstate hold
    obtain ⟨d₂, hd₂, hnew'⟩ := h.demands_of_demands hg hstate hnew
    obtain ⟨x, old', rfl, rfl, hsame⟩ := hd₁.of_action
    obtain ⟨y, new', rfl, hyx, hsame'⟩ := hd₂.of_action
    obtain rfl := π.injective hyx
    refine ⟨⟨p, y, old', new'⟩, fun e => hne ?_, p, rfl, hold', hnew'⟩
    simp only at e
    subst e
    exact eq_of_same' hsame hsame'

/-! ## Tables -/

variable {table table' : Table} (hs : table.Serves .error g a) (hs' : table'.Serves .error g' a')

include hs hs'

/-- **Actions correspond**, cell by cell. -/
theorem action (hp : p < a.states.length) (x : Symbol) :
    Option.Rel (Action.Same σ π g g') (table.action.get? p x) (table'.action.get? (σ p) (π x)) := by
  have hstate := List.getElem?_eq_getElem hp
  cases hcell : table.action.get? p x with
  | some act =>
    obtain ⟨_, ⟨_, hsame⟩, hd'⟩ := h.demands hg (hs.action_iff.1 hcell)
    rw [hs'.action_iff.2 hd']
    exact .some hsame
  | none =>
    cases hcell' : table'.action.get? (σ p) (π x) with
    | none => exact .none
    | some act' =>
      obtain ⟨d, hsame, hd⟩ := h.demands_of_demands hg hstate (hs'.action_iff.1 hcell')
      obtain ⟨y, act, rfl, hyx, -⟩ := hsame.of_action
      obtain rfl := π.injective hyx
      rw [hs.action_iff.2 hd] at hcell
      cases hcell

/-- **Gotos correspond**, cell by cell. -/
theorem goto (hp : p < a.states.length) (x : Symbol) :
    table'.goto.get? (σ p) (π x) = (table.goto.get? p x).map (renumber σ) := by
  have hstate := List.getElem?_eq_getElem hp
  cases hcell : table.goto.get? p x with
  | some t =>
    obtain ⟨_, ⟨_, _⟩, hd'⟩ := h.demands hg (hs.goto_iff.1 hcell)
    exact hs'.goto_iff.2 hd'
  | none =>
    cases hcell' : table'.goto.get? (σ p) (π x) with
    | none => rfl
    | some t' =>
      obtain ⟨d, hsame, hd⟩ := h.demands_of_demands hg hstate (hs'.goto_iff.1 hcell')
      obtain ⟨y, t, rfl, hyx, -⟩ := hsame.of_goto
      obtain rfl := π.injective hyx
      rw [hs.goto_iff.2 hd] at hcell
      cases hcell

end Demands

end Automaton.Corresponds

section Tables

variable {F F' : List Symbol → SymbolSet} {classes classes' : SymbolClasses}

/-- Where clashes are errors, a table is refused if there is a clash. -/
theorem Automaton.Canonical.conflict_iff (wf : g.WellFormed) (hcl : classes.Of g)
    (hc : a.Canonical g F) :
    (∃ c, Table.build .error g classes g.start a = .error (.conflict c)) ↔
      ∃ c, a.ClashesAt g c := by
  constructor
  · rintro ⟨c, hb⟩
    obtain ⟨-, c', -, hclash⟩ := hc.clash wf hcl hb
    exact ⟨c', hclash⟩
  · rintro ⟨c, hne, p, -, hold, hnew⟩
    cases hb : Table.build .error g classes g.start a with
    | ok table =>
      have hs := hc.serves wf hcl hb
      exact absurd (Option.some.inj ((hs.action_iff.2 hold).symm.trans (hs.action_iff.2 hnew))) hne
    | error e =>
      obtain ⟨-, c', rfl, -⟩ := hc.clash wf hcl hb
      exact ⟨c', rfl⟩

/-- **The tables of corresponding automata** are refused together, or have the same entries. -/
theorem Automaton.Corresponds.tables (h : a.Corresponds σ π a') (hg : g.Renamed π g')
    (wf : g.WellFormed) (wf' : g'.WellFormed) (hcl : classes.Of g) (hcl' : classes'.Of g')
    (hc : a.Canonical g F) (hc' : a'.Canonical g' F') :
    Table.SameOutcome (fun table table' => table.Same σ π g g' a.states.length table')
      (Table.build .error g classes g.start a) (Table.build .error g' classes' g'.start a') := by
  have hconflict := (hc.conflict_iff wf hcl).trans
    ((h.clashesAt_iff hg).trans (hc'.conflict_iff wf' hcl').symm)
  cases hb : Table.build .error g classes g.start a with
  | error e =>
    obtain ⟨-, c, rfl, -⟩ := hc.clash wf hcl hb
    obtain ⟨c', hb'⟩ := hconflict.1 ⟨c, hb⟩
    rw [hb']
    exact .refused c c'
  | ok table =>
    cases hb' : Table.build .error g' classes' g'.start a' with
    | error e =>
      obtain ⟨-, c', rfl, -⟩ := hc'.clash wf' hcl' hb'
      obtain ⟨c, hclash⟩ := hconflict.2 ⟨c', hb'⟩
      rw [hb] at hclash
      cases hclash
    | ok table' =>
      refine .filled fun p hp x => ?_
      have hs := hc.serves wf hcl hb
      have hs' := hc'.serves wf' hcl' hb'
      exact ⟨h.action hg hs hs' hp x, h.goto hg hs hs' hp x⟩

end Tables

end CanonicalLR
