import CanonicalLR.Proofs.Renaming.Cores

/-!
# The automaton of renamed symbols

Two lists of items are alike (`Item.Alike`) if they hold the same items up to a renaming and their
cores appear in the same order.  Closures of lists that are alike are alike: their cores are visited
in the same order (`discovers_closure`), so what becomes known is renamed too, and with it the sets
of items (`alike_closure`).

The order of cores is the order of the symbols after a dot, so the transitions of alike states are
made in the same order, and registered sets get the same numbers.  The two explorations go on side
by side (`Collection.Alike.explore`), and make automata that differ in the spelling only
(`respelled_automaton`).
-/

namespace CanonicalLR

/-- The same items up to the spelling, with their cores in the same order. -/
structure Item.Alike (π : Equiv.Perm Symbol) (items items' : List Item) : Prop where
  mem : ∀ i, i.rename π ∈ items' ↔ i ∈ items
  cores : Item.cores items' = (Item.cores items).map (Item.rename π)

/-- Memos from which the same answers follow up to the spelling. -/
structure Memo.Alike (π : Equiv.Perm Symbol) (g : Grammar) (memo memo' : Memo) : Prop where
  symbols : memo'.symbols = FirstTable.rename π memo.symbols
  credible : memo.Credible g
  credible' : memo'.Credible (g.rename π)
  grounded : memo.Grounded g
  grounded' : memo'.Grounded (g.rename π)

/-- Transitions on other symbols. -/
def Entries.rename {β : Type} (π : Equiv.Perm Symbol) (moves : Entries Symbol β) :
    Entries Symbol β :=
  moves.map fun move => (π move.1, move.2)

/-- The automaton with other symbols: the same states in the same order, with the transitions in the
same order, and with the same items in any order. -/
structure Automaton.Respelled (π : Equiv.Perm Symbol) (a a' : Automaton) : Prop where
  augmentedStart : a'.augmentedStart = π a.augmentedStart
  length : a'.states.length = a.states.length
  state : ∀ {p : Nat} {state : State}, a.states[p]? = some state →
    ∃ state' : State, a'.states[p]? = some state' ∧ state'.index = state.index ∧
      state'.transitions = Entries.rename π state.transitions ∧
      ∀ i, i.rename π ∈ state'.items ↔ i ∈ state.items

variable {g : Grammar} {π : Equiv.Perm Symbol} {x : Symbol} {F F' : List Symbol → SymbolSet}
  {i j : Item} {items items' seeds seeds' : List Item} {sets sets' : List (List Item)}
  {memo memo' : Memo}

theorem Item.rename_core (hend : π endMarker = endMarker) (i : Item) :
    (i.rename π).core = i.core.rename π := by
  simp only [core, rename, hend]

theorem Item.movedOver_rename (x : Symbol) (items : List Item) :
    Grammar.movedOver (π x) (items.map (Item.rename π)) =
      (Grammar.movedOver x items).map (Item.rename π) := by
  have hnext : ∀ i : Item, (i.rename π).next? = some (π x) ↔ i.next? = some x := by
    intro i
    rw [next?_rename, ← Option.map_some, Option.map_injective π.injective |>.eq_iff]
  simp only [Grammar.movedOver, List.filter_map, Function.comp_def, hnext, List.map_map]
  rfl

/-! ## Lists that are alike -/

namespace Item.Alike

theorem forall_mem (h : Item.Alike π items items') {P : Item → Prop}
    (hP : ∀ i ∈ items, P (i.rename π)) : ∀ i ∈ items', P i := by
  intro i hi
  rw [← rename_rename_symm π i, h.mem] at hi
  have hi := hP _ hi
  rwa [rename_rename_symm] at hi

theorem terminated (h : Item.Alike π items items') (he : π epsilon = epsilon)
    (ht : ∀ i ∈ items, i.Terminated g) : ∀ i ∈ items', i.Terminated (g.rename π) := by
  refine h.forall_mem fun i hi => ⟨?_, fun e => (ht i hi).ne_epsilon (π.injective ?_)⟩
  · rw [rename, Grammar.isNonterminal_rename]
    exact (ht i hi).terminal
  · exact e.trans he.symm

/-- The symbols after a dot depend on the cores and on their order. -/
theorem nextSymbols (h : Item.Alike π items items') :
    Item.nextSymbols items' = (Item.nextSymbols items).map π := by
  have hcores : ∀ items : List Item,
      Item.nextSymbols items = distinct ((Item.cores items).filterMap next?) := by
    intro items
    rw [Item.cores, distinct_filterMap_distinct, List.filterMap_map]
    rfl
  rw [hcores, h.cores, hcores, ← distinct_map fun _ _ e => π.injective e, List.filterMap_map,
    List.map_filterMap]
  congr 2
  funext i
  exact i.next?_rename π

theorem movedOver (h : Item.Alike π items items') (x : Symbol) :
    Item.Alike π (Grammar.movedOver x items) (Grammar.movedOver (π x) items') where
  mem i := by
    rw [Grammar.mem_movedOver, Grammar.mem_movedOver]
    constructor
    · rintro ⟨i', hi', hx, e⟩
      rw [← rename_rename_symm π i', h.mem] at hi'
      refine ⟨_, hi', ?_, rename_injective (π := π) (e.trans ?_)⟩
      · rw [next?_rename, hx, Option.map_some, Equiv.symm_apply_apply]
      · conv_lhs => rw [← rename_rename_symm π i']
        rfl
    · rintro ⟨i, hi, hx, rfl⟩
      refine ⟨i.rename π, (h.mem i).2 hi, ?_, rfl⟩
      rw [next?_rename, hx, Option.map_some]
  cores := by
    -- moving the dot does not look at lookaheads
    have hcores : ∀ (x : Symbol) (items : List Item),
        Item.cores (Grammar.movedOver x items) =
          distinct (Grammar.movedOver x (Item.cores items)) := by
      intro x items
      rw [Item.cores, Grammar.movedOver, Grammar.movedOver, Item.cores, ← distinct_filter,
        distinct_map_distinct, List.filter_map, List.map_map, List.map_map]
      rfl
    rw [hcores, h.cores, movedOver_rename, distinct_map fun _ _ e => rename_injective e, hcores]

theorem sameSet {others others' : List Item} (h : Item.Alike π items items')
    (ho : Item.Alike π others others') :
    Item.sameSet items' others' = Item.sameSet items others := by
  refine Bool.eq_iff_iff.2 ?_
  rw [Item.sameSet_iff, Item.sameSet_iff]
  constructor
  · intro hsame j
    rw [← h.mem, hsame, ho.mem]
  · intro hsame j
    rw [← rename_rename_symm π j, h.mem, hsame, ho.mem]

end Item.Alike

/-! ## Closures -/

namespace Grammar

section Closure

variable (he : π epsilon = epsilon) (hF : ∀ xs, F' (xs.map π) = (F xs).rename π)

include he hF

theorem predicts_rename :
    (g.rename π).Predicts F' (i.rename π) (j.rename π) ↔ g.Predicts F i j := by
  have hbeyond : (i.rename π).beyond ++ [(i.rename π).lookahead] =
      (i.beyond ++ [i.lookahead]).map π := by
    rw [List.map_append, Item.beyond, Item.beyond, List.map_drop]
    rfl
  unfold Predicts
  rw [hbeyond, hF, Item.next?_rename]
  constructor
  · rintro ⟨B', rhs', b', hn, hr, hb, hne, hj⟩
    obtain ⟨B, hB, rfl⟩ := Option.map_eq_some_iff.1 hn
    obtain ⟨rhs, rfl⟩ : ∃ rhs : List Symbol, rhs.map π = rhs' :=
      ⟨rhs'.map π.symm, by simp [Function.comp_def]⟩
    obtain ⟨b, rfl⟩ := π.surjective b'
    refine ⟨B, rhs, b, hB, mem_pairs_rename.1 hr, SymbolSet.apply_mem_rename.1 hb, ?_, ?_⟩
    · rintro rfl
      exact hne he
    · exact Item.rename_injective hj
  · rintro ⟨B, rhs, b, hn, hr, hb, hne, rfl⟩
    refine ⟨π B, rhs.map π, π b, by rw [hn, Option.map_some], mem_pairs_rename.2 hr,
      SymbolSet.apply_mem_rename.2 hb, fun e => hne (π.injective (e.trans he.symm)), rfl⟩

/-- What predictions reach is renamed with the seeds. -/
theorem inClosure_rename (hs : ∀ i, i.rename π ∈ seeds' ↔ i ∈ seeds) :
    (g.rename π).InClosure F' seeds' (j.rename π) ↔ g.InClosure F seeds j := by
  constructor
  · rintro ⟨i', hi', hreach⟩
    rw [← Item.rename_rename_symm π i', hs] at hi'
    refine ⟨_, hi', ?_⟩
    rw [← Item.rename_symm_rename π j]
    refine hreach.lift (Item.rename π.symm) fun a b hab => (predicts_rename he hF).1 ?_
    rwa [Item.rename_rename_symm, Item.rename_rename_symm]
  · rintro ⟨i, hi, hreach⟩
    exact ⟨_, (hs i).2 hi, hreach.lift (Item.rename π) fun a b hab => (predicts_rename he hF).2 hab⟩

end Closure

section Run

variable (he : π epsilon = epsilon) (hend : π endMarker = endMarker)

include he hend

/-- **Closures of lists that are alike are alike**, and as much is known afterwards. -/
theorem alike_closure (hm : memo.Alike π g memo') (ht : ∀ i ∈ items, i.Terminated g)
    (h : Item.Alike π items items') :
    Item.Alike π (g.closure items memo).1 ((g.rename π).closure items' memo').1 ∧
      (g.closure items memo).2.Alike π g ((g.rename π).closure items' memo').2 := by
  have hvisit := (discovers_closure hm.grounded hm.credible ht).rename he hend
  have hvisit' := discovers_closure hm.grounded' hm.credible' (h.terminated he ht)
  rw [h.cores, hm.symbols] at hvisit'
  obtain ⟨hcores, hsymbols⟩ := hvisit.eq_last hvisit'
  have hlast : (g.closure items memo).2.Alike π g ((g.rename π).closure items' memo').2 :=
    ⟨hsymbols, kept_credible.closure items hm.credible, kept_credible.closure items' hm.credible',
      kept_grounded.closure items hm.grounded, kept_grounded.closure items' hm.grounded'⟩
  refine ⟨⟨fun i => ?_, hcores⟩, hlast⟩
  -- the answers given on the way are those that the last memos would give
  rw [mem_closure hm.credible hlast.grounded.agrees,
    mem_closure hm.credible' hlast.grounded'.agrees]
  exact inClosure_rename he (fun xs => (scanString_rename he hlast.symbols xs).1) h.mem

/-! ## The exploration -/

omit he hend in
theorem alike_register (hs : List.Forall₂ (Item.Alike π) sets sets')
    (h : Item.Alike π items items') :
    (register sets' items').1 = (register sets items).1 ∧
      List.Forall₂ (Item.Alike π) (register sets items).2 (register sets' items').2 := by
  have hfind : sets'.findIdx? (Item.sameSet items') = sets.findIdx? (Item.sameSet items) := by
    induction hs with
    | nil => rfl
    | cons hset _ ih => rw [List.findIdx?_cons, List.findIdx?_cons, ih, h.sameSet hset]
  unfold register
  rw [hfind]
  cases sets.findIdx? (Item.sameSet items) with
  | some t => exact ⟨rfl, hs⟩
  | none => exact ⟨hs.length_eq.symm, List.rel_append hs (.cons h .nil)⟩

/-- The transitions of lists that are alike lead to the same numbers. -/
theorem alike_successors (xs : List Symbol) (hm : memo.Alike π g memo')
    (hs : List.Forall₂ (Item.Alike π) sets sets') (ht : ∀ i ∈ items, i.Terminated g)
    (h : Item.Alike π items items') :
    ((g.rename π).successors items' (xs.map π) sets' memo').1 =
      Entries.rename π (g.successors items xs sets memo).1 ∧
    List.Forall₂ (Item.Alike π) (g.successors items xs sets memo).2.1
      ((g.rename π).successors items' (xs.map π) sets' memo').2.1 ∧
    (g.successors items xs sets memo).2.2.Alike π g
      ((g.rename π).successors items' (xs.map π) sets' memo').2.2 := by
  induction xs generalizing sets sets' memo memo' with
  | nil => exact ⟨rfl, hs, hm⟩
  | cons x xs ih =>
    have hmoved : ∀ i ∈ movedOver x items, i.Terminated g := by
      intro i hi
      obtain ⟨before, hb, -, rfl⟩ := mem_movedOver.1 hi
      exact ⟨(ht before hb).terminal, (ht before hb).ne_epsilon⟩
    obtain ⟨hgoto, hmemo⟩ := alike_closure he hend hm hmoved (h.movedOver x)
    obtain ⟨hnumber, hsets⟩ := alike_register hs hgoto
    obtain ⟨hrest, hlast⟩ := ih hmemo hsets
    refine ⟨?_, hlast⟩
    exact congrArg₂ List.cons (Prod.ext rfl hnumber) hrest

end Run

end Grammar

/-- Explorations that have come equally far. -/
structure Grammar.Collection.Alike (π : Equiv.Perm Symbol) (g : Grammar) (c c' : Collection) :
    Prop where
  sets : List.Forall₂ (Item.Alike π) c.sets c'.sets
  rows : c'.rows = c.rows.map (Entries.rename π)
  memo : c.memo.Alike π g c'.memo

namespace Grammar

variable {c c' : Collection}

theorem IsItem.terminated (wf : g.WellFormed) (h : g.IsItem i) : i.Terminated g := by
  rcases h.lookahead with e | ⟨hbody, hn⟩
  · refine ⟨fun hn => wf.endMarker (mem_symbols.2 (.inl (e ▸ hn))), ?_⟩
    rw [e]
    decide
  · exact ⟨Bool.eq_false_iff.1 hn, fun e => wf.epsilon (mem_symbols.2 (.inr (e ▸ hbody)))⟩

theorem forall₂_getElem? {α β : Type} {R : α → β → Prop} {xs : List α} {ys : List β}
    (h : List.Forall₂ R xs ys) {k : Nat} {x : α} (hx : xs[k]? = some x) :
    ∃ y, ys[k]? = some y ∧ R x y := by
  obtain ⟨hk, rfl⟩ := List.getElem?_eq_some_iff.1 hx
  have hk' : k < ys.length := h.length_eq ▸ hk
  exact ⟨ys[k], List.getElem?_eq_getElem hk', h.get hk hk'⟩

section Explore

variable (wf : g.WellFormed) (hπ : g.Respects π)

include wf hπ

theorem Collection.Alike.explore (budget : Nat) (h : c.Alike π g c') (hc : g.Exploring c) :
    (g.explore budget c).Alike π g ((g.rename π).explore budget c') := by
  induction budget generalizing c c' with
  | zero => exact h
  | succ budget ih =>
    have hlength : c'.rows.length = c.rows.length := by rw [h.rows, List.length_map]
    cases hq : c.sets[c.rows.length]? with
    | none =>
      have hq' : c'.sets[c'.rows.length]? = none := by
        rw [hlength, List.getElem?_eq_none_iff, ← h.sets.length_eq]
        exact List.getElem?_eq_none_iff.1 hq
      rwa [explore_of_none hq, explore_of_none hq']
    | some items =>
      obtain ⟨items', hq', halike⟩ := forall₂_getElem? h.sets hq
      rw [← hlength] at hq'
      have ht : ∀ i ∈ items, i.Terminated g := fun i hi =>
        (hc.sets.isItem items (List.mem_of_getElem? hq) i hi).terminated wf
      obtain ⟨hrow, hsets, hmemo⟩ := alike_successors hπ.epsilon hπ.endMarker
        (Item.nextSymbols items) h.memo h.sets ht halike
      rw [← halike.nextSymbols] at hrow hsets hmemo
      rw [explore_of_some hq, explore_of_some hq']
      refine ih ⟨hsets, ?_, hmemo⟩ (hc.next hq)
      rw [Collection.expand, h.rows, hrow, Collection.expand, List.map_append, List.map_singleton]

omit wf in
theorem alike_openMemo (strategy : FirstStrategy) :
    (g.openMemo strategy).Alike π g ((g.rename π).openMemo strategy) := by
  refine ⟨?_, credible_openMemo strategy, credible_openMemo strategy, grounded_openMemo strategy,
    grounded_openMemo strategy⟩
  cases strategy with
  | guarded => rfl
  | fixedPoint => exact solveFirst_rename hπ.epsilon

theorem alike_initialCollection (hm : memo.Alike π g memo') :
    (g.initialCollection memo).Alike π g ((g.rename π).initialCollection memo') := by
  have hseed : Item.Alike π [g.initialItem] [(g.rename π).initialItem] := by
    rw [hπ.initialItem]
    refine ⟨fun i => ?_, ?_⟩
    · rw [List.mem_singleton, List.mem_singleton, Item.rename_injective.eq_iff]
    · simp only [Item.cores, List.map_singleton, distinct, Item.rename_core hπ.endMarker]
      rfl
  have ht : ∀ i ∈ [g.initialItem], i.Terminated g := fun i hi =>
    List.mem_singleton.1 hi ▸ isItem_initialItem.terminated wf
  obtain ⟨hset, hmemo⟩ := alike_closure hπ.epsilon hπ.endMarker hm ht hseed
  exact ⟨.cons hset .nil, rfl, hmemo⟩

theorem alike_fullCollection (hm : memo.Alike π g memo') :
    (g.fullCollection memo).Alike π g ((g.rename π).fullCollection memo') := by
  rw [fullCollection, fullCollection, itemCount_rename]
  exact (alike_initialCollection wf hπ hm).explore wf hπ _ (exploring_initial hm.credible)

end Explore

theorem Collection.Alike.toAutomaton (h : c.Alike π g c') (s : Symbol) :
    (c.toAutomaton s).Respelled π (c'.toAutomaton (π s)) where
  augmentedStart := rfl
  length := by simp [Collection.toAutomaton, h.rows, h.sets.length_eq]
  state := by
    intro p state hp
    obtain ⟨items, row, hs, hr, rfl⟩ := Automaton.getElem?_toAutomaton.1 hp
    obtain ⟨items', hs', halike⟩ := forall₂_getElem? h.sets hs
    have hr' : c'.rows[p]? = some (Entries.rename π row) := by
      rw [h.rows, List.getElem?_map, hr, Option.map_some]
    refine ⟨_, Automaton.getElem?_toAutomaton.2 ⟨items', _, hs', hr', rfl⟩, rfl, ?_, halike.mem⟩
    simp [Entries.rename, Function.comp_def]

/-- **The automaton of renamed symbols** differs in the spelling only. -/
theorem respelled_automaton (wf : g.WellFormed) (hπ : g.Respects π) (strategy : FirstStrategy) :
    (g.automaton strategy).Respelled π ((g.rename π).automaton strategy) := by
  have h := alike_fullCollection wf hπ (alike_openMemo hπ strategy)
  have hlast := h.toAutomaton g.augmentedStart
  rw [← hπ.augmentedStart] at hlast
  exact hlast

end Grammar

end CanonicalLR
