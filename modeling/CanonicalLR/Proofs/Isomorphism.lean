import CanonicalLR.Proofs.Correspondence
import CanonicalLR.Proofs.First.Exact
import CanonicalLR.Proofs.Numbering

/-!
# The order of the rules

Under the fixed point strategy the rules of a grammar may stand in any order and be repeated.  What
depends on the order is how an automaton is made: which items a closure finds first, which
transition is made first, and so the numbers of states and productions.  What an automaton is, up to
these numbers, is said by `Automaton.Canonical` without any order, with FIRST as the least solution
of equations that have no order either.

So a state of the one automaton and the state of the other to which the same symbols lead have the
same items (`Path.exists_same_items`).  This is a bijection, since no two states of an automaton
have the same items (`SameRules.corresponds`), and `tables_of_same_rules` reads the tables along it.
-/

namespace CanonicalLR

namespace Grammar

variable {g g' : Grammar} {F : List Symbol → SymbolSet} {seeds : List Item} {j : Item}

/-! ## Grammars with the same rules -/

namespace SameRules

theorem mem_symbols_iff (h : g.SameRules g') (x : Symbol) : x ∈ g.symbols ↔ x ∈ g'.symbols := by
  simp only [mem_symbols, mem_bodySymbols, h.nonterminal, h.rule]

theorem augmentedStart_eq (h : g.SameRules g') (hs : g.start = g'.start) :
    g.augmentedStart = g'.augmentedStart := by
  rw [augmentedStart, augmentedStart, hs, SymbolSet.ext h.mem_symbols_iff]

theorem initialItem_eq (h : g.SameRules g') (hs : g.start = g'.start) :
    g.initialItem = g'.initialItem := by
  rw [initialItem, initialItem, h.augmentedStart_eq hs, hs]

theorem inClosure_iff (h : g.SameRules g') :
    g.InClosure F seeds j ↔ g'.InClosure F seeds j := by
  have hpredicts : g.Predicts F = g'.Predicts F := by
    funext i j
    simp only [Predicts, h.rule]
  rw [InClosure, InClosure, hpredicts]

theorem renamed (h : g.SameRules g') (hs : g.start = g'.start) :
    g.Renamed (Equiv.refl Symbol) g' where
  nonterminal x := (h.nonterminal x).symm
  rule A rhs := by
    rw [Equiv.coe_refl, List.map_id]
    exact (h.rule _).symm
  augmentedStart := (h.augmentedStart_eq hs).symm
  endMarker := rfl

end SameRules

end Grammar

theorem sameRules_of_read {text text' : String} {listing listing' : Listing}
    (h : Listing.read text = .ok listing) (h' : Listing.read text' = .ok listing')
    (hr : ∀ pair, pair ∈ listing.productions.pairs ↔ pair ∈ listing'.productions.pairs) :
    listing.SameRules listing'.toGrammar := by
  obtain ⟨first, rest, -, rfl⟩ := exists_pairs_of_read h
  obtain ⟨first', rest', -, rfl⟩ := exists_pairs_of_read h'
  refine ⟨fun x => Bool.eq_iff_iff.2 ?_, hr⟩
  have hgiven : ∀ rhs, (x, rhs) ∈ first :: rest ↔ (x, rhs) ∈ first' :: rest' := by
    exact fun rhs => (Productions.mem_pairs_ofPairs.symm.trans (hr (x, rhs))).trans
      Productions.mem_pairs_ofPairs
  exact Grammar.isNonterminal_ofPairs.trans
    ((exists_congr hgiven).trans Grammar.isNonterminal_ofPairs.symm)

/-! ## States with the same items -/

namespace Automaton

section States

variable {g g' : Grammar} {F : List Symbol → SymbolSet} {a a' : Automaton} {p p' : Nat}
  {γ : List Symbol} {state state' : State}
  (same : g.SameRules g') (hs : g.start = g'.start) (hc : a.Canonical g F)
  (hc' : a'.Canonical g' F)

include same hc hc'

/-- States with the same items have transitions on the same symbols, to states with the same
items. -/
theorem Canonical.exists_same_target (hp : a.states[p]? = some state)
    (hp' : a'.states[p']? = some state') (hitems : ∀ i, i ∈ state'.items ↔ i ∈ state.items)
    {x : Symbol} {t : Nat} {next : State} (ht : state.target? x = some (t : Int))
    (hn : a.states[t]? = some next) : ∃ (t' : Nat) (next' : State),
      state'.target? x = some (t' : Int) ∧ a'.states[t']? = some next' ∧
      ∀ i, i ∈ next'.items ↔ i ∈ next.items := by
  obtain ⟨i, hi, hx⟩ := (hc.moves hp x).1 ⟨t, ht⟩
  obtain ⟨_, ht'⟩ := (hc'.moves hp' x).2 ⟨i, (hitems i).2 hi, hx⟩
  obtain ⟨t', next', rfl, hn', hmem⟩ := hc'.target hp' ht'
  refine ⟨t', next', ht', hn', fun j => ?_⟩
  rw [hmem, hc.mem_target hp ht hn, same.inClosure_iff]
  exact Grammar.InClosure.congr (Grammar.mem_movedOver_congr hitems)

include hs

/-- The same symbols lead to the same items. -/
theorem Path.exists_same_items (h : a.Path 0 γ p) (hp : a.states[p]? = some state) :
    ∃ (p' : Nat) (state' : State), a'.Path 0 γ p' ∧ a'.states[p']? = some state' ∧
      ∀ i, i ∈ state'.items ↔ i ∈ state.items := by
  generalize hq : 0 = q at h
  induction h generalizing state with
  | refl =>
    subst hq
    obtain ⟨state', hp', hmem⟩ := hc'.initial
    refine ⟨0, state', .refl 0, hp', fun i => ?_⟩
    rw [hmem, hc.mem_initial hp, ← same.initialItem_eq hs, same.inClosure_iff]
  | tail h hr ht ih =>
    subst hq
    obtain ⟨r', before', hpath', hr', hitems⟩ := ih hr
    obtain ⟨t', next', ht', hn', hmem⟩ := hc.exists_same_target same hc' hr hr' hitems ht hp
    exact ⟨t', next', hpath'.tail hr' ht', hn', hmem⟩

theorem Canonical.exists_same_state (hp : a.states[p]? = some state) :
    ∃ (p' : Nat) (state' : State), a'.states[p']? = some state' ∧
      ∀ i, i ∈ state'.items ↔ i ∈ state.items := by
  obtain ⟨γ, hpath⟩ := hc.exists_path hp
  obtain ⟨p', state', -, hp', hitems⟩ := hpath.exists_same_items same hs hc hc' hp
  exact ⟨p', state', hp', hitems⟩

end States

end Automaton

/-! ## The isomorphism -/

section Isomorphism

variable {g g' : Grammar}

open Automaton in
/-- **The automata of grammars with the same rules are isomorphic.** -/
theorem Grammar.SameRules.corresponds (same : g.SameRules g') (hs : g.start = g'.start) :
    ∃ σ, (g.automaton .fixedPoint).Corresponds σ (Equiv.refl Symbol)
      (g'.automaton .fixedPoint) := by
  have hc : (g.automaton .fixedPoint).Canonical g g.firstOf := canonical_fixedPoint
  have hc' : (g'.automaton .fixedPoint).Canonical g' g.firstOf := by
    rw [funext same.firstOf_eq]
    exact canonical_fixedPoint
  have apart : ∀ (g : Grammar) {p q : Nat} {state other : State},
      (g.automaton .fixedPoint).states[p]? = some state →
      (g.automaton .fixedPoint).states[q]? = some other →
      (∀ i, i ∈ state.items ↔ i ∈ other.items) → p = q := fun g _ _ _ _ hp hq h =>
    g.eq_of_same_items (credible_openMemo .fixedPoint) hp hq h
  -- the number of the state with the same items; beyond the states it does not matter
  have number : ∀ p : Nat, ∃ p' : Nat, ∀ state, (g.automaton .fixedPoint).states[p]? = some state →
      ∃ state' : State, (g'.automaton .fixedPoint).states[p']? = some state' ∧
        ∀ i, i ∈ state'.items ↔ i ∈ state.items := by
    intro p
    cases hp : (g.automaton .fixedPoint).states[p]? with
    | none => exact ⟨0, fun _ h => nomatch h⟩
    | some state =>
      obtain ⟨p', state', hp', hitems⟩ := hc.exists_same_state same hs hc' hp
      refine ⟨p', fun _ h => ?_⟩
      cases h
      exact ⟨state', hp', hitems⟩
  choose σ hσ using number
  refine ⟨σ, ?zero, ⟨?maps, ?injective, ?surjective⟩, ?state⟩
  case zero =>
    obtain ⟨state, h0, -⟩ := hc.initial
    obtain ⟨first', h0', hfirst'⟩ := hc'.initial
    obtain ⟨state', hp', hitems⟩ := hσ 0 state h0
    refine apart g' hp' h0' fun i => ?_
    rw [hitems, hc.mem_initial h0, hfirst', same.initialItem_eq hs, same.inClosure_iff]
  case maps =>
    intro p hp
    obtain ⟨state', hp', -⟩ := hσ p _ (List.getElem?_eq_getElem hp)
    exact (List.getElem?_eq_some_iff.1 hp').1
  case injective =>
    intro p hp q hq he
    obtain ⟨state', hp', hitems⟩ := hσ p _ (List.getElem?_eq_getElem hp)
    obtain ⟨other', hq', hitems'⟩ := hσ q _ (List.getElem?_eq_getElem hq)
    obtain rfl := Option.some.inj (hp'.symm.trans (he ▸ hq'))
    refine apart g (List.getElem?_eq_getElem hp) (List.getElem?_eq_getElem hq) fun i => ?_
    rw [← hitems, hitems']
  case surjective =>
    intro p' hp'
    obtain ⟨p, state, hp, hitems⟩ := hc'.exists_same_state same.symm hs.symm hc
      (List.getElem?_eq_getElem hp')
    obtain ⟨state', hp'', hitems'⟩ := hσ p state hp
    refine ⟨p, (List.getElem?_eq_some_iff.1 hp).1, apart g' hp'' (List.getElem?_eq_getElem hp') ?_⟩
    intro i
    rw [hitems', hitems]
  case state =>
    intro p state hp
    obtain ⟨state', hp', hitems⟩ := hσ p state hp
    refine ⟨state', hp', fun i => ?_, fun x => ?_⟩
    · rw [Item.rename_refl, hitems]
    · show state'.target? x = _
      cases hx : state.target? x with
      | none =>
        rw [Option.map_none, Option.eq_none_iff_forall_ne_some]
        intro t' ht'
        obtain ⟨i, hi, hx'⟩ := (hc'.moves hp' x).1 ⟨t', ht'⟩
        obtain ⟨t, ht⟩ := (hc.moves hp x).2 ⟨i, (hitems i).1 hi, hx'⟩
        rw [hx] at ht
        cases ht
      | some t =>
        obtain ⟨r, next, rfl, hr, -⟩ := hc.target hp hx
        obtain ⟨t', next', ht', hn', hsame⟩ :=
          hc.exists_same_target same hc' hp hp' hitems hx hr
        obtain ⟨other', hr', hother⟩ := hσ r next hr
        obtain rfl : t' = σ r := apart g' hn' hr' fun i => by rw [hsame, hother]
        rw [ht', Option.map_some, renumber_natCast]

end Isomorphism

/-- **The order of the rules does not matter.**  Take two texts with the same start symbol and the
same productions, whatever the order of the lines and alternatives and however often one is
repeated.  Under the fixed point strategy the states of the one automaton are those of the other
under other numbers: state 0 is state 0, the item sets are equal, and transitions lead to the
corresponding states.  Where clashes are errors, both tables are refused for a clash, or both are
filled and have the same actions and gotos in all cells, when the number of a production is read as
the production. -/
theorem tables_of_same_rules {text text' : String} {listing listing' : Listing}
    (h : Listing.read text = .ok listing) (h' : Listing.read text' = .ok listing')
    (hs : listing.start = listing'.start)
    (hr : ∀ pair, pair ∈ listing.productions.pairs ↔ pair ∈ listing'.productions.pairs) :
    let a := listing.automaton .fixedPoint
    let a' := listing'.automaton .fixedPoint
    ∃ σ : Nat → Nat, σ 0 = 0 ∧ Set.BijOn σ {p | p < a.states.length} {p | p < a'.states.length} ∧
      (∀ {p state}, a.states[p]? = some state → ∃ state', a'.states[σ p]? = some state' ∧
        (∀ i, i ∈ state'.items ↔ i ∈ state.items) ∧
        ∀ x, state'.target? x = (state.target? x).map (renumber σ)) ∧
      Table.SameOutcome (fun table table' => table.Same σ (Equiv.refl Symbol) listing.toGrammar
          listing'.toGrammar a.states.length table')
        ((listing.analyse .fixedPoint).table .error)
        ((listing'.analyse .fixedPoint).table .error) := by
  intro a a'
  have same := sameRules_of_read h h' hr
  obtain ⟨σ, hσ⟩ := same.corresponds hs
  have htables := hσ.tables (same.renamed hs) (wellFormed_of_read h)
    (wellFormed_of_read h') (classes_of_read h) (classes_of_read h') Grammar.canonical_fixedPoint
    Grammar.canonical_fixedPoint
  refine ⟨σ, hσ.zero, hσ.states, fun {p state} hp => ?_, htables⟩
  obtain ⟨state', hp', hitems, ht⟩ := hσ.state hp
  refine ⟨state', hp', fun i => ?_, ht⟩
  rw [← hitems i, Item.rename_refl]

/-- A text and another one with its lines and alternatives in another order, one of them twice.
Both give a table, and the reduction of the empty alternative has another number in each. -/
theorem tables_of_same_rules_repeated : ∃ listing listing' table table' σ,
    Listing.read "S -> A b | c\nA -> a A |" = .ok listing ∧
    Listing.read "S -> c | A b\nA ->\nA -> a A | a A" = .ok listing' ∧
    (listing.analyse .fixedPoint).table .error = .ok table ∧
    (listing'.analyse .fixedPoint).table .error = .ok table' ∧
    table.Same σ (Equiv.refl Symbol) listing.toGrammar listing'.toGrammar
      (listing.automaton .fixedPoint).states.length table' ∧
    table.action.get? 0 "b" = some (.reduce 3) ∧ table'.action.get? 0 "b" = some (.reduce 2) := by
  have hread : (Listing.read "S -> A b | c\nA -> a A |").toOption.map
      (fun l => (l.productions, l.start, ((l.analyse .fixedPoint).table .error).toOption.map
        (·.action.get? 0 "b"))) =
      some ([("S", [["A", "b"], ["c"]]), ("A", [["a", "A"], []])], "S",
        some (some (.reduce 3))) := by decide +kernel
  have hread' : (Listing.read "S -> c | A b\nA ->\nA -> a A | a A").toOption.map
      (fun l => (l.productions, l.start, ((l.analyse .fixedPoint).table .error).toOption.map
        (·.action.get? 0 "b"))) =
      some ([("S", [["c"], ["A", "b"]]), ("A", [[], ["a", "A"], ["a", "A"]])], "S",
        some (some (.reduce 2))) := by decide +kernel
  obtain ⟨listing, h, hl⟩ := exists_ok_of_toOption hread
  obtain ⟨listing', h', hl'⟩ := exists_ok_of_toOption hread'
  simp only [Prod.mk.injEq] at hl hl'
  obtain ⟨hp, hs, ht⟩ := hl
  obtain ⟨hp', hs', ht'⟩ := hl'
  obtain ⟨table, hb, hcell⟩ := exists_ok_of_toOption ht
  obtain ⟨table', hb', hcell'⟩ := exists_ok_of_toOption ht'
  have hr : ∀ pair, pair ∈ listing.productions.pairs ↔ pair ∈ listing'.productions.pairs := by
    have hsub : listing.productions.pairs ⊆ listing'.productions.pairs := by
      rw [hp, hp']
      decide
    have hsub' : listing'.productions.pairs ⊆ listing.productions.pairs := by
      rw [hp, hp']
      decide
    exact fun pair => ⟨@hsub pair, @hsub' pair⟩
  obtain ⟨σ, -, -, -, hsame⟩ := tables_of_same_rules h h' (hs.trans hs'.symm) hr
  rw [hb, hb'] at hsame
  cases hsame with
  | filled hentries =>
    exact ⟨listing, listing', table, table', σ, h, h', hb, hb', hentries, hcell, hcell'⟩

end CanonicalLR
