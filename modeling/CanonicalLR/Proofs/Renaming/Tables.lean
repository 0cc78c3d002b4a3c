import CanonicalLR.Proofs.Renaming.Automaton

/-!
# The spelling of symbols

Automata that differ in the spelling only have the same states under the same numbers, so they
correspond (`Automaton.Respelled.corresponds`) and their tables have the same entries.  Productions
keep their numbers too, so the entries are not only the same up to numbers: they are equal, cell by
cell (`Automaton.Respelled.tables`).

`tables_of_renamed` says it of a text that was read and of the rules of that text with other
symbols, in the same order.
-/

namespace CanonicalLR

/-- The table with other symbols: all entries are equal. -/
structure Table.Respelled (π : Equiv.Perm Symbol) (table table' : Table) : Prop where
  action : ∀ (q : Int) (x : Symbol), table'.action.get? q (π x) = table.action.get? q x
  goto : ∀ (q : Int) (x : Symbol), table'.goto.get? q (π x) = table.goto.get? q x

variable {π : Equiv.Perm Symbol} {g : Grammar} {a a' : Automaton} {F F' : List Symbol → SymbolSet}
  {table table' : Table} {act act' : Action} {x : Symbol} {p : Nat} {t q : Int}
  {classes classes' : SymbolClasses}

/-! ## Entries under the same numbers -/

theorem Automaton.Canonical.renumber_id (hc : a.Canonical g F) {state : State}
    (hp : a.states[p]? = some state) (ht : state.target? x = some t) : renumber id t = t := by
  obtain ⟨r, next, rfl, -⟩ := hc.target hp ht
  rfl

/-- Where states and productions keep their numbers, the same action is an equal one. -/
theorem Action.Same.eq (hc : a.Canonical g F) (hd : a.Demands g p (.action x act))
    (h : act.Same id π g (g.rename π) act') : act' = act := by
  cases h with
  | shift t =>
    obtain ⟨state, hp⟩ := hd.exists_state
    rw [hc.renumber_id hp (hd.target_of_shift hp)]
  | reduce hk hk' =>
    rw [Grammar.ruleId?_rename, hk] at hk'
    rw [Option.some.inj hk']
  | accept => rfl

/-- Rows beyond the states are empty. -/
theorem Table.Serves.get?_eq_none {policy : ConflictPolicy} (hs : table.Serves policy g a)
    (hq : ∀ p : Nat, q = p → ¬ p < a.states.length) :
    table.action.get? q x = none ∧ table.goto.get? q x = none := by
  have hnone : ∀ d, ¬ table.Has q d := by
    intro d h
    obtain ⟨p, e, hd⟩ := hs.sound q d h
    obtain ⟨state, hp⟩ := hd.exists_state
    exact hq p e (List.getElem?_eq_some_iff.1 hp).1
  refine ⟨?_, ?_⟩
  · exact Option.eq_none_iff_forall_ne_some.2 fun act h => hnone (.action x act) h
  · exact Option.eq_none_iff_forall_ne_some.2 fun t h => hnone (.goto x t) h

namespace Table.Same

variable (h : table.Same id π g (g.rename π) a.states.length table') (hc : a.Canonical g F)
  (hs : table.Serves .error g a) (hp : p < a.states.length)

include h hc hs hp

theorem action_eq (x : Symbol) : table'.action.get? p (π x) = table.action.get? p x := by
  have hsame := (h p hp x).1
  simp only [id_eq] at hsame
  generalize table'.action.get? p (π x) = cell' at hsame ⊢
  cases hcell : table.action.get? p x with
  | none =>
    rw [hcell] at hsame
    cases hsame
    rfl
  | some act =>
    rw [hcell] at hsame
    cases hsame with
    | some hact => rw [hact.eq hc (hs.action_iff.1 hcell)]

theorem goto_eq (x : Symbol) : table'.goto.get? p (π x) = table.goto.get? p x := by
  refine (h p hp x).2.trans ?_
  cases hcell : table.goto.get? p x with
  | none => rfl
  | some t =>
    have hd := hs.goto_iff.1 hcell
    obtain ⟨state, hstate⟩ := hd.exists_state
    rw [Option.map_some, hc.renumber_id hstate (hd.target_of_goto hstate)]

end Table.Same

namespace Automaton.Respelled

theorem corresponds (h : a.Respelled π a') (hc : a.Canonical g F) : a.Corresponds id π a' := by
  refine ⟨rfl, ?_, ?_⟩
  · rw [h.length]
    exact Set.bijOn_id _
  · intro p state hp
    obtain ⟨state', hp', -, hmoves, hitems⟩ := h.state hp
    refine ⟨state', hp', hitems, fun x => ?_⟩
    have htarget : state'.target? (π x) = (state.target? x).map id := by
      rw [State.target?, hmoves]
      exact Entries.lookup_map_keys id state.transitions x
    rw [htarget]
    refine Option.map_congr fun t ht => ?_
    exact (hc.renumber_id hp ht).symm

/-- **The tables of automata that differ in the spelling only** are refused together, or are
equal up to the spelling. -/
theorem tables (h : a.Respelled π a') (hπ : g.Respects π) (wf : g.WellFormed)
    (hcl : classes.Of g) (hcl' : classes'.Of (g.rename π)) (hc : a.Canonical g F)
    (hc' : a'.Canonical (g.rename π) F') :
    Table.SameOutcome (Table.Respelled π) (Table.build .error g classes g.start a)
      (Table.build .error (g.rename π) classes' (g.rename π).start a') := by
  have wf' := wf.rename hπ
  refine ((h.corresponds hc).tables hπ.renamed wf wf' hcl hcl' hc hc').imp ?_
  intro table table' hb hb' hsame
  have hs := hc.serves wf hcl hb
  have hs' := hc'.serves wf' hcl' hb'
  have hcells : ∀ (q : Int) (x : Symbol), table'.action.get? q (π x) = table.action.get? q x ∧
      table'.goto.get? q (π x) = table.goto.get? q x := by
    intro q x
    by_cases hq : ∃ p : Nat, q = p ∧ p < a.states.length
    · obtain ⟨p, rfl, hp⟩ := hq
      exact ⟨hsame.action_eq hc hs hp x, hsame.goto_eq hc hs hp x⟩
    · have hout : ∀ p : Nat, q = p → ¬ p < a.states.length := fun p e hp => hq ⟨p, e, hp⟩
      obtain ⟨haction, hgoto⟩ := hs.get?_eq_none (x := x) hout
      rw [← h.length] at hout
      obtain ⟨haction', hgoto'⟩ := hs'.get?_eq_none (x := π x) hout
      exact ⟨haction'.trans haction.symm, hgoto'.trans hgoto.symm⟩
  exact ⟨fun q x => (hcells q x).1, fun q x => (hcells q x).2⟩

end Automaton.Respelled

/-- **The spelling of symbols does not matter.**  Take the rules of a text with other symbols in the
same order, where different symbols become different ones and none becomes `$` or `ε`.  Under either
strategy the automata have the same states under the same numbers, with transitions in the same
order and with the same items up to the spelling.  Where clashes are errors, both tables are refused
for a clash, or both are filled and have equal actions and gotos.  The order of the items of a state
can differ. -/
theorem tables_of_renamed {text : String} {listing : Listing}
    (h : Listing.read text = .ok listing) (ρ : Symbol → Symbol)
    (hinj : ∀ x ∈ listing.symbols, ∀ y ∈ listing.symbols, ρ x = ρ y → x = y)
    (hres : ∀ x ∈ listing.symbols, Unreserved (ρ x)) (strategy : FirstStrategy) :
    ∃ π : Equiv.Perm Symbol, (∀ x ∈ listing.symbols, π x = ρ x) ∧ π epsilon = epsilon ∧
      π endMarker = endMarker ∧
      (listing.automaton strategy).Respelled π ((listing.rename ρ).automaton strategy) ∧
      Table.SameOutcome (Table.Respelled π) ((listing.analyse strategy).table .error)
        (((listing.rename ρ).analyse strategy).table .error) := by
  have wf := wellFormed_of_read h
  obtain ⟨π, hρ, hπ⟩ := Grammar.exists_renaming wf ρ hinj hres
  have hrename := Listing.toGrammar_rename h hρ
  have hautomaton := Grammar.respelled_automaton wf hπ strategy
  obtain ⟨F, hc⟩ := listing.exists_canonical strategy
  obtain ⟨F', hc'⟩ := (listing.toGrammar.rename π).exists_canonical strategy
  have hcl' : (listing.rename ρ).classes.Of (listing.toGrammar.rename π) := by
    rw [← hrename]
    exact classes_ofPairs _ _
  refine ⟨π, hρ, hπ.epsilon, hπ.endMarker, ?_, ?_⟩
  · rw [hrename]
    exact hautomaton
  · have htables := hautomaton.tables hπ wf (classes_of_read h) hcl' hc hc'
    rw [← hrename] at htables
    exact htables

/-- A text in which two lookaheads of a core exchange their names.  The lookaheads are still listed
in ascending order, so the items are not; the entries are the same. -/
theorem tables_of_renamed_exchanged : ∃ (listing : Listing) (π : Equiv.Perm Symbol)
    (table table' : Table),
    Listing.read "S -> A B\nB -> b | c\nA -> a |" = .ok listing ∧
    (listing.analyse .guarded).table .error = .ok table ∧
    ((listing.rename (Equiv.swap "b" "c")).analyse .guarded).table .error = .ok table' ∧
    (∀ x ∈ listing.symbols, π x = Equiv.swap "b" "c" x) ∧
    (listing.automaton .guarded).Respelled π
      ((listing.rename (Equiv.swap "b" "c")).automaton .guarded) ∧
    table.Respelled π table' ∧ table.action.get? 0 "b" = some (.reduce 4) ∧
    (listing.automaton .guarded).states.head?.map (·.items.map (·.lookahead)) =
      some ["$", "$", "b", "c", "b", "c"] ∧
    ((listing.rename (Equiv.swap "b" "c")).automaton .guarded).states.head?.map
      (·.items.map (·.lookahead)) = some ["$", "$", "b", "c", "b", "c"] := by
  have hread : (Listing.read "S -> A B\nB -> b | c\nA -> a |").toOption.map
      (fun l => (l.symbols.toList,
        ((l.analyse .guarded).table .error).toOption.map (·.action.get? 0 "b"),
        (l.automaton .guarded).states.head?.map (·.items.map (·.lookahead)),
        ((l.rename (Equiv.swap "b" "c")).automaton .guarded).states.head?.map
          (·.items.map (·.lookahead)))) =
      some (["A", "B", "S", "a", "b", "c"], some (some (.reduce 4)),
        some ["$", "$", "b", "c", "b", "c"], some ["$", "$", "b", "c", "b", "c"]) := by
    decide +kernel
  obtain ⟨listing, h, hl⟩ := exists_ok_of_toOption hread
  simp only [Prod.mk.injEq] at hl
  obtain ⟨hsymbols, ht, hitems, hitems'⟩ := hl
  obtain ⟨table, hb, hcell⟩ := exists_ok_of_toOption ht
  have hres : ∀ x ∈ listing.symbols, Unreserved (Equiv.swap "b" "c" x) := by
    intro x hx
    rw [SymbolSet.mem_def, hsymbols] at hx
    revert x
    decide
  obtain ⟨π, hρ, -, -, hautomaton, htables⟩ := tables_of_renamed h (Equiv.swap "b" "c")
    (fun x _ y _ e => (Equiv.swap "b" "c").injective e) hres .guarded
  generalize hb' : ((listing.rename (Equiv.swap "b" "c")).analyse .guarded).table .error = built'
    at htables
  rw [hb] at htables
  cases htables with
  | filled hentries =>
    exact ⟨listing, π, table, _, h, hb, hb', hρ, hautomaton, hentries, hcell, hitems, hitems'⟩

end CanonicalLR
