import CanonicalLR.Proofs.Driver

/-!
# The driver never gets stuck

A path that ends in an item with its dot behind `n` symbols and has `n` transitions spells these
symbols, and where it begins the item stands at the beginning of its right-hand side and its
left-hand side can be read (`Automaton.Path.begins`).  This holds for every path into the state,
also for one by which the state was not found first.

The configurations that the driver reaches keep more than the path of the stack: what the stack
spells derives the tokens read so far, and those are terminals (`Configuration.HasRead`).  So a
reduction always leaves a state below the right-hand side, and that state has the GOTO entry
(`reductions_find_goto`).  FIRST may be too small and actions may be overwritten.
-/

namespace CanonicalLR

/-! ## Paths that end in an item -/

namespace Automaton

variable {a : Automaton} {g : Grammar} {F : List Symbol → SymbolSet} {q p r : Nat}
  {γ δ : List Symbol} {i : Item} {state : State}

theorem Path.trans (h : a.Path q γ p) (h' : a.Path p δ r) : a.Path q (γ ++ δ) r := by
  induction h' with
  | refl => simpa using h
  | tail _ hs ht ih =>
    rw [← List.append_assoc]
    exact ih.tail hs ht

theorem Path.exists_start (h : a.Path q γ p) (hp : a.states[p]? = some state) :
    ∃ origin, a.states[q]? = some origin := by
  induction h generalizing state with
  | refl => exact ⟨state, hp⟩
  | tail _ hs _ ih => exact ih hs

/-- **Where a handle begins.**  A path with as many transitions as the dot has symbols before it
spells these symbols.  It begins where the item stands at the beginning of its right-hand side, and
there the left-hand side can be read, unless the item belongs to the augmented start. -/
theorem Path.begins (hc : a.Canonical g F) (h : a.Path q γ p) (hp : a.states[p]? = some state)
    (hi : i ∈ state.items) (hlen : γ.length = i.dot) :
    γ = i.rhs.take i.dot ∧ ∃ origin, a.states[q]? = some origin ∧
      { i with dot := 0 } ∈ origin.items ∧
      ((i.lhs = g.augmentedStart ∧ q = 0) ∨ ∃ t, origin.target? i.lhs = some t) := by
  obtain ⟨origin, hq⟩ := h.exists_start hp
  -- the path goes on from some path that leads from state 0 to its beginning
  obtain ⟨δ, hδ⟩ := hc.exists_path hq
  obtain ⟨δ', he, hbegin⟩ := (hδ.trans h).origin hc hp hi
  have hdot : i.dot ≤ i.rhs.length := (hc.isItem hp i hi).dot
  have hlen' : γ.length = (i.rhs.take i.dot).length := by
    rw [List.length_take]
    omega
  obtain ⟨rfl, rfl⟩ := List.append_inj' he hlen'
  refine ⟨rfl, origin, hq, (Holds.mem_of_path hδ hq).1 hbegin, ?_⟩
  rcases hbegin.head_after_dot hc rfl with ⟨rfl, hinitial⟩ | ⟨j, hj, hx⟩
  · left
    exact ⟨(Item.mk.inj hinitial).1, hδ.nil⟩
  · right
    exact (hc.moves hq i.lhs).2 ⟨j, (Holds.mem_of_path hδ hq).1 hj, hx⟩

theorem Spells.exists_bottom {stack : List Int} (h : a.Spells stack γ) :
    ∃ above, stack = above ++ [0] := by
  induction h with
  | bottom => exact ⟨[], rfl⟩
  | @push stack p t γ x state _ _ _ ih =>
    obtain ⟨above, e⟩ := ih
    exact ⟨t :: above, by rw [e, List.cons_append]⟩

end Automaton

/-! ## Configurations that the driver reaches -/

/-- The configuration to which a move leads, if the driver goes on after it. -/
def Move.next? : Move → Option Configuration
  | .shift next => some next
  | .reduce _ next => some next
  | .accept | .reject | .stuck => none

/-- The configuration after a given number of steps, if the driver makes so many. -/
def Configuration.after (g : Grammar) (table : Table) (c : Configuration) :
    Nat → Option Configuration
  | 0 => some c
  | n + 1 => (c.step g table).next?.bind fun next => next.after g table n

/-- What the driver has done when it holds a configuration and has read the tokens `u` of `w`: the
stack lies on a path, what it spells derives `u`, and `u` is made of terminals. -/
structure Configuration.HasRead (g : Grammar) (a : Automaton) (w u γ : List Symbol)
    (c : Configuration) : Prop where
  spells : a.Spells c.stack γ
  derives : g.Derives γ u
  tokens : u ++ c.input = w ++ [endMarker]
  terminal : g.AllTerminal u
  unended : endMarker ∉ u

section Reached

variable {g : Grammar} {a : Automaton} {F : List Symbol → SymbolSet} {policy : ConflictPolicy}
  {table : Table} {w u γ : List Symbol} {c next : Configuration}

theorem Configuration.hasRead_start (w : List Symbol) :
    (Configuration.start w).HasRead g a w [] [] where
  spells := .bottom
  derives := .refl
  tokens := rfl
  terminal := by simp
  unended := List.not_mem_nil

namespace Configuration.HasRead

theorem exists_token (h : c.HasRead g a w u γ) : ∃ x rest, c.input = x :: rest := by
  apply List.exists_cons_of_ne_nil
  intro hnil
  -- with no token left the end marker has been read
  apply h.unended
  have e := h.tokens
  rw [hnil, List.append_nil] at e
  simp [e]

theorem exists_top (h : c.HasRead g a w u γ) : ∃ top below, c.stack = top :: below := by
  obtain ⟨p, below, e, -⟩ := h.spells.path
  exact ⟨p, below, e⟩

theorem shift (wf : g.WellFormed) (hc : a.Canonical g F) (hs : table.Serves policy g a)
    (h : c.HasRead g a w u γ) (hstep : c.step g table = .shift next) :
    ∃ x, next.HasRead g a w (u ++ [x]) (γ ++ [x]) := by
  obtain ⟨stack, input⟩ := c
  obtain ⟨q, below, rfl⟩ := h.exists_top
  obtain ⟨x, rest, rfl⟩ := h.exists_token
  obtain ⟨t, hact, rfl⟩ := eq_of_step_shift hstep
  obtain ⟨hne, hterm, hspells⟩ := Automaton.Spells.shift wf hc hs h.spells hact
  refine ⟨x, hspells, h.derives.append .refl, ?_, ?_, ?_⟩
  · have e := h.tokens
    simpa using e
  · exact Grammar.allTerminal_append.2 ⟨h.terminal, by simpa using hterm⟩
  · rw [List.mem_append, List.mem_singleton]
    rintro (hm | e)
    · exact h.unended hm
    · exact hne e.symm

theorem reduce (hc : a.Canonical g F) (hs : table.Serves policy g a)
    (h : c.HasRead g a w u γ) {k : Int} (hstep : c.step g table = .reduce k next) :
    ∃ γ', next.HasRead g a w u γ' := by
  obtain ⟨stack, input⟩ := c
  obtain ⟨q, below, rfl⟩ := h.exists_top
  obtain ⟨x, rest, rfl⟩ := h.exists_token
  obtain ⟨A, rhs, top, below', t, hact, hk, hpop, hgoto, rfl⟩ := eq_of_step_reduce hstep
  obtain ⟨A', rhs', δ, hk', rfl, -⟩ := Automaton.Spells.reduce hc hs h.spells hact
  cases hk.symm.trans hk'
  have hpopped := h.spells.drop
  rw [hpop] at hpopped
  -- the left-hand side derives what is popped, so the tokens read stay derived
  have hhandle : g.Derives (δ ++ [A]) (δ ++ rhs) :=
    Grammar.Derives.append .refl (.of_mem (Grammar.mem_pairs_of_rule? hk))
  exact ⟨δ ++ [A], hpopped.goto hc hs hgoto, hhandle.trans h.derives, h.tokens, h.terminal,
    h.unended⟩

theorem step (wf : g.WellFormed) (hc : a.Canonical g F) (hs : table.Serves policy g a)
    (h : c.HasRead g a w u γ) (hnext : (c.step g table).next? = some next) :
    ∃ u' γ', next.HasRead g a w u' γ' := by
  cases hstep : c.step g table with
  | shift next' =>
    rw [hstep] at hnext
    cases hnext
    obtain ⟨x, h'⟩ := h.shift wf hc hs hstep
    exact ⟨_, _, h'⟩
  | reduce k next' =>
    rw [hstep] at hnext
    cases hnext
    obtain ⟨γ', h'⟩ := h.reduce hc hs hstep
    exact ⟨_, _, h'⟩
  | accept | reject | stuck =>
    rw [hstep] at hnext
    cases hnext

theorem after (wf : g.WellFormed) (hc : a.Canonical g F) (hs : table.Serves policy g a)
    {n : Nat} (h : c.HasRead g a w u γ) (hn : c.after g table n = some next) :
    ∃ u' γ', next.HasRead g a w u' γ' := by
  induction n generalizing c u γ with
  | zero =>
    cases hn
    exact ⟨u, γ, h⟩
  | succ n ih =>
    unfold Configuration.after at hn
    obtain ⟨mid, hmid, hrest⟩ := Option.bind_eq_some_iff.1 hn
    obtain ⟨u', γ', h'⟩ := h.step wf hc hs hmid
    exact ih h' hrest

/-- A reduction that the row of the top asks for leaves a state of the stack uncovered, and this
state has a GOTO entry for the left-hand side. -/
theorem exists_goto (hc : a.Canonical g F) (hs : table.Serves policy g a)
    (h : c.HasRead g a w u γ) {top : Int} {x : Symbol} {below : List Int}
    (hstack : c.stack = top :: below) {k : Int}
    (hact : table.action.get? top x = some (.reduce k)) :
    ∃ A rhs uncovered rest t, g.rule? k = some (A, rhs) ∧ rhs.length < c.stack.length ∧
      c.stack.drop rhs.length = uncovered :: rest ∧ table.goto.get? uncovered A = some t := by
  have hspells := h.spells
  rw [hstack] at hspells
  obtain ⟨A, rhs, δ, hk, rfl, hbegin⟩ := Automaton.Spells.reduce hc hs hspells hact
  obtain ⟨uncovered, rest, t, hpop, hgoto, -⟩ :=
    hspells.drop.exists_goto hc hs (Grammar.mem_pairs_of_rule? hk) hbegin
  rw [← hstack] at hpop
  refine ⟨A, rhs, uncovered, rest, t, hk, ?_, hpop, hgoto⟩
  by_contra hle
  rw [List.drop_eq_nil_iff.2 (Nat.not_lt.1 hle)] at hpop
  cases hpop

theorem step_ne_stuck (hc : a.Canonical g F) (hs : table.Serves policy g a)
    (h : c.HasRead g a w u γ) : c.step g table ≠ .stuck := by
  obtain ⟨stack, input⟩ := c
  obtain ⟨q, below, rfl⟩ := h.exists_top
  obtain ⟨x, rest, rfl⟩ := h.exists_token
  intro hstuck
  cases hact : table.action.get? q x with
  | none => simp [Configuration.step, hact] at hstuck
  | some act =>
    cases act with
    | shift t =>
      rw [step_shift hact] at hstuck
      cases hstuck
    | accept =>
      rw [step_accept hact] at hstuck
      cases hstuck
    | reduce k =>
      obtain ⟨A, rhs, top, below', t, hk, -, hpop, hgoto⟩ := h.exists_goto hc hs rfl hact
      rw [step_reduce hact hk hpop hgoto] at hstuck
      cases hstuck

end Configuration.HasRead

end Reached

/-! ## The canonical automata and tables of a text -/

/-- **Reductions never get stuck.**  In the canonical automaton of a grammar, under either strategy,
every path of the length of what stands before a dot spells it and begins where the item stands at
the beginning, and there the left-hand side can be read, unless it is the augmented start in
state 0.  So in a table filled from it, under either policy, the driver finds below every
right-hand side that it pops a state with the GOTO entry, whatever tokens it reads. -/
theorem reductions_find_goto (strategy : FirstStrategy) :
    (∀ (g : Grammar) {q p : Nat} {γ : List Symbol} {state : State} {i : Item},
      (g.automaton strategy).Path q γ p → (g.automaton strategy).states[p]? = some state →
      i ∈ state.items → γ.length = i.dot →
      γ = i.rhs.take i.dot ∧ ∃ origin, (g.automaton strategy).states[q]? = some origin ∧
        { i with dot := 0 } ∈ origin.items ∧
        ((i.lhs = g.augmentedStart ∧ q = 0) ∨ ∃ t, origin.target? i.lhs = some t)) ∧
    ∀ {text : String} {policy : ConflictPolicy} {b : Build},
      build text ⟨policy, strategy⟩ = .ok b → ∀ {w : List Symbol} {n : Nat} {c : Configuration},
      (Configuration.start w).after b.listing.toGrammar b.table n = some c →
      c.step b.listing.toGrammar b.table ≠ .stuck ∧ (∃ above, c.stack = above ++ [0]) ∧
      ∀ {top : Int} {below : List Int} {x : Symbol} {k : Int}, c.stack = top :: below →
        b.table.action.get? top x = some (.reduce k) →
        ∃ A rhs uncovered rest t, b.listing.rule? k = some (A, rhs) ∧
          rhs.length < c.stack.length ∧ c.stack.drop rhs.length = uncovered :: rest ∧
          b.table.goto.get? uncovered A = some t := by
  constructor
  · intro g q p γ state i hpath hp hi hlen
    obtain ⟨F, hc⟩ := g.exists_canonical strategy
    exact hpath.begins hc hp hi hlen
  · intro text policy b hb w n c hreach
    obtain ⟨wf, ha, hs⟩ := serves_of_build hb
    obtain ⟨F, hc⟩ := b.listing.exists_canonical strategy
    rw [← ha] at hc
    obtain ⟨u, γ, hread⟩ := (Configuration.hasRead_start w).after wf hc hs hreach
    refine ⟨hread.step_ne_stuck hc hs, hread.spells.exists_bottom, ?_⟩
    intro top below x k hstack hact
    exact hread.exists_goto hc hs hstack hact

/-- In an ambiguous grammar a sum can end where a longer one began: the state behind `E + E` is
entered from state 3, too.  After `i` the driver reduces although the tokens are no sentence. -/
theorem reductions_find_goto_sum : ∃ b, build "E -> E + E | i" ⟨.overwrite, .guarded⟩ = .ok b ∧
    (∃ state origin, b.automaton.Path 3 ["E", "+", "E"] 4 ∧ b.automaton.states[4]? = some state ∧
      ⟨"E", ["E", "+", "E"], 3, "+"⟩ ∈ state.items ∧ b.automaton.states[3]? = some origin ∧
      ⟨"E", ["E", "+", "E"], 0, "+"⟩ ∈ origin.items ∧
      (("E" = b.listing.augmentedStart ∧ 3 = 0) ∨ ∃ t, origin.target? "E" = some t)) ∧
    ∃ c, (Configuration.start ["i", "+", "+"]).after b.listing.toGrammar b.table 1 = some c ∧
      c.stack = [2, 0] ∧ b.table.action.get? 2 "+" = some (.reduce 1) ∧
      c.step b.listing.toGrammar b.table ≠ .stuck ∧ (∃ above, c.stack = above ++ [0]) ∧
      ∃ A rhs uncovered rest t, b.listing.rule? 1 = some (A, rhs) ∧ rhs.length < c.stack.length ∧
        c.stack.drop rhs.length = uncovered :: rest ∧ b.table.goto.get? uncovered A = some t := by
  have hrun : (build "E -> E + E | i" ⟨.overwrite, .guarded⟩).toOption.map (fun b =>
      ((b.automaton.states[3]?.bind (·.target? "E"), b.automaton.states[4]?.bind (·.target? "+"),
        b.automaton.states[4]?.map (·.items.contains ⟨"E", ["E", "+", "E"], 3, "+"⟩)),
        (Configuration.start ["i", "+", "+"]).after b.listing.toGrammar b.table 1,
        b.table.action.get? 2 "+")) =
      some ((some 4, some 3, some true), some ⟨[2, 0], ["+", "+", "$"]⟩, some (.reduce 1)) := by
    decide +kernel
  obtain ⟨b, hb, hr⟩ := exists_ok_of_toOption hrun
  simp only [Prod.mk.injEq] at hr
  obtain ⟨⟨h3, h4, hitem⟩, hafter, hact⟩ := hr
  obtain ⟨s₃, hs₃, ht₃⟩ := Option.bind_eq_some_iff.1 h3
  obtain ⟨s₄, hs₄, ht₄⟩ := Option.bind_eq_some_iff.1 h4
  rw [hs₄, Option.map_some, Option.some.injEq, List.contains_iff_mem] at hitem
  have hpath : b.automaton.Path 3 ["E", "+", "E"] 4 :=
    (((Automaton.Path.refl 3).tail hs₃ ht₃).tail hs₄ ht₄).tail hs₃ ht₃
  obtain ⟨-, ha, -⟩ := serves_of_build hb
  obtain ⟨hpaths, hruns⟩ := reductions_find_goto .guarded
  rw [ha] at hpath hs₄ hs₃
  obtain ⟨-, origin, horigin, hbegin, hgoto⟩ := hpaths b.listing.toGrammar hpath hs₄ hitem rfl
  rw [← ha] at hpath hs₄ horigin
  obtain ⟨hstuck, hbottom, hreduce⟩ := hruns hb hafter
  exact ⟨b, hb, ⟨s₄, origin, hpath, hs₄, hitem, horigin, hbegin, hgoto⟩, _, hafter, rfl, hact,
    hstuck, hbottom, hreduce rfl hact⟩

end CanonicalLR
