import CanonicalLR.Proofs.Path
import CanonicalLR.Proofs.Session

/-!
# Numbers of states

`isCollection_canonical` says in full what a canonical collection is: the lists and the numbers, and
not only the sets.  A state has the number of its place, its transitions are recorded in the order
in which its items ask for them, and states are numbered in the order in which the transitions,
read state by state, lead to them for the first time.

The numbers are an invariant of the exploration (`Numbered`): whenever a set is registered, the
targets so far are the numbers of all sets but the first.  The first set is no target, since all its
dots stand at the beginning, and a goto set holds an item whose dot has moved.
-/

namespace CanonicalLR

/-- The targets of all transitions, state by state, each state's in the order of its transitions. -/
def Automaton.targets (a : Automaton) : List Int :=
  a.states.flatMap fun state => state.transitions.map (·.2)

/-- What a canonical collection is, when closures and goto sets are asked with the given memo. -/
structure Automaton.IsCollection (g : Grammar) (memo : Memo) (a : Automaton) : Prop where
  index : ∀ {p : Nat} {state : State}, a.states[p]? = some state → state.index = p
  initial : ∃ state, a.states[0]? = some state ∧ state.items = (g.closure [g.initialItem] memo).1
  apart : ∀ {p q : Nat} {state other : State}, a.states[p]? = some state →
    a.states[q]? = some other → (∀ j, j ∈ state.items ↔ j ∈ other.items) → p = q
  keys : ∀ state ∈ a.states, state.transitions.keys = Item.nextSymbols state.items
  target : ∀ state ∈ a.states, ∀ x t, (x, t) ∈ state.transitions →
    ∃ (p : Nat) (next : State), t = p ∧ a.states[p]? = some next ∧
      ∀ j, j ∈ (g.goto state.items x memo).1 ↔ j ∈ next.items
  reached : ∀ p < a.states.length, ∃ γ, a.Path 0 γ p
  source : (0 : Int) ∉ a.targets
  fresh : distinct a.targets = (List.range' 1 (a.states.length - 1)).map Nat.cast

namespace Grammar

variable {g : Grammar} {memo : Memo} {sets : List (List Item)} {seen : List Nat}
  {items : List Item} {budget : Nat} {c : Collection}

/-! ## Registered sets and targets -/

/-- What holds of the registered sets and of the targets seen so far. -/
structure Numbered (sets : List (List Item)) (seen : List Nat) : Prop where
  first : ∃ set, sets[0]? = some set ∧ ∀ j ∈ set, j.dot = 0
  fresh : distinct seen = List.range' 1 (sets.length - 1)

/-- A set with a moved dot is found under a target seen before, or has the next number. -/
theorem Numbered.register (h : Numbered sets seen) (hmoved : ∃ j ∈ items, j.dot ≠ 0) :
    Numbered (register sets items).2 (seen ++ [(register sets items).1]) := by
  obtain ⟨set, hset, hdots⟩ := h.first
  have hpos : 0 < sets.length := (List.getElem?_eq_some_iff.1 hset).1
  unfold Grammar.register
  cases hf : sets.findIdx? (Item.sameSet items) with
  | some t =>
    obtain ⟨hlt, hsame, -⟩ := List.findIdx?_eq_some_iff_getElem.1 hf
    have hne : t ≠ 0 := by
      rintro rfl
      obtain ⟨j, hj, hdot⟩ := hmoved
      have hzero : sets[0] = set :=
        Option.some.inj ((List.getElem?_eq_getElem hpos).symm.trans hset)
      exact hdot (hdots j (hzero ▸ (Item.sameSet_iff.1 hsame j).1 hj))
    have hseen : t ∈ seen := by
      rw [← mem_distinct, h.fresh, List.mem_range'_1]
      omega
    refine ⟨⟨set, hset, hdots⟩, ?_⟩
    rw [distinct_concat, if_pos hseen, h.fresh]
  | none =>
    have hnew : sets.length ∉ seen := by
      rw [← mem_distinct, h.fresh, List.mem_range'_1]
      omega
    refine ⟨⟨set, ?_, hdots⟩, ?_⟩
    · rw [List.getElem?_append_left hpos, hset]
    · rw [distinct_concat, if_neg hnew, h.fresh, List.length_append, List.length_singleton,
        Nat.add_sub_cancel]
      obtain ⟨n, hn⟩ := Nat.exists_eq_add_of_lt hpos
      rw [Nat.zero_add] at hn
      rw [hn, Nat.add_sub_cancel, List.range'_1_concat, Nat.add_comm 1 n]

theorem exists_moved (hm : memo.Credible g) {x : Symbol} (hx : ∃ i ∈ items, i.next? = some x) :
    ∃ j ∈ (g.goto items x memo).1, j.dot ≠ 0 := by
  obtain ⟨i, hi, hn⟩ := hx
  refine ⟨i.advance, ?_, Nat.succ_ne_zero i.dot⟩
  rw [mem_goto hm (Memo.agrees_answers _)]
  exact .of_mem (mem_movedOver.2 ⟨i, hi, hn, rfl⟩)

theorem numbered_successors (xs : List Symbol) (hm : memo.Credible g)
    (hx : ∀ x ∈ xs, ∃ i ∈ items, i.next? = some x) (h : Numbered sets seen) :
    Numbered (g.successors items xs sets memo).2.1
      (seen ++ (g.successors items xs sets memo).1.map (·.2)) := by
  induction xs generalizing sets seen memo with
  | nil => simpa [successors] using h
  | cons x xs ih =>
    have hreg := h.register (exists_moved hm (hx x List.mem_cons_self))
    have hrest := ih (kept_credible.goto items x hm)
      (fun y hy => hx y (List.mem_cons_of_mem _ hy)) hreg
    simpa [successors, List.append_assoc] using hrest

/-! ## The exploration -/

/-- The targets of the sets expanded so far. -/
def Collection.targets (c : Collection) : List Nat := c.rows.flatMap fun row => row.map (·.2)

theorem Exploring.grown (h : g.Exploring c) : c.sets <+: (g.explore budget c).sets := by
  induction budget generalizing c with
  | zero => exact List.prefix_refl _
  | succ budget ih =>
    cases hq : c.sets[c.rows.length]? with
    | none => rw [explore_of_none hq]
    | some items =>
      rw [explore_of_some hq]
      exact (h.expanded hq (Memo.agrees_answers _)).grown.trans (ih (h.next hq))

theorem Exploring.numbered (h : g.Exploring c) (hn : Numbered c.sets c.targets) :
    Numbered (g.explore budget c).sets (g.explore budget c).targets := by
  induction budget generalizing c with
  | zero => exact hn
  | succ budget ih =>
    cases hq : c.sets[c.rows.length]? with
    | none => rwa [explore_of_none hq]
    | some items =>
      rw [explore_of_some hq]
      refine ih (h.next hq) ?_
      have hnext := numbered_successors (Item.nextSymbols items) h.credible
        (fun x hx => Item.mem_nextSymbols.1 hx) hn
      simpa [Collection.expand, Collection.targets] using hnext

theorem numbered_initial (hm : memo.Credible g) :
    Numbered [(g.closure [g.initialItem] memo).1] [] := by
  refine ⟨⟨_, rfl, fun j hj => ?_⟩, rfl⟩
  rcases ((mem_closure hm (Memo.agrees_answers _)).1 hj).seed_or_predicted with hs | hp
  · exact List.mem_singleton.1 hs ▸ rfl
  · exact hp.1

/-! ## The automaton -/

theorem targets_toAutomaton {s : Symbol} (hdone : c.rows.length = c.sets.length) :
    (c.toAutomaton s).targets = c.targets.map Nat.cast := by
  have hrows : (c.sets.zip c.rows).map (·.2) = c.rows := List.map_snd_zip hdone.le
  have hstates : (c.toAutomaton s).states.map (·.transitions) =
      c.rows.map fun row => row.map fun move => (move.1, (move.2 : Int)) := by
    conv_rhs => rw [← hrows, ← List.zipIdx_map_fst 0 (c.sets.zip c.rows)]
    simp only [Collection.toAutomaton, List.map_map]
    rfl
  have hflat : (c.toAutomaton s).targets =
      ((c.toAutomaton s).states.map (·.transitions)).flatMap (List.map (·.2)) := by
    rw [Automaton.targets, List.flatMap_map]
  rw [hflat, hstates, Collection.targets, List.flatMap_map, List.map_flatMap]
  simp [Function.comp_def]

theorem length_toAutomaton {s : Symbol} (hdone : c.rows.length = c.sets.length) :
    (c.toAutomaton s).states.length = c.sets.length := by
  simp [Collection.toAutomaton, hdone]

theorem Sets.number_eq (h : g.Sets sets) {p q : Nat} {a b : List Item} (hp : sets[p]? = some a)
    (hq : sets[q]? = some b) (hab : ∀ j, j ∈ a ↔ j ∈ b) : p = q := by
  obtain ⟨hlt, rfl⟩ := List.getElem?_eq_some_iff.1 hp
  obtain ⟨hlt', rfl⟩ := List.getElem?_eq_some_iff.1 hq
  have hpair := List.pairwise_iff_getElem.1 h.apart
  rcases Nat.lt_trichotomy p q with hpq | hpq | hqp
  · exact absurd (Item.sameSet_iff.2 hab) (hpair p q hlt hlt' hpq)
  · exact hpq
  · exact absurd (Item.sameSet_iff.2 fun j => (hab j).symm) (hpair q p hlt' hlt hqp)

theorem Exploring.keys_transitions (h : g.Exploring c) {s : Symbol} {state : State}
    (hs : state ∈ (c.toAutomaton s).states) :
    state.transitions.keys = Item.nextSymbols state.items := by
  obtain ⟨q, hq⟩ := List.mem_iff_getElem?.1 hs
  obtain ⟨items, row, hset, hrow, rfl⟩ := Automaton.getElem?_toAutomaton.1 hq
  obtain ⟨items', hset', hkeys, -⟩ := h.rows _ (Memo.agrees_answers c.memo) q row hrow
  obtain rfl : items' = items := Option.some.inj (hset'.symm.trans hset)
  rw [← hkeys]
  simp [Entries.keys]

theorem exploring_full (hm : memo.Credible g) : g.Exploring (g.fullCollection memo) :=
  exploring_explore _ (exploring_initial hm)

theorem full_done (hm : memo.Credible g) :
    (g.fullCollection memo).rows.length = (g.fullCollection memo).sets.length :=
  (exploring_initial hm).finished (Nat.le_add_right (2 ^ g.itemCount) 0)

theorem numbered_full (hm : memo.Credible g) :
    Numbered (g.fullCollection memo).sets (g.fullCollection memo).targets :=
  (exploring_initial hm).numbered (numbered_initial hm)

theorem full_first (hm : memo.Credible g) :
    (g.fullCollection memo).sets[0]? = some (g.closure [g.initialItem] memo).1 := by
  have hgrown : (g.initialCollection memo).sets <+: (g.fullCollection memo).sets :=
    (exploring_initial hm).grown
  obtain ⟨rest, hrest⟩ := hgrown
  rw [← hrest]
  rfl

/-- No two states have equal item sets. -/
theorem eq_of_same_items (hm : memo.Credible g) {p q : Nat} {state other : State}
    (hp : (g.canonical memo).1.states[p]? = some state)
    (hq : (g.canonical memo).1.states[q]? = some other)
    (hsame : ∀ j, j ∈ state.items ↔ j ∈ other.items) : p = q := by
  obtain ⟨items, row, hset, -, rfl⟩ := Automaton.getElem?_toAutomaton.1 hp
  obtain ⟨items', row', hset', -, rfl⟩ := Automaton.getElem?_toAutomaton.1 hq
  exact (exploring_full hm).sets.number_eq hset hset' hsame

/-- A canonical collection stays what it is under every later memo. -/
theorem isCollection_of_retained {later : Memo} (hm : memo.Credible g) (hl : later.Credible g)
    (hr : (g.canonical memo).2.Retained later) : (g.canonical memo).1.IsCollection g later := by
  have hdone := full_done hm
  have htargets : (g.canonical memo).1.targets = (g.fullCollection memo).targets.map Nat.cast :=
    targets_toAutomaton hdone
  have hcanonical : ∀ {F}, (g.canonical memo).2.Agrees F → (g.canonical memo).1.Canonical g F :=
    canonical_automaton hm
  constructor
  case index => exact (hcanonical (Memo.agrees_answers _)).index
  case initial =>
    obtain ⟨state, hs, hitems⟩ := exists_state_of_set (g := g) hdone (full_first hm)
    have hknown : (g.closure [g.initialItem] memo).2.Extends later := fun xs set h =>
      hr.strings xs set ((kept_extends _).explore _ (.refl _) xs set h)
    exact ⟨state, hs, hitems.trans (closure_again hknown).symm⟩
  case apart => exact fun hp hq hsame => eq_of_same_items hm hp hq hsame
  case keys => exact fun state hs => (exploring_full hm).keys_transitions hs
  case target =>
    intro state hs x t hx
    have hkeys : state.transitions.keys = Item.nextSymbols state.items :=
      (exploring_full hm).keys_transitions hs
    have hnodup : state.transitions.keys.Nodup := hkeys ▸ nodup_distinct _
    obtain ⟨q, hq⟩ := List.mem_iff_getElem?.1 hs
    have hF : (g.canonical memo).2.Agrees (g.goto state.items x later).2.answers :=
      (Memo.agrees_answers _).of_extends ((kept_extends _).goto state.items x hr.strings)
    obtain ⟨p, next, rfl, hp, hnext⟩ :=
      (hcanonical hF).target hq (Entries.lookup_of_mem hnodup hx)
    refine ⟨p, next, rfl, hp, fun j => ?_⟩
    rw [hnext, mem_goto hl (Memo.agrees_answers _)]
  case reached =>
    intro p hp
    exact (hcanonical (Memo.agrees_answers _)).exists_path (List.getElem?_eq_getElem hp)
  case source =>
    rw [htargets, List.mem_map]
    rintro ⟨t, ht, he⟩
    obtain rfl : t = 0 := Int.ofNat.inj he
    rw [← mem_distinct, (numbered_full hm).fresh, List.mem_range'_1] at ht
    omega
  case fresh =>
    have hlen : (g.canonical memo).1.states.length = (g.fullCollection memo).sets.length :=
      length_toAutomaton hdone
    rw [htargets, distinct_map (f := Nat.cast) fun a b h => Int.ofNat.inj h,
      (numbered_full hm).fresh, hlen]

/-- **Canonical collection.**  For every grammar, either strategy and any earlier use of the same
calculator, the states of the canonical collection are numbered by their places, state 0 holds the
closure of the initial item, and no two states have equal item sets.  The transitions of a state are
on the symbols after its dots in their order, and the target of each holds the goto set.  Every
state is reached from state 0, which is no target, and read state by state the targets seen for the
first time are 1, 2, 3, ...  Closures and goto sets may be asked after any further use. -/
theorem isCollection_canonical (g : Grammar) (strategy : FirstStrategy)
    (before after : List Query) :
    let found := g.canonical (g.session before (g.openMemo strategy)).2
    found.1.IsCollection g (g.session after found.2).2 := by
  intro found
  have hbefore : (g.session before (g.openMemo strategy)).2.Credible g :=
    stable_credible.session before (credible_openMemo strategy)
  have hfound : found.2.Credible g := kept_credible.canonical hbefore
  have hafter : (g.session after found.2).2.Credible g := stable_credible.session after hfound
  exact isCollection_of_retained hbefore hafter ((stable_retained _).session after (.refl _))

end Grammar

end CanonicalLR
