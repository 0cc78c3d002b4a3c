import CanonicalLR.Proofs.Collection
import CanonicalLR.Proofs.Reading

/-!
# What a filled table holds

A table is filled by visiting every item of every state and meeting its demand.  A filled table
holds nothing but demanded entries, and no demanded cell is empty; where clashes are errors, every
demanded action stands (`Table.Filled`).  A failure has its reason among the visits, too
(`Table.Faulty`): a clash is between two different actions that both were demanded.

`Grammar.Asks` says what the items of a canonical automaton demand.  `Canonical.serves` and
`Canonical.clash` put the two together, and `build_of_read` says it of a build: nothing else is
needed of the way in which tables are filled.
-/

namespace CanonicalLR

/-- Whether a table holds the entry that is demanded in a row. -/
def Table.Has (table : Table) (q : Int) : Demand → Prop
  | .action x action => table.action.get? q x = some action
  | .goto x target => table.goto.get? q x = some target

/-- The cell of a row for which an entry is demanded, in the ACTION part or in the GOTO part. -/
def Demand.cell : Demand → Symbol ⊕ Symbol
  | .action x _ => .inl x
  | .goto x _ => .inr x

/-- Whether the cell for which an entry is demanded holds any entry. -/
def Table.Occupied (table : Table) (q : Int) (d : Demand) : Prop :=
  ∃ held : Demand, held.cell = d.cell ∧ table.Has q held

/-- Whether an entry is demanded in a row by one of the items visited. -/
def TableSource.Demanded (source : TableSource) (visits : List (State × Item)) (q : Int)
    (d : Demand) : Prop :=
  ∃ visit ∈ visits, visit.1.index = q ∧ source.demand? visit.1 visit.2 = .ok (some d)

/-- The items of all states, each with its state, in order. -/
def Automaton.visits (a : Automaton) : List (State × Item) :=
  a.states.flatMap fun state => state.items.map (state, ·)

namespace Table

variable {policy : ConflictPolicy} {source : TableSource} {visits more : List (State × Item)}
  {table first mid last : Table} {q : Int} {x : Symbol} {d : Demand} {act : Action}
  {state : State} {item : Item}

theorem Occupied.goto {t : Int} (h : table.Occupied q (.goto x t)) :
    ∃ t', table.goto.get? q x = some t' := by
  obtain ⟨held, hcell, hheld⟩ := h
  cases held with
  | action => cases hcell
  | goto y t' =>
    obtain rfl := Sum.inr.inj hcell
    exact ⟨t', hheld⟩

/-- What the visits make of a table when they end well. -/
structure Filled (policy : ConflictPolicy) (source : TableSource) (visits : List (State × Item))
    (first last : Table) : Prop where
  sound : ∀ q d, last.Has q d → first.Has q d ∨ source.Demanded visits q d
  occupied : ∀ q d, first.Occupied q d ∨ source.Demanded visits q d → last.Occupied q d
  stands : policy = .error → ∀ q x act, first.Has q (.action x act) ∨
    source.Demanded visits q (.action x act) → last.Has q (.action x act)

/-- Why the visits do not end well. -/
def Faulty (policy : ConflictPolicy) (source : TableSource) (visits : List (State × Item))
    (first : Table) : TableError → Prop
  | .unknownRule lhs rhs =>
    ∃ visit ∈ visits, source.demand? visit.1 visit.2 = .error (.unknownRule lhs rhs)
  | .conflict c => policy = .error ∧ c.existing ≠ c.incoming ∧
    (first.Has c.state (.action c.symbol c.existing) ∨
      source.Demanded visits c.state (.action c.symbol c.existing)) ∧
    source.Demanded visits c.state (.action c.symbol c.incoming)

/-- What the visits make of a table. -/
def Met (policy : ConflictPolicy) (source : TableSource) (visits : List (State × Item))
    (first : Table) : Except TableError Table → Prop
  | .ok last => Filled policy source visits first last
  | .error e => Faulty policy source visits first e

/-! ## One visit after the other -/

theorem demanded_append : source.Demanded (visits ++ more) q d ↔
    source.Demanded visits q d ∨ source.Demanded more q d := by
  simp only [TableSource.Demanded, List.mem_append, or_and_right, exists_or]

theorem demanded_singleton : source.Demanded [(state, item)] q d ↔
    state.index = q ∧ source.demand? state item = .ok (some d) := by
  simp [TableSource.Demanded]

theorem not_demanded_nil : ¬ source.Demanded [] q d := by
  simp [TableSource.Demanded]

/-- Without a visit nothing changes but that rows may be opened. -/
theorem filled_nil (h : ∀ q d, last.Has q d ↔ first.Has q d) :
    Filled policy source [] first last where
  sound q d hd := .inl ((h q d).1 hd)
  occupied q d hd := by
    obtain ⟨held, hcell, hheld⟩ := hd.resolve_right not_demanded_nil
    exact ⟨held, hcell, (h q held).2 hheld⟩
  stands _ q x act hd := (h q _).2 (hd.resolve_right not_demanded_nil)

theorem Filled.trans (h : Filled policy source visits first mid)
    (h' : Filled policy source more mid last) :
    Filled policy source (visits ++ more) first last where
  sound q d hd := by
    rw [demanded_append, ← or_assoc]
    exact (h'.sound q d hd).imp_left (h.sound q d)
  occupied q d hd := by
    rw [demanded_append, ← or_assoc] at hd
    exact h'.occupied q d (hd.imp_left (h.occupied q d))
  stands hp q x act hd := by
    rw [demanded_append, ← or_assoc] at hd
    exact h'.stands hp q x act (hd.imp_left (h.stands hp q x act))

theorem Filled.faulty {e : TableError} (h : Filled policy source visits first mid)
    (h' : Faulty policy source more mid e) : Faulty policy source (visits ++ more) first e := by
  cases e with
  | unknownRule lhs rhs =>
    obtain ⟨visit, hv, he⟩ := h'
    exact ⟨visit, List.mem_append_right _ hv, he⟩
  | conflict c =>
    obtain ⟨hp, hne, hold, hnew⟩ := h'
    refine ⟨hp, hne, ?_, demanded_append.2 (.inr hnew)⟩
    rw [demanded_append, ← or_assoc]
    exact hold.imp_left (h.sound _ _)

theorem Faulty.append {e : TableError} (h : Faulty policy source visits first e) :
    Faulty policy source (visits ++ more) first e := by
  cases e with
  | unknownRule lhs rhs =>
    obtain ⟨visit, hv, he⟩ := h
    exact ⟨visit, List.mem_append_left _ hv, he⟩
  | conflict c =>
    obtain ⟨hp, hne, hold, hnew⟩ := h
    exact ⟨hp, hne, hold.imp_right fun h => demanded_append.2 (.inl h),
      demanded_append.2 (.inl hnew)⟩

/-- If some visits are followed by others unless they fail, both have been made. -/
theorem Met.append {result : Except TableError Table} {next : Table → Except TableError Table}
    (h : Met policy source visits first result)
    (hnext : ∀ mid, Met policy source more mid (next mid)) :
    Met policy source (visits ++ more) first (result.bind next) := by
  cases result with
  | error e => exact Faulty.append h
  | ok mid =>
    show Met policy source _ first (next mid)
    have h' := hnext mid
    cases hr : next mid with
    | error e =>
      rw [hr] at h'
      exact Filled.faulty h h'
    | ok last =>
      rw [hr] at h'
      exact Filled.trans h h'

/-! ## One visit -/

theorem demanded_iff (hd : source.demand? state item = .ok (some d)) {d' : Demand} :
    source.Demanded [(state, item)] q d' ↔ state.index = q ∧ d = d' := by
  rw [demanded_singleton, hd]
  simp

/-- A table in which a cell was written. -/
def write (table : Table) (q : Int) : Demand → Table
  | .action x act => { table with action := table.action.put q x act }
  | .goto x target => { table with goto := table.goto.put q x target }

theorem get?_put_eq_some {α : Type} {grid : Grid α} {i j : Int} {x y : Symbol} {new held : α} :
    (grid.put i x new).get? j y = some held ↔
      (j = i ∧ y = x ∧ held = new) ∨ (¬ (j = i ∧ y = x) ∧ grid.get? j y = some held) := by
  rw [Grid.get?_put]
  by_cases hcell : j = i ∧ y = x
  · simp [hcell, eq_comm]
  · rw [if_neg hcell]
    constructor
    · exact fun h => .inr ⟨hcell, h⟩
    · rintro (⟨hj, hy, -⟩ | ⟨-, h⟩)
      · exact absurd ⟨hj, hy⟩ hcell
      · exact h

/-- The cell that was written holds the new entry, and every other cell what it held. -/
theorem has_write {r : Int} {held : Demand} : (table.write q d).Has r held ↔
    (r = q ∧ held = d) ∨ (¬ (r = q ∧ held.cell = d.cell) ∧ table.Has r held) := by
  cases d <;> cases held <;> simp [write, Has, get?_put_eq_some, Demand.cell]

theorem filled_write (hd : source.demand? state item = .ok (some d))
    (hc : policy = .error → ∀ x act, (Demand.action x act).cell = d.cell →
      table.Has state.index (.action x act) → .action x act = d) :
    Filled policy source [(state, item)] table (table.write state.index d) where
  sound q held h := by
    rw [demanded_iff hd]
    rcases has_write.1 h with ⟨rfl, rfl⟩ | ⟨-, h⟩
    · exact .inr ⟨rfl, rfl⟩
    · exact .inl h
  occupied q wanted h := by
    rw [demanded_iff hd] at h
    by_cases hcell : q = state.index ∧ d.cell = wanted.cell
    · exact ⟨d, hcell.2, has_write.2 (.inl ⟨hcell.1, rfl⟩)⟩
    · rcases h with ⟨held, hsame, hheld⟩ | ⟨rfl, rfl⟩
      · refine ⟨held, hsame, has_write.2 (.inr ⟨fun h => hcell ⟨h.1, ?_⟩, hheld⟩)⟩
        exact h.2.symm.trans hsame
      · exact absurd ⟨rfl, rfl⟩ hcell
  stands hp q x act h := by
    rw [demanded_iff hd] at h
    rw [has_write]
    by_cases hcell : q = state.index ∧ (Demand.action x act).cell = d.cell
    · obtain ⟨rfl, hsame⟩ := hcell
      rcases h with h | ⟨-, rfl⟩
      · exact .inl ⟨rfl, hc hp x act hsame h⟩
      · exact .inl ⟨rfl, rfl⟩
    · rcases h with h | ⟨rfl, rfl⟩
      · exact .inr ⟨hcell, h⟩
      · exact absurd ⟨rfl, rfl⟩ hcell

theorem not_demanded (hd : source.demand? state item = .ok none) :
    ¬ source.Demanded [(state, item)] q d := by
  rw [demanded_singleton, hd]
  simp

theorem filled_none (hd : source.demand? state item = .ok none) :
    Filled policy source [(state, item)] table table where
  sound _ _ h := .inl h
  occupied _ _ h := h.resolve_right (not_demanded hd)
  stands _ _ _ _ h := h.resolve_right (not_demanded hd)

theorem met_enter (hd : source.demand? state item = .ok (some (.action x act))) :
    Met policy source [(state, item)] table (table.enter policy state.index x act) := by
  have hdem : source.Demanded [(state, item)] state.index (.action x act) :=
    demanded_singleton.2 ⟨rfl, hd⟩
  -- whatever the cell held, it is the new action or the policy lets it go
  have entered : (policy = .error → ∀ old, table.action.get? state.index x = some old → old = act) →
      Filled policy source [(state, item)] table (table.write state.index (.action x act)) := by
    intro h
    refine filled_write hd fun hp y old hcell hold => ?_
    obtain rfl : y = x := Sum.inl.inj hcell
    rw [h hp old hold]
  unfold enter
  simp only
  split
  · next old hold =>
    split
    · next he => exact entered fun _ old' h => Option.some.inj (h.symm.trans hold) ▸ he
    · next hne => exact ⟨rfl, hne, .inl hold, hdem⟩
  · next hne => exact entered fun hp old hold => absurd hold (hne old hp)

/-- The error of an item is that its production is unknown. -/
theorem demand?_error {e : TableError} (h : source.demand? state item = .error e) :
    e = .unknownRule item.lhs item.rhs := by
  unfold TableSource.demand? at h
  split at h
  · split at h
    · cases h
    · split at h
      · cases h
      · cases h
        rfl
  · split at h
    · cases h
    · split at h
      · cases h
      · split at h <;> cases h

theorem met_meet :
    Met policy source [(state, item)] table (table.meet policy source state item) := by
  unfold meet
  cases hd : source.demand? state item with
  | error e =>
    obtain rfl := demand?_error hd
    exact ⟨_, List.mem_singleton_self _, hd⟩
  | ok demand =>
    rcases demand with _ | ⟨x, act⟩ | ⟨x, t⟩
    · exact filled_none hd
    · exact met_enter hd
    · exact filled_write hd fun _ _ _ hcell => nomatch hcell

/-! ## All visits -/

theorem meetAll_cons {rest : List Item} : table.meetAll policy source state (item :: rest) =
    (table.meet policy source state item).bind fun mid => mid.meetAll policy source state rest := by
  rw [meetAll]
  cases table.meet policy source state item <;> rfl

theorem fill_cons {rest : List State} : table.fill policy source (state :: rest) =
    ((table.openRows state).meetAll policy source state state.items).bind fun mid =>
      mid.fill policy source rest := by
  rw [fill]
  cases (table.openRows state).meetAll policy source state state.items <;> rfl

theorem met_meetAll (items : List Item) : Met policy source (items.map (state, ·)) table
    (table.meetAll policy source state items) := by
  induction items generalizing table with
  | nil => exact filled_nil fun _ _ => Iff.rfl
  | cons item rest ih =>
    rw [meetAll_cons]
    exact met_meet.append fun _ => ih

theorem has_openRows : (table.openRows state).Has q d ↔ table.Has q d := by
  cases d with
  | action => rw [Has, Has, openRows, Grid.get?_openRow]
  | goto => rw [Has, Has, openRows, Grid.get?_openRow]

theorem met_fill (states : List State) :
    Met policy source (states.flatMap fun state => state.items.map (state, ·)) table
      (table.fill policy source states) := by
  induction states generalizing table with
  | nil => exact filled_nil fun _ _ => Iff.rfl
  | cons state rest ih =>
    have opened : Met policy source [] table (.ok (table.openRows state)) :=
      filled_nil fun _ _ => has_openRows
    rw [fill_cons]
    exact (opened.append fun _ => met_meetAll state.items).append fun _ => ih

end Table

/-! ## Tables of canonical automata -/

/-- What tables of a grammar are filled from, beside the states. -/
def Grammar.tableSource (g : Grammar) (classes : SymbolClasses) : TableSource :=
  ⟨g, classes, g.start, g.augmentedStart⟩

/-- What an item demands in a state of a canonical automaton. -/
inductive Grammar.Asks (g : Grammar) (state : State) (i : Item) : Demand → Prop
  | accept (hn : i.next? = none) (hl : i.lhs = g.augmentedStart) :
      Asks g state i (.action endMarker .accept)
  | reduce {k : Nat} (hn : i.next? = none) (hk : g.ruleId? i.lhs i.rhs = some k) :
      Asks g state i (.action i.lookahead (.reduce k))
  | shift {x : Symbol} {t : Int} (hx : i.next? = some x) (hn : g.isNonterminal x = false)
      (ht : state.target? x = some t) : Asks g state i (.action x (.shift t))
  | goto {x : Symbol} {t : Int} (hx : i.next? = some x) (hn : g.isNonterminal x = true)
      (ht : state.target? x = some t) : Asks g state i (.goto x t)

/-- Whether an item of a state with the given number demands an entry. -/
def Automaton.Demands (g : Grammar) (a : Automaton) (p : Nat) (d : Demand) : Prop :=
  ∃ state i, a.states[p]? = some state ∧ i ∈ state.items ∧ g.Asks state i d

/-- Whether a conflict is one of the automaton: its state demands its two actions on its symbol, and
they differ. -/
def Automaton.ClashesAt (g : Grammar) (a : Automaton) (c : Conflict) : Prop :=
  c.existing ≠ c.incoming ∧ ∃ p : Nat, c.state = p ∧
    a.Demands g p (.action c.symbol c.existing) ∧ a.Demands g p (.action c.symbol c.incoming)

/-- What is known of a table that was filled from a canonical automaton. -/
structure Table.Serves (policy : ConflictPolicy) (g : Grammar) (a : Automaton) (table : Table) :
    Prop where
  sound : ∀ q d, table.Has q d → ∃ p : Nat, q = p ∧ a.Demands g p d
  occupied : ∀ (p : Nat) d, a.Demands g p d → table.Occupied p d
  stands : policy = .error → ∀ (p : Nat) x act, a.Demands g p (.action x act) →
    table.action.get? p x = some act

section Canonical

variable {g : Grammar} {a : Automaton} {F : List Symbol → SymbolSet} {classes : SymbolClasses}
  {policy : ConflictPolicy} {state : State} {i : Item} {d : Demand}

/-- The only completed item of the augmented start is the one that accepts. -/
theorem Grammar.IsItem.of_augmentedStart (h : g.IsItem i) (hl : i.lhs = g.augmentedStart) :
    i.rhs = [g.start] ∧ i.lookahead = endMarker := by
  refine ⟨?_, h.start hl⟩
  rcases mem_pairs_augment.1 h.rule with e | hr
  · exact congrArg Prod.snd e
  · exact absurd (hl ▸ List.mem_cons_self) (augmentedStart_not_mem_of_mem hr)

theorem Grammar.IsItem.mem_pairs (h : g.IsItem i) (hl : i.lhs ≠ g.augmentedStart) :
    (i.lhs, i.rhs) ∈ g.productions.pairs :=
  (mem_pairs_augment.1 h.rule).resolve_left fun e => hl (congrArg Prod.fst e)

/-- Behind a dot there is a symbol of the grammar. -/
theorem Grammar.IsItem.mem_symbols_of_next? (wf : g.WellFormed) (h : g.IsItem i) {x : Symbol}
    (hx : i.next? = some x) : x ∈ g.symbols := by
  have hmem : x ∈ i.rhs := List.mem_of_getElem? hx
  rcases mem_pairs_augment.1 h.rule with e | hr
  · have hrhs : i.rhs = [g.start] := congrArg Prod.snd e
    rw [hrhs, List.mem_singleton] at hmem
    exact mem_symbols.2 (.inl (hmem ▸ wf.start))
  · exact mem_symbols_of_mem hr hmem

theorem Grammar.IsItem.isToken (wf : g.WellFormed) (hcl : classes.Of g) (h : g.IsItem i)
    {x : Symbol} (hx : i.next? = some x) :
    (g.tableSource classes).isToken x = true ↔ g.isNonterminal x = false := by
  simp only [TableSource.isToken, tableSource, Bool.or_eq_true, List.contains_iff_mem,
    decide_eq_true_eq]
  constructor
  · rintro (hm | rfl)
    · exact ((hcl.terminals x).1 hm).2
    · exact Bool.eq_false_iff.2 fun hn => wf.endMarker (mem_symbols.2 (.inl hn))
  · intro hn
    have hbody := (mem_symbols.1 (h.mem_symbols_of_next? wf hx)).resolve_left (by simp [hn])
    exact .inl ((hcl.terminals x).2 ⟨hbody, hn⟩)

theorem Grammar.IsItem.accepts_iff (h : g.IsItem i) :
    (g.tableSource classes).accepts i = true ↔
      i.lhs = g.augmentedStart := by
  rw [TableSource.accepts, Bool.and_eq_true, Bool.and_eq_true, decide_eq_true_eq, decide_eq_true_eq,
    decide_eq_true_eq]
  constructor
  · exact fun h => h.1.1
  · intro hl
    exact ⟨⟨hl, (h.of_augmentedStart hl).1⟩, (h.of_augmentedStart hl).2⟩

theorem Grammar.IsItem.asks_of_demand? (wf : g.WellFormed) (hcl : classes.Of g) (h : g.IsItem i)
    (hd : (g.tableSource classes).demand? state i = .ok (some d)) : g.Asks state i d := by
  unfold TableSource.demand? at hd
  split at hd
  · next hn =>
    split at hd
    · next hacc =>
      cases hd
      exact .accept hn (h.accepts_iff.1 hacc)
    · split at hd
      · next hk =>
        cases hd
        exact .reduce hn hk
      · cases hd
  · next x hx =>
    split at hd
    · cases hd
    · next t ht =>
      split at hd
      · next htok =>
        cases hd
        exact .shift hx ((h.isToken wf hcl hx).1 htok) ht
      · split at hd
        · next hnt =>
          cases hd
          exact .goto hx ((hcl.nonterminals x).1 (List.contains_iff_mem.1 hnt)) ht
        · cases hd

theorem Grammar.IsItem.demand?_of_asks (wf : g.WellFormed) (hcl : classes.Of g) (h : g.IsItem i)
    (hd : g.Asks state i d) : (g.tableSource classes).demand? state i = .ok (some d) := by
  unfold TableSource.demand?
  cases hd with
  | accept hn hl => simp only [hn, if_pos (h.accepts_iff.2 hl)]
  | reduce hn hk =>
    have hr : (i.lhs, i.rhs) ∈ g.productions.pairs := mem_pairs_of_rule? (rule?_of_ruleId? hk)
    have hacc : ¬ (g.tableSource classes).accepts i = true := fun hacc =>
      augmentedStart_not_mem_of_mem hr (h.accepts_iff.1 hacc ▸ List.mem_cons_self)
    have hk : (g.tableSource classes).grammar.ruleId? i.lhs i.rhs = some _ := hk
    simp only [hn, if_neg hacc, hk]
  | shift hx hn ht => simp only [hx, ht, if_pos ((h.isToken wf hcl hx).2 hn)]
  | @goto x t hx hn ht =>
    have htok : ¬ (g.tableSource classes).isToken x = true := by
      rw [h.isToken wf hcl hx, hn]
      simp
    have hnt : (g.tableSource classes).classes.nonterminals.contains x = true :=
      List.contains_iff_mem.2 ((hcl.nonterminals x).2 hn)
    simp only [hx, ht, if_neg htok, if_pos hnt]

/-- No item of a canonical automaton is of an unknown production. -/
theorem Grammar.IsItem.demand?_ne_error (h : g.IsItem i) {e : TableError} :
    (g.tableSource classes).demand? state i ≠ .error e := by
  intro hd
  unfold TableSource.demand? at hd
  split at hd
  · split at hd
    · cases hd
    · next hacc =>
      obtain ⟨k, hk⟩ := exists_ruleId? (h.mem_pairs fun hl => hacc (h.accepts_iff.2 hl))
      simp only [tableSource, hk] at hd
      cases hd
  · split at hd
    · cases hd
    · split at hd
      · cases hd
      · split at hd <;> cases hd

namespace Automaton

theorem mem_visits {visit : State × Item} : visit ∈ a.visits ↔
    ∃ p : Nat, a.states[p]? = some visit.1 ∧ visit.2 ∈ visit.1.items := by
  simp only [visits, List.mem_flatMap, List.mem_map]
  constructor
  · rintro ⟨state, hs, i, hi, rfl⟩
    obtain ⟨p, hp⟩ := List.mem_iff_getElem?.1 hs
    exact ⟨p, hp, hi⟩
  · rintro ⟨p, hp, hi⟩
    exact ⟨visit.1, List.mem_of_getElem? hp, visit.2, hi, rfl⟩

namespace Canonical

theorem demanded_iff (wf : g.WellFormed) (hcl : classes.Of g) (hc : a.Canonical g F) {q : Int} :
    (g.tableSource classes).Demanded a.visits q d ↔ ∃ p : Nat, q = p ∧ a.Demands g p d := by
  constructor
  · rintro ⟨⟨state, i⟩, hv, rfl, hd⟩
    obtain ⟨p, hp, hi⟩ := mem_visits.1 hv
    exact ⟨p, hc.index hp, state, i, hp, hi, (hc.isItem hp i hi).asks_of_demand? wf hcl hd⟩
  · rintro ⟨p, rfl, state, i, hp, hi, hd⟩
    refine ⟨(state, i), mem_visits.2 ⟨p, hp, hi⟩, hc.index hp, ?_⟩
    exact (hc.isItem hp i hi).demand?_of_asks wf hcl hd

/-- The table from which a filling begins. -/
def emptyTable (classes : SymbolClasses) (a : Automaton) : Table :=
  ⟨.empty, .empty, classes.terminals, classes.nonterminals, a.states.length⟩

theorem not_has_emptyTable {q : Int} : ¬ (emptyTable classes a).Has q d := by
  intro h
  cases d <;> cases h

theorem met_build (policy : ConflictPolicy) (classes : SymbolClasses) (hc : a.Canonical g F) :
    Table.Met policy (g.tableSource classes) a.visits (emptyTable classes a)
      (Table.build policy g classes g.start a) := by
  rw [Grammar.tableSource, ← hc.start]
  exact Table.met_fill a.states

theorem serves (wf : g.WellFormed) (hcl : classes.Of g) (hc : a.Canonical g F) {table : Table}
    (hb : Table.build policy g classes g.start a = .ok table) : table.Serves policy g a := by
  have hmet := hc.met_build policy classes
  rw [hb] at hmet
  constructor
  case sound =>
    intro q d h
    exact (hc.demanded_iff wf hcl).1 ((hmet.sound q d h).resolve_left not_has_emptyTable)
  case occupied =>
    intro p d h
    exact hmet.occupied p d (.inr ((hc.demanded_iff wf hcl).2 ⟨p, rfl, h⟩))
  case stands =>
    intro hp p x act h
    exact hmet.stands hp p x act (.inr ((hc.demanded_iff wf hcl).2 ⟨p, rfl, h⟩))

/-- The only failure is a clash, and only where clashes are errors. -/
theorem clash (wf : g.WellFormed) (hcl : classes.Of g) (hc : a.Canonical g F) {e : TableError}
    (hb : Table.build policy g classes g.start a = .error e) :
    policy = .error ∧ ∃ c, e = .conflict c ∧ a.ClashesAt g c := by
  have hmet := hc.met_build policy classes
  rw [hb] at hmet
  cases e with
  | unknownRule lhs rhs =>
    obtain ⟨⟨state, i⟩, hv, he⟩ := hmet
    obtain ⟨p, hp, hi⟩ := mem_visits.1 hv
    exact absurd he (hc.isItem hp i hi).demand?_ne_error
  | conflict c =>
    obtain ⟨hp, hne, hold, hnew⟩ := hmet
    obtain ⟨p, hcp, hold⟩ := (hc.demanded_iff wf hcl).1 (hold.resolve_left not_has_emptyTable)
    obtain ⟨p', hcp', hnew⟩ := (hc.demanded_iff wf hcl).1 hnew
    obtain rfl : p = p' := Int.ofNat.inj (hcp.symm.trans hcp')
    exact ⟨hp, c, rfl, hne, p, hcp, hold, hnew⟩

end Canonical

end Automaton

end Canonical

/-! ## Builds -/

section Builds

variable {text : String} {config : Config} {listing : Listing}

theorem build_of_read_error {e : TextError} (h : Listing.read text = .error e) :
    build text config = .error (.text e) := by
  rw [build, h]

/-- What a build makes of a text that is a grammar: a table that serves the automaton, or a
clash. -/
theorem build_of_read (config : Config) (h : Listing.read text = .ok listing) :
    (∃ b, build text config = .ok b ∧ b.listing = listing ∧
      b.automaton = listing.automaton config.firstStrategy ∧
      b.table.Serves config.conflictPolicy listing.toGrammar b.automaton) ∨
    (config.conflictPolicy = .error ∧ ∃ c, build text config = .error (.table (.conflict c)) ∧
      (listing.automaton config.firstStrategy).ClashesAt listing.toGrammar c) := by
  have wf := wellFormed_of_read h
  have hcl := classes_of_read h
  obtain ⟨F, hc⟩ := listing.exists_canonical config.firstStrategy
  unfold build
  simp only [h, Listing.analyse, Analysis.table]
  cases hb : Table.build config.conflictPolicy listing.toGrammar listing.classes listing.start
      (listing.automaton config.firstStrategy) with
  | ok table => exact .inl ⟨_, rfl, rfl, rfl, hc.serves wf hcl hb⟩
  | error e =>
    obtain ⟨hp, c, rfl, hclash⟩ := hc.clash wf hcl hb
    exact .inr ⟨hp, c, rfl, hclash⟩

/-- A build that succeeds has read its text and filled the table of what it read. -/
theorem exists_table_of_build {b : Build} (h : build text config = .ok b) : ∃ listing table,
    Listing.read text = .ok listing ∧
      (listing.analyse config.firstStrategy).table config.conflictPolicy = .ok table ∧
      b = ⟨listing.analyse config.firstStrategy, table⟩ := by
  unfold build at h
  split at h
  · cases h
  · next listing hread =>
    simp only at h
    split at h
    · cases h
    · next table htable => exact ⟨listing, table, hread, htable, (Except.ok.inj h).symm⟩

theorem read_of_build {b : Build} (h : build text config = .ok b) :
    Listing.read text = .ok b.listing := by
  obtain ⟨listing, table, hread, -, rfl⟩ := exists_table_of_build h
  exact hread

theorem serves_of_build {b : Build} (h : build text config = .ok b) :
    b.listing.WellFormed ∧ b.automaton = b.listing.automaton config.firstStrategy ∧
      b.table.Serves config.conflictPolicy b.listing.toGrammar b.automaton := by
  obtain ⟨listing, table, hread, htable, rfl⟩ := exists_table_of_build h
  have wf := wellFormed_of_read hread
  obtain ⟨F, hc⟩ := listing.exists_canonical config.firstStrategy
  exact ⟨wf, rfl, hc.serves wf (classes_of_read hread) htable⟩

end Builds

end CanonicalLR
