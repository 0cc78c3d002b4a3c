import CanonicalLR.Proofs.Demands

/-!
# The two conflict policies

The items of an automaton, state by state, demand entries one after the other.  A cell of a grid
shows the last value written to it (`Grid.Shows`), so under the overwriting policy a table shows the
last demand on every cell.  Under the error policy the demands on a cell so far are all the same
(`Steady`), until one differs from the one before it; that one is reported (`FirstClash`).

`build_policies` puts both together for any automaton, also for one whose state numbers repeat: the
two policies go through the same demands, and differ only where the strict one stops.
-/

namespace CanonicalLR

/-- A value that is demanded for a cell. -/
structure CellDemand (α : Type) where
  row : Int
  column : Symbol
  value : α
deriving DecidableEq, Repr

/-! ## Logs of demands -/

section Logs

variable {α : Type} {log more : List (CellDemand α)} {d : CellDemand α} {grid : Grid α} {q : Int}
  {x : Symbol} {v : α}

/-- The value of the last demand on a cell. -/
def lastOn (log : List (CellDemand α)) (q : Int) (x : Symbol) : Option α :=
  (log.filter fun d => d.row = q ∧ d.column = x).getLast?.map (·.value)

theorem lastOn_append : lastOn (log ++ more) q x = (lastOn more q x).or (lastOn log q x) := by
  unfold lastOn
  rw [List.filter_append, List.getLast?_append]
  cases (more.filter fun d => d.row = q ∧ d.column = x).getLast? <;> simp

theorem lastOn_singleton :
    lastOn [d] q x = if d.row = q ∧ d.column = x then some d.value else none := by
  unfold lastOn
  by_cases h : d.row = q ∧ d.column = x <;> simp [h]

theorem lastOn_concat : lastOn (log ++ [d]) q x =
    if d.row = q ∧ d.column = x then some d.value else lastOn log q x := by
  rw [lastOn_append, lastOn_singleton]
  by_cases h : d.row = q ∧ d.column = x <;> simp [h]

theorem mem_of_lastOn (h : lastOn log q x = some v) : ⟨q, x, v⟩ ∈ log := by
  unfold lastOn at h
  obtain ⟨d, hd, rfl⟩ := Option.map_eq_some_iff.1 h
  obtain ⟨hm, hcell⟩ := List.mem_filter.1 (List.mem_of_getLast? hd)
  simp only [decide_eq_true_eq] at hcell
  obtain ⟨rfl, rfl⟩ := hcell
  exact hm

theorem lastOn_eq_none_iff :
    lastOn log q x = none ↔ ∀ d ∈ log, ¬ (d.row = q ∧ d.column = x) := by
  unfold lastOn
  simp

/-- If all demands on a cell are the same, the last one is. -/
theorem lastOn_of_forall (hex : ∃ d ∈ log, d.row = q ∧ d.column = x)
    (hall : ∀ d ∈ log, d.row = q → d.column = x → d.value = v) : lastOn log q x = some v := by
  cases hlast : lastOn log q x with
  | none =>
    obtain ⟨d, hd, hcell⟩ := hex
    exact absurd hcell (lastOn_eq_none_iff.1 hlast d hd)
  | some w => rw [← hall _ (mem_of_lastOn hlast) rfl rfl]

/-- Whether every demand is the same as the one before it on its cell. -/
def Steady (log : List (CellDemand α)) : Prop :=
  ∀ before d after, log = before ++ d :: after →
    ∀ old, lastOn before d.row d.column = some old → old = d.value

theorem steady_nil : Steady ([] : List (CellDemand α)) := by
  intro before d after h
  simp at h

theorem steady_concat : Steady (log ++ [d]) ↔
    Steady log ∧ ∀ old, lastOn log d.row d.column = some old → old = d.value := by
  constructor
  · intro h
    refine ⟨fun before e after hlog => ?_, h log d [] rfl⟩
    exact h before e (after ++ [d]) (by simp [hlog])
  · rintro ⟨h, hd⟩ before e after hlog
    rcases append_eq_append_cons hlog with ⟨rest, hlog, -⟩ | ⟨rest, rfl, hlast⟩
    · exact h before e rest hlog
    · cases rest with
      | nil =>
        obtain ⟨rfl, -⟩ := List.cons.inj hlast
        simpa using hd
      | cons => simp at hlast

/-- Where nothing differs, every demand is the last one on its cell. -/
theorem Steady.lastOn_eq (h : Steady log) (hd : d ∈ log) :
    lastOn log d.row d.column = some d.value := by
  induction log using List.reverseRecOn with
  | nil => cases hd
  | append_singleton log e ih =>
    obtain ⟨hlog, he⟩ := steady_concat.1 h
    rw [lastOn_concat]
    by_cases hcell : e.row = d.row ∧ e.column = d.column
    · rw [if_pos hcell]
      rcases List.mem_append.1 hd with hd | hd
      · have hold := ih hlog hd
        rw [← hcell.1, ← hcell.2] at hold
        rw [he _ hold]
      · rw [List.mem_singleton.1 hd]
    · rw [if_neg hcell]
      rcases List.mem_append.1 hd with hd | hd
      · exact ih hlog hd
      · rw [List.mem_singleton.1 hd] at hcell
        exact absurd ⟨rfl, rfl⟩ hcell

/-- Where nothing differs, all demands on one cell are the same. -/
theorem Steady.value_eq {e : CellDemand α} (h : Steady log) (hd : d ∈ log) (he : e ∈ log)
    (hrow : d.row = e.row) (hcolumn : d.column = e.column) : d.value = e.value := by
  have hlast := h.lastOn_eq hd
  rw [hrow, hcolumn, h.lastOn_eq he] at hlast
  exact (Option.some.inj hlast).symm

/-- Whether every cell of a grid shows the last demand on it. -/
def Grid.Shows (grid : Grid α) (log : List (CellDemand α)) : Prop :=
  ∀ q x, grid.get? q x = lastOn log q x

theorem Grid.shows_empty : (Grid.empty : Grid α).Shows [] := by
  intro q x
  rfl

theorem Grid.Shows.put (h : grid.Shows log) :
    (grid.put q x v).Shows (log ++ [⟨q, x, v⟩]) := by
  intro p y
  rw [Grid.get?_put, lastOn_concat, h p y]
  by_cases hcell : p = q ∧ y = x
  · obtain ⟨rfl, rfl⟩ := hcell
    simp
  · have hcell' : ¬ (q = p ∧ x = y) := fun e => hcell ⟨e.1.symm, e.2.symm⟩
    rw [if_neg hcell, if_neg hcell']

theorem Grid.Shows.openRow (h : grid.Shows log) (q : Int) : (grid.openRow q).Shows log := by
  intro p x
  rw [Grid.get?_openRow, h p x]

end Logs

/-- Whether a conflict is the earliest one of some demands: its incoming action is demanded after
the existing one on the same cell, with none between them, and before it nothing differs. -/
def FirstClash (log : List (CellDemand Action)) (c : Conflict) : Prop :=
  ∃ before after, log = before ++ ⟨c.state, c.symbol, c.incoming⟩ :: after ∧
    lastOn before c.state c.symbol = some c.existing ∧ c.existing ≠ c.incoming ∧ Steady before

theorem FirstClash.append {log : List (CellDemand Action)} {c : Conflict} (h : FirstClash log c)
    (more : List (CellDemand Action)) : FirstClash (log ++ more) c := by
  obtain ⟨before, after, rfl, hold, hne, hsteady⟩ := h
  exact ⟨before, after ++ more, by simp, hold, hne, hsteady⟩

theorem FirstClash.exists_ne {log : List (CellDemand Action)} {c : Conflict}
    (h : FirstClash log c) :
    ∃ d ∈ log, ∃ e ∈ log, d.row = e.row ∧ d.column = e.column ∧ d.value ≠ e.value := by
  obtain ⟨before, after, rfl, hold, hne, -⟩ := h
  have hmem := List.mem_append_left (⟨c.state, c.symbol, c.incoming⟩ :: after) (mem_of_lastOn hold)
  exact ⟨_, hmem, ⟨c.state, c.symbol, c.incoming⟩, by simp, rfl, rfl, hne⟩

/-! ## What an automaton demands -/

namespace TableSource

/-- The action that an item of a state demands: acceptance at the end marker, a reduction on the
lookahead, or a shift over a token on which the state has a transition. -/
def actionDemand? (source : TableSource) (state : State) (item : Item) :
    Option (CellDemand Action) :=
  match item.next? with
  | none =>
    if source.accepts item then some ⟨state.index, endMarker, .accept⟩
    else (source.grammar.ruleId? item.lhs item.rhs).map
      fun id => ⟨state.index, item.lookahead, .reduce id⟩
  | some x =>
    if source.isToken x then (state.target? x).map fun t => ⟨state.index, x, .shift t⟩ else none

/-- Whether a symbol has a column in the GOTO part. -/
def IsGoto (source : TableSource) (x : Symbol) : Prop :=
  x ∈ source.classes.nonterminals ∧ x ∉ source.classes.terminals ∧ x ≠ endMarker

instance (source : TableSource) (x : Symbol) : Decidable (source.IsGoto x) :=
  inferInstanceAs (Decidable (_ ∧ _))

/-- The GOTO entry that an item of a state demands. -/
def gotoDemand? (source : TableSource) (state : State) (item : Item) : Option (CellDemand Int) :=
  match item.next? with
  | none => none
  | some x =>
    if source.IsGoto x then (state.target? x).map fun t => ⟨state.index, x, t⟩ else none

/-- The actions that some items demand, in order. -/
def actions (source : TableSource) (visits : List (State × Item)) : List (CellDemand Action) :=
  visits.filterMap fun visit => source.actionDemand? visit.1 visit.2

/-- The GOTO entries that some items demand, in order. -/
def gotos (source : TableSource) (visits : List (State × Item)) : List (CellDemand Int) :=
  visits.filterMap fun visit => source.gotoDemand? visit.1 visit.2

/-- Whether the production of an item is known, if it is complete and not the item that accepts. -/
def Knows (source : TableSource) (item : Item) : Prop :=
  item.next? = none → ¬ source.accepts item = true →
    (item.lhs, item.rhs) ∈ source.grammar.productions.pairs

instance (source : TableSource) (item : Item) : Decidable (source.Knows item) :=
  inferInstanceAs (Decidable (_ → _))

variable {source : TableSource} {state : State} {item : Item} {q : Int} {x : Symbol}

theorem isToken_iff : source.isToken x = true ↔ x ∈ source.classes.terminals ∨ x = endMarker := by
  simp [isToken]

theorem not_isGoto_of_isToken (h : source.isToken x = true) : ¬ source.IsGoto x := by
  rintro ⟨-, ht, he⟩
  rcases isToken_iff.1 h with h | h
  · exact ht h
  · exact he h

theorem isGoto_iff_of_not_isToken (h : ¬ source.isToken x = true) :
    source.IsGoto x ↔ x ∈ source.classes.nonterminals := by
  rw [isToken_iff, not_or] at h
  exact ⟨And.left, fun hn => ⟨hn, h⟩⟩

/-- A visit demands an action, a GOTO entry or nothing. -/
theorem demand_cases (state : State) (known : source.Knows item) :
    (∃ y act, source.demand? state item = .ok (some (.action y act)) ∧
      source.actionDemand? state item = some ⟨state.index, y, act⟩ ∧
      source.gotoDemand? state item = none) ∨
    (∃ y t, source.demand? state item = .ok (some (.goto y t)) ∧
      source.actionDemand? state item = none ∧
      source.gotoDemand? state item = some ⟨state.index, y, t⟩) ∨
    (source.demand? state item = .ok none ∧ source.actionDemand? state item = none ∧
      source.gotoDemand? state item = none) := by
  unfold demand? actionDemand? gotoDemand?
  cases hn : item.next? with
  | none =>
    left
    by_cases hacc : source.accepts item = true
    · exact ⟨endMarker, .accept, by simp [hacc]⟩
    · obtain ⟨k, hk⟩ := Grammar.exists_ruleId? (known hn hacc)
      exact ⟨item.lookahead, .reduce k, by simp [hacc, hk]⟩
  | some y =>
    cases ht : state.target? y with
    | none => simp [ht]
    | some t =>
      by_cases htok : source.isToken y = true
      · left
        exact ⟨y, .shift t, by simp [htok, ht, not_isGoto_of_isToken htok]⟩
      · right
        have hiff := isGoto_iff_of_not_isToken htok
        by_cases hnt : y ∈ source.classes.nonterminals
        · left
          exact ⟨y, t, by simp [htok, ht, hiff, hnt]⟩
        · right
          simp [htok, ht, hiff, hnt]

end TableSource

/-! ## A table while it is filled -/

namespace Table

variable {policy : ConflictPolicy} {source : TableSource} {visits more : List (State × Item)}
  {table next : Table} {state : State} {item : Item} {items : List Item} {states : List State}

/-- What a table is like after some visits. -/
structure Follows (policy : ConflictPolicy) (source : TableSource) (visits : List (State × Item))
    (table : Table) : Prop where
  action : table.action.Shows (source.actions visits)
  goto : table.goto.Shows (source.gotos visits)
  steady : policy = .error → Steady (source.actions visits)

/-- How some visits can end: with a table, or at the first clash if clashes are errors. -/
def Ends (policy : ConflictPolicy) (source : TableSource) (visits : List (State × Item)) :
    Except TableError Table → Prop
  | .ok table => Follows policy source visits table
  | .error (.conflict c) => policy = .error ∧ FirstClash (source.actions visits) c
  | .error (.unknownRule _ _) => False

/-- A failed filling stays the same, whatever is still to be visited. -/
theorem Ends.append {e : TableError} (h : Ends policy source visits (.error e)) :
    Ends policy source (visits ++ more) (.error e) := by
  cases e with
  | conflict c =>
    refine ⟨h.1, ?_⟩
    unfold TableSource.actions
    rw [List.filterMap_append]
    exact h.2.append _
  | unknownRule => exact h.elim

theorem Ends.bind {result : Except TableError Table} {f : Table → Except TableError Table}
    (h : Ends policy source visits result)
    (hf : ∀ mid, Follows policy source visits mid → Ends policy source (visits ++ more) (f mid)) :
    Ends policy source (visits ++ more) (result.bind f) := by
  cases result with
  | error e => exact h.append
  | ok mid => exact hf mid h

theorem Follows.enter (h : Follows policy source visits table) {x : Symbol} {act : Action}
    (hact : source.actionDemand? state item = some ⟨state.index, x, act⟩)
    (hgoto : source.gotoDemand? state item = none) :
    Ends policy source (visits ++ [(state, item)]) (table.enter policy state.index x act) := by
  have hactions : source.actions (visits ++ [(state, item)]) =
      source.actions visits ++ [⟨state.index, x, act⟩] := by
    simp [TableSource.actions, List.filterMap_append, hact]
  have hgotos : source.gotos (visits ++ [(state, item)]) = source.gotos visits := by
    simp [TableSource.gotos, List.filterMap_append, hgoto]
  have entered : (policy = .error → ∀ old, table.action.get? state.index x = some old → old = act) →
      Follows policy source (visits ++ [(state, item)])
        { table with action := table.action.put state.index x act } := by
    intro hold
    refine ⟨?_, ?_, fun hp => ?_⟩
    · rw [hactions]
      exact h.action.put
    · rw [hgotos]
      exact h.goto
    · rw [hactions, steady_concat]
      refine ⟨h.steady hp, fun old hlast => hold hp old ?_⟩
      rw [h.action]
      exact hlast
  unfold Table.enter
  simp only
  split
  · next old hold =>
    split
    · next he => exact entered fun _ old' h' => Option.some.inj (h'.symm.trans hold) ▸ he
    · next hne =>
      refine ⟨rfl, ?_⟩
      rw [hactions]
      exact ⟨_, [], rfl, (h.action _ _).symm.trans hold, hne, h.steady rfl⟩
  · next hne => exact entered fun hp old hold => absurd hold (hne old hp)

theorem Follows.meet (h : Follows policy source visits table) (state : State)
    (known : source.Knows item) :
    Ends policy source (visits ++ [(state, item)]) (table.meet policy source state item) := by
  unfold Table.meet
  rcases TableSource.demand_cases state known with
    ⟨x, act, hd, hact, hgoto⟩ | ⟨x, t, hd, hact, hgoto⟩ | ⟨hd, hact, hgoto⟩
  · rw [hd]
    exact h.enter hact hgoto
  · rw [hd]
    refine ⟨?_, ?_, ?_⟩
    · simpa [TableSource.actions, List.filterMap_append, hact] using h.action
    · simpa [TableSource.gotos, List.filterMap_append, hgoto] using h.goto.put
    · simpa [TableSource.actions, List.filterMap_append, hact] using h.steady
  · rw [hd]
    refine ⟨?_, ?_, ?_⟩
    · simpa [TableSource.actions, List.filterMap_append, hact] using h.action
    · simpa [TableSource.gotos, List.filterMap_append, hgoto] using h.goto
    · simpa [TableSource.actions, List.filterMap_append, hact] using h.steady

theorem Follows.meetAll (h : Follows policy source visits table) (state : State)
    (known : ∀ item ∈ items, source.Knows item) :
    Ends policy source (visits ++ items.map (state, ·))
      (table.meetAll policy source state items) := by
  induction items generalizing table visits with
  | nil => simpa [Table.meetAll, Ends] using h
  | cons item rest ih =>
    have first := h.meet state (known item List.mem_cons_self)
    rw [meetAll_cons, List.map_cons, List.append_cons]
    exact first.bind fun mid hmid => ih hmid fun i hi => known i (List.mem_cons_of_mem _ hi)

theorem Follows.openRows (h : Follows policy source visits table) (state : State) :
    Follows policy source visits (table.openRows state) :=
  ⟨h.action.openRow _, h.goto.openRow _, h.steady⟩

theorem Follows.fill (h : Follows policy source visits table)
    (known : ∀ state ∈ states, ∀ item ∈ state.items, source.Knows item) :
    Ends policy source (visits ++ states.flatMap fun state => state.items.map (state, ·))
      (table.fill policy source states) := by
  induction states generalizing table visits with
  | nil => simpa [Table.fill, Ends] using h
  | cons state rest ih =>
    have first := (h.openRows state).meetAll state (known state List.mem_cons_self)
    rw [fill_cons, List.flatMap_cons, ← List.append_assoc]
    exact first.bind fun mid hmid => ih hmid fun s hs => known s (List.mem_cons_of_mem _ hs)

/-! ## What the strict policy lets through -/

theorem enter_of_error {x : Symbol} {q : Int} {act : Action}
    (h : table.enter .error q x act = .ok next) : table.enter .overwrite q x act = .ok next := by
  unfold enter at h ⊢
  simp only at h ⊢
  split at h
  · split at h
    · exact h
    · cases h
  · exact h

theorem meet_of_error (h : table.meet .error source state item = .ok next) :
    table.meet .overwrite source state item = .ok next := by
  unfold meet at h ⊢
  cases hd : source.demand? state item with
  | error e =>
    rw [hd] at h
    cases h
  | ok d =>
    rw [hd] at h
    rcases d with _ | ⟨x, act⟩ | ⟨x, t⟩
    · exact h
    · exact enter_of_error h
    · exact h

theorem meetAll_of_error (h : table.meetAll .error source state items = .ok next) :
    table.meetAll .overwrite source state items = .ok next := by
  induction items generalizing table with
  | nil => exact h
  | cons item rest ih =>
    rw [meetAll_cons] at h ⊢
    obtain ⟨mid, hmid, hrest⟩ := exists_ok_of_bind h
    rw [meet_of_error hmid]
    exact ih hrest

theorem fill_of_error (h : table.fill .error source states = .ok next) :
    table.fill .overwrite source states = .ok next := by
  induction states generalizing table with
  | nil => exact h
  | cons state rest ih =>
    rw [fill_cons] at h ⊢
    obtain ⟨mid, hmid, hrest⟩ := exists_ok_of_bind h
    rw [meetAll_of_error hmid]
    exact ih hrest

end Table

/-! ## GOTO entries by states -/

/-- Whether a state has a transition on a symbol and an item with the symbol after its dot. -/
def State.Reads (state : State) (x : Symbol) : Prop :=
  (state.target? x).isSome = true ∧ ∃ i ∈ state.items, i.next? = some x

instance (state : State) (x : Symbol) : Decidable (state.Reads x) :=
  inferInstanceAs (Decidable (_ ∧ _))

section Goto

variable {source : TableSource} {state : State} {item : Item} {q : Int} {x : Symbol}
  {d : CellDemand Int}

theorem TableSource.gotoDemand?_eq_some : source.gotoDemand? state item = some d ↔
    ∃ x t, item.next? = some x ∧ source.IsGoto x ∧ state.target? x = some t ∧
      d = ⟨state.index, x, t⟩ := by
  unfold gotoDemand?
  cases item.next? with
  | none => simp
  | some x =>
    by_cases h : source.IsGoto x
    · simp [h, eq_comm]
    · simp [h]

theorem TableSource.mem_gotos_items : d ∈ source.gotos (state.items.map (state, ·)) ↔
    ∃ x t, source.IsGoto x ∧ (∃ i ∈ state.items, i.next? = some x) ∧ state.target? x = some t ∧
      d = ⟨state.index, x, t⟩ := by
  simp only [gotos, List.mem_filterMap, List.mem_map]
  constructor
  · rintro ⟨_, ⟨i, hi, rfl⟩, hd⟩
    obtain ⟨x, t, hx, hgoto, ht, rfl⟩ := gotoDemand?_eq_some.1 hd
    exact ⟨x, t, hgoto, ⟨i, hi, hx⟩, ht, rfl⟩
  · rintro ⟨x, t, hgoto, ⟨i, hi, hx⟩, ht, rfl⟩
    exact ⟨(state, i), ⟨i, hi, rfl⟩, gotoDemand?_eq_some.2 ⟨x, t, hx, hgoto, ht, rfl⟩⟩

/-- All items of a state that demand a GOTO entry for a symbol demand the same one. -/
theorem lastOn_gotos_items : lastOn (source.gotos (state.items.map (state, ·))) q x =
    if state.index = q ∧ source.IsGoto x ∧ state.Reads x then state.target? x else none := by
  by_cases h : state.index = q ∧ source.IsGoto x ∧ state.Reads x
  · obtain ⟨rfl, hgoto, hsome, hi⟩ := h
    obtain ⟨t, ht⟩ := Option.isSome_iff_exists.1 hsome
    have hlast : lastOn (source.gotos (state.items.map (state, ·))) state.index x = some t := by
      apply lastOn_of_forall ⟨_, TableSource.mem_gotos_items.2 ⟨x, t, hgoto, hi, ht, rfl⟩, rfl, rfl⟩
      intro d hd _ hcolumn
      obtain ⟨y, t', -, -, ht', rfl⟩ := TableSource.mem_gotos_items.1 hd
      obtain rfl : y = x := hcolumn
      exact Option.some.inj (ht'.symm.trans ht)
    rw [hlast, if_pos ⟨rfl, hgoto, hsome, hi⟩, ht]
  · rw [if_neg h, lastOn_eq_none_iff]
    rintro d hd ⟨rfl, rfl⟩
    obtain ⟨y, t, hgoto, hi, ht, rfl⟩ := TableSource.mem_gotos_items.1 hd
    exact h ⟨rfl, hgoto, by simp [ht], hi⟩

/-- The last GOTO demand on a cell comes from the last state that demands one there. -/
theorem lastOn_gotos_states (states : List State) :
    lastOn (source.gotos (states.flatMap fun state => state.items.map (state, ·))) q x =
      if source.IsGoto x then
        (states.filter fun state => state.index = q ∧ state.Reads x).getLast?.bind (·.target? x)
      else none := by
  induction states with
  | nil => simp [TableSource.gotos, lastOn]
  | cons state rest ih =>
    have hsplit : source.gotos ((state :: rest).flatMap fun s => s.items.map (s, ·)) =
        source.gotos (state.items.map (state, ·)) ++
          source.gotos (rest.flatMap fun s => s.items.map (s, ·)) := by
      simp [TableSource.gotos, List.filterMap_append]
    rw [hsplit, lastOn_append, ih, lastOn_gotos_items]
    by_cases hgoto : source.IsGoto x
    · simp only [hgoto, if_true, true_and]
      by_cases hstate : state.index = q ∧ state.Reads x
      · rw [if_pos hstate, List.filter_cons_of_pos (by simpa using hstate), List.getLast?_cons]
        cases hlast : (rest.filter fun s => s.index = q ∧ s.Reads x).getLast? with
        | none => simp
        | some s =>
          -- the later state has a transition on the symbol
          have hs := (List.mem_filter.1 (List.mem_of_getLast? hlast)).2
          simp only [decide_eq_true_eq] at hs
          obtain ⟨t, ht⟩ := Option.isSome_iff_exists.1 hs.2.1
          simp [ht]
      · rw [if_neg hstate, List.filter_cons_of_neg (by simpa using hstate)]
        simp
    · simp [hgoto]

end Goto

/-! ## Both policies -/

/-- What a table is filled from that belongs to an automaton. -/
def Automaton.source (a : Automaton) (g : Grammar) (classes : SymbolClasses) (start : Symbol) :
    TableSource :=
  ⟨g, classes, start, a.augmentedStart⟩

theorem Table.ends_build (policy : ConflictPolicy) {g : Grammar} {classes : SymbolClasses}
    {start : Symbol} {a : Automaton}
    (known : ∀ state ∈ a.states, ∀ i ∈ state.items, (a.source g classes start).Knows i) :
    Ends policy (a.source g classes start) a.visits (Table.build policy g classes start a) := by
  have empty : Follows policy (a.source g classes start) []
      ⟨.empty, .empty, classes.terminals, classes.nonterminals, a.states.length⟩ :=
    ⟨Grid.shows_empty, Grid.shows_empty, fun _ => steady_nil⟩
  exact empty.fill known

/-- **The two conflict policies.**  Take any automaton whose complete items, but for the one that
accepts, have known productions.  Under the overwriting policy every ACTION cell holds the last
demand on it, and a GOTO cell the transition of the last state with its number that reads its
symbol.  The error policy reports a conflict if and only if two demands on one cell differ, and then
the first demand that differs from the one before it; otherwise it gives the same table. -/
theorem build_policies {g : Grammar} {classes : SymbolClasses} {start : Symbol} {a : Automaton}
    (known : ∀ state ∈ a.states, ∀ i ∈ state.items, (a.source g classes start).Knows i) :
    ∃ table, Table.build .overwrite g classes start a = .ok table ∧
      (∀ q x, table.action.get? q x = lastOn ((a.source g classes start).actions a.visits) q x) ∧
      (∀ q x, table.goto.get? q x = if (a.source g classes start).IsGoto x then
        (a.states.filter fun state => state.index = q ∧ state.Reads x).getLast?.bind (·.target? x)
        else none) ∧
      ((∃ c, Table.build .error g classes start a = .error (.conflict c)) ↔
        ∃ d ∈ (a.source g classes start).actions a.visits,
        ∃ e ∈ (a.source g classes start).actions a.visits,
          d.row = e.row ∧ d.column = e.column ∧ d.value ≠ e.value) ∧
      (∀ c, Table.build .error g classes start a = .error (.conflict c) →
        FirstClash ((a.source g classes start).actions a.visits) c) ∧
      ((¬ ∃ c, Table.build .error g classes start a = .error (.conflict c)) →
        Table.build .error g classes start a = .ok table) := by
  have overwrite := Table.ends_build .overwrite known
  have strict := Table.ends_build .error known
  cases hover : Table.build .overwrite g classes start a with
  | error e =>
    -- only the error policy reports clashes, and all productions are known
    rw [hover] at overwrite
    cases e with
    | conflict c => exact absurd overwrite.1 (by simp)
    | unknownRule => exact overwrite.elim
  | ok table =>
    rw [hover] at overwrite
    have hgoto : ∀ q x, table.goto.get? q x = _ := fun q x =>
      (overwrite.goto q x).trans (lastOn_gotos_states a.states)
    refine ⟨table, rfl, overwrite.action, hgoto, ?_⟩
    cases herror : Table.build .error g classes start a with
    | error e =>
      rw [herror] at strict
      cases e with
      | unknownRule => exact strict.elim
      | conflict c =>
        have hclash : FirstClash ((a.source g classes start).actions a.visits) c := strict.2
        refine ⟨iff_of_true ⟨c, rfl⟩ hclash.exists_ne, fun c' h => ?_, fun h => absurd ⟨c, rfl⟩ h⟩
        cases h
        exact hclash
    | ok table' =>
      rw [herror] at strict
      have same : Table.build .overwrite g classes start a = .ok table' :=
        Table.fill_of_error herror
      refine ⟨iff_of_false (by simp) ?_, fun c h => ?_, fun _ => ?_⟩
      · rintro ⟨d, hd, e, he, hrow, hcolumn, hne⟩
        exact hne ((strict.steady rfl).value_eq hd he hrow hcolumn)
      · cases h
      · rw [← hover, same]

/-- Two states of one number share a row.  Three actions are demanded in it, the last two on one
cell; the GOTO entry is that of the second state, and `a` has none, though it is listed among the
nonterminals. -/
theorem build_policies_shared :
    let g : Grammar := ⟨[("S", [["a", "S"], ["a"]])], "S", by decide⟩
    let a : Automaton := ⟨"S'", [
      ⟨1, [⟨"S", ["a"], 1, "$"⟩, ⟨"S", ["a", "S"], 1, "$"⟩], [("S", 2)]⟩,
      ⟨1, [⟨"S", ["a", "S"], 0, "$"⟩, ⟨"S", ["a"], 1, "a"⟩, ⟨"S", ["a", "S"], 1, "a"⟩],
        [("a", 5), ("S", 4)]⟩]⟩
    (∀ state ∈ a.states, ∀ i ∈ state.items, (a.source g ⟨["a"], ["S", "a"]⟩ "S").Knows i) ∧
    ∃ table, Table.build .overwrite g ⟨["a"], ["S", "a"]⟩ "S" a = .ok table ∧
      table.action.get? 1 "$" = some (.reduce 1) ∧ table.action.get? 1 "a" = some (.reduce 1) ∧
      table.goto.get? 1 "S" = some 4 ∧ table.goto.get? 1 "a" = none ∧
      ∃ c, Table.build .error g ⟨["a"], ["S", "a"]⟩ "S" a = .error (.conflict c) ∧
        FirstClash ((a.source g ⟨["a"], ["S", "a"]⟩ "S").actions a.visits) c := by
  intro g a
  have known : ∀ state ∈ a.states, ∀ i ∈ state.items,
      (a.source g ⟨["a"], ["S", "a"]⟩ "S").Knows i := by decide
  obtain ⟨table, hover, haction, hgoto, hconflict, hfirst, -⟩ := build_policies known
  refine ⟨known, table, hover, ?_, ?_, ?_, ?_, ?_⟩
  · rw [haction]
    decide
  · rw [haction]
    decide
  · rw [hgoto]
    decide
  · rw [hgoto]
    decide
  · obtain ⟨c, hc⟩ := hconflict.2
      ⟨⟨1, "a", .shift 5⟩, by decide, ⟨1, "a", .reduce 1⟩, by decide, rfl, rfl, by decide⟩
    exact ⟨c, hc, hfirst c hc⟩

end CanonicalLR
