import CanonicalLR.Proofs.Agreement
import CanonicalLR.Proofs.Numbering
import CanonicalLR.Proofs.Policies

/-!
# Where a table accepts

The completed start item stands in one state only, the one that the start symbol leads to from state
0: paths to it spell the start symbol and nothing else (`Canonical.mem_acceptItem_iff`).  It is the
first item of that state (`head_of_accepting`), since the initial item is the first of state 0 and
the start symbol the first to be moved over.  So its demand comes first, and every other item of the
state that is complete at the end marker demands a reduction after it.  Under the error policy that
is a conflict, and under the overwriting policy the reduction stands (`action_eq_accept_iff`).
-/

namespace CanonicalLR

/-- The completed start item at the end of the input. -/
def Grammar.acceptItem (g : Grammar) : Item := ⟨g.augmentedStart, [g.start], 1, endMarker⟩

/-- Whether an item other than the completed start item is complete at the end marker. -/
def State.Contested (g : Grammar) (state : State) : Prop :=
  ∃ i ∈ state.items, i.isComplete = true ∧ i.lookahead = endMarker ∧ i ≠ g.acceptItem

instance (g : Grammar) (state : State) : Decidable (state.Contested g) :=
  inferInstanceAs (Decidable (∃ i ∈ state.items, _))

theorem Item.isComplete_iff {i : Item} : i.isComplete = true ↔ i.next? = none := by
  rw [isComplete, decide_eq_true_eq, next?, List.getElem?_eq_none_iff]

/-! ## The state of the completed start item -/

section States

variable {g : Grammar} {a : Automaton} {F : List Symbol → SymbolSet} {γ : List Symbol} {p t : Nat}
  {i : Item} {x : Symbol} {first last state : State}

/-- The only complete item of the augmented start is the one that accepts. -/
theorem Grammar.IsItem.eq_acceptItem (h : g.IsItem i) (hn : i.next? = none)
    (hl : i.lhs = g.augmentedStart) : i = g.acceptItem := by
  obtain ⟨hrhs, hlook⟩ := h.of_augmentedStart hl
  have hdot := h.dot
  have hend := List.getElem?_eq_none_iff.1 hn
  rw [hrhs, List.length_singleton] at hdot hend
  cases i
  simp only at hrhs hlook hl hdot hend
  rw [acceptItem, hl, hrhs, hlook, Nat.le_antisymm hdot hend]

namespace Automaton

theorem Holds.isItem (hc : a.Canonical g F) (h : a.Holds γ i) : g.IsItem i := by
  obtain ⟨p, state, -, hs, hi⟩ := h
  exact hc.isItem hs i hi

/-- Before the start symbol of the completed start item, nothing was read. -/
theorem Canonical.path_of_acceptItem (wf : g.WellFormed) (hc : a.Canonical g F)
    (h : a.Path 0 γ p) (hp : a.states[p]? = some state) (hi : g.acceptItem ∈ state.items) :
    γ = [g.start] := by
  obtain ⟨δ, rfl, hδ⟩ := h.origin hc hp hi
  have hempty : δ = [] := by
    rcases hδ.head_after_dot hc rfl with ⟨he, -⟩ | ⟨j, hj, hn⟩
    · exact he
    · exact absurd ((hj.isItem hc).mem_symbols_of_next? wf hn) Grammar.augmentedStart_not_mem
  rw [hempty]
  rfl

/-- State 0 has a transition on the start symbol. -/
theorem Canonical.exists_target_start (hc : a.Canonical g F) (h0 : a.states[0]? = some first) :
    ∃ (t : Nat) (last : State), first.target? g.start = some (t : Int) ∧
      a.states[t]? = some last ∧ g.acceptItem ∈ last.items := by
  have hi : g.initialItem ∈ first.items := (hc.mem_initial h0).2 (.of_mem List.mem_cons_self)
  obtain ⟨target, ht⟩ := (hc.moves h0 g.start).2 ⟨_, hi, rfl⟩
  obtain ⟨t, last, rfl, hlast, hm⟩ := hc.target h0 ht
  exact ⟨t, last, ht, hlast, (hm _).2 (.of_mem (Grammar.mem_movedOver.2 ⟨_, hi, rfl, rfl⟩))⟩

theorem Canonical.mem_acceptItem_iff (wf : g.WellFormed) (hc : a.Canonical g F)
    (h0 : a.states[0]? = some first) (ht : first.target? g.start = some (t : Int))
    (hp : a.states[p]? = some state) : g.acceptItem ∈ state.items ↔ p = t := by
  have hpath : a.Path 0 [g.start] t := (Path.refl 0).tail h0 ht
  constructor
  · intro hi
    obtain ⟨γ, hγ⟩ := hc.exists_path hp
    rw [hc.path_of_acceptItem wf hγ hp hi] at hγ
    exact hγ.unique hpath
  · rintro rfl
    obtain ⟨p, last, ht', hlast, hi⟩ := hc.exists_target_start h0
    obtain rfl := Int.ofNat.inj (Option.some.inj (ht.symm.trans ht'))
    obtain rfl := Option.some.inj (hp.symm.trans hlast)
    exact hi

end Automaton

end States

/-! ## The first item of its state -/

namespace Grammar

variable {g : Grammar} {memo : Memo} {items seeds : List Item} {x : Symbol} {state : State}

/-- A closure begins with its first seed and repeats nothing. -/
theorem closure_head (hm : memo.Credible g) (i : Item) (others : List Item) :
    ∃ rest, (g.closure (i :: others) memo).1 = i :: rest ∧ (i :: rest).Nodup := by
  have h : g.IsClosure (g.closure (i :: others) memo).2.answers (i :: others)
      (g.closure (i :: others) memo).1 := isClosure_closure hm (Memo.agrees_answers _)
  obtain ⟨rest, hrest⟩ := h.begins
  have hnodup := h.nodup
  rw [← hrest] at hnodup
  exact ⟨_, hrest.symm, hnodup⟩

theorem nextSymbols_head {i : Item} (hx : i.next? = some x) (rest : List Item) :
    ∃ xs, Item.nextSymbols (i :: rest) = x :: xs := by
  rw [Item.nextSymbols, List.filterMap_cons_some hx, distinct]
  exact ⟨_, rfl⟩

theorem movedOver_head {i : Item} (hx : i.next? = some x) (rest : List Item) :
    movedOver x (i :: rest) = i.advance :: movedOver x rest := by
  rw [movedOver, List.filter_cons_of_pos (by simpa using hx)]
  rfl

/-- The set registered first behind the initial one is that of the first symbol after a dot. -/
theorem sets_successors (hm : memo.Credible g) (hi : ∀ i ∈ items, g.IsItem i)
    (hdots : ∀ i ∈ items, i.dot = 0) (hx : ∃ i ∈ items, i.next? = some x) (xs : List Symbol) :
    [items, (g.goto items x memo).1] <+: (g.successors items (x :: xs) [items] memo).2.1 := by
  obtain ⟨j, hj, hmoved⟩ := exists_moved hm hx
  have hnew : Item.sameSet (g.goto items x memo).1 items = false := by
    rw [Bool.eq_false_iff, ne_eq, Item.sameSet_iff]
    exact fun h => hmoved (hdots j ((h j).1 hj))
  have hregister : register [items] (g.goto items x memo).1 =
      (1, [items, (g.goto items x memo).1]) := by
    simp [register, hnew]
  have hsets : g.Sets [items, (g.goto items x memo).1] := by
    have hone : g.Sets [items] := ⟨by simpa using hi, List.pairwise_singleton _ _⟩
    have hboth := hone.register fun j hj => isItem_goto (x := x) hm hi hj
    rwa [hregister] at hboth
  rw [successors, hregister]
  exact (expanded_successors xs (kept_credible.goto items x hm) hsets hi
    (Memo.agrees_answers _)).grown

/-- State 1 begins with the completed start item and repeats nothing. -/
theorem full_second (hm : memo.Credible g) : ∃ rest,
    (g.fullCollection memo).sets[1]? = some (g.acceptItem :: rest) ∧
      (g.acceptItem :: rest).Nodup := by
  have hstart : g.Exploring (g.initialCollection memo) := exploring_initial hm
  let later := (g.closure [g.initialItem] memo).2
  have hlater : later.Credible g := kept_credible.closure _ hm
  obtain ⟨others, hset, -⟩ := closure_head hm g.initialItem []
  have hnext : g.initialItem.next? = some g.start := rfl
  obtain ⟨xs, hxs⟩ := nextSymbols_head hnext others
  have hq : (g.initialCollection memo).sets[(g.initialCollection memo).rows.length]? =
      some (g.initialItem :: others) := congrArg some hset
  have hdots : ∀ i ∈ g.initialItem :: others, i.dot = 0 := by
    obtain ⟨set, hs, hd⟩ := (numbered_initial hm).first
    rwa [← Option.some.inj hs, hset] at hd
  -- one expansion registers the goto set, and later ones leave its number alone
  have hregistered := sets_successors hlater (hstart.sets.isItem _ (List.mem_of_getElem? hq)) hdots
    ⟨_, List.mem_cons_self, hnext⟩ xs
  obtain ⟨budget, hbudget⟩ := Nat.exists_eq_add_of_lt (Nat.two_pow_pos g.itemCount)
  have hgrown : ((g.initialCollection memo).expand g (g.initialItem :: others)).sets <+:
      (g.fullCollection memo).sets := by
    rw [fullCollection, hbudget, Nat.zero_add, explore_of_some hq]
    exact (hstart.next hq).grown
  have hexpand : ((g.initialCollection memo).expand g (g.initialItem :: others)).sets =
      (g.successors (g.initialItem :: others) (g.start :: xs)
        [g.initialItem :: others] later).2.1 := by
    rw [← hxs, ← hset]
    rfl
  rw [hexpand] at hgrown
  have hgoto : g.goto (g.initialItem :: others) g.start later =
      g.closure (g.acceptItem :: movedOver g.start others) later := by
    show g.closure (movedOver g.start (g.initialItem :: others)) later = _
    rw [movedOver_head hnext]
    rfl
  obtain ⟨rest, hrest, hnodup⟩ := closure_head hlater g.acceptItem (movedOver g.start others)
  rw [hgoto, hrest] at hregistered
  obtain ⟨sets, hsets⟩ := hregistered.trans hgrown
  exact ⟨rest, by rw [← hsets]; rfl, hnodup⟩

/-- The state of the completed start item begins with it and repeats nothing. -/
theorem head_of_accepting (wf : g.WellFormed) {strategy : FirstStrategy} {p : Nat}
    (hp : (g.automaton strategy).states[p]? = some state) (hi : g.acceptItem ∈ state.items) :
    ∃ rest, state.items = g.acceptItem :: rest ∧ (g.acceptItem :: rest).Nodup := by
  obtain ⟨F, hc⟩ := g.exists_canonical strategy
  have hm : (g.openMemo strategy).Credible g := credible_openMemo strategy
  obtain ⟨rest, hset, hnodup⟩ := full_second hm
  obtain ⟨second, hsecond, hitems⟩ := exists_state_of_set (g := g) (full_done hm) hset
  obtain ⟨first, h0, -⟩ := hc.initial
  obtain ⟨t, last, ht, -, -⟩ := hc.exists_target_start h0
  have hone : 1 = t :=
    (hc.mem_acceptItem_iff wf h0 ht hsecond).1 (hitems ▸ List.mem_cons_self)
  obtain rfl : p = 1 := ((hc.mem_acceptItem_iff wf h0 ht hp).1 hi).trans hone.symm
  obtain rfl := Option.some.inj (hsecond.symm.trans hp)
  exact ⟨rest, hitems, hnodup⟩

end Grammar

/-! ## Demands on the end marker -/

section Demands

variable {g : Grammar} {a : Automaton} {F : List Symbol → SymbolSet} {classes : SymbolClasses}
  {source : TableSource} {policy : ConflictPolicy} {table : Table} {state : State} {i : Item}
  {items : List Item} {p t : Nat} {q : Int} {x : Symbol} {act : Action} {d : CellDemand Action}

theorem TableSource.row_of_actionDemand? (h : source.actionDemand? state i = some d) :
    d.row = state.index := by
  unfold actionDemand? at h
  split at h
  · split at h
    · cases h
      rfl
    · obtain ⟨k, -, rfl⟩ := Option.map_eq_some_iff.1 h
      rfl
  · split at h
    · obtain ⟨t, -, rfl⟩ := Option.map_eq_some_iff.1 h
      rfl
    · cases h

theorem TableSource.actions_cons {visits : List (State × Item)}
    (h : source.actionDemand? state i = some d) :
    source.actions ((state, i) :: visits) = d :: source.actions visits :=
  List.filterMap_cons_some h

theorem TableSource.lastOn_actions_eq_none {states : List State}
    (h : ∀ state ∈ states, state.index ≠ q) :
    lastOn (source.actions (states.flatMap fun state => state.items.map (state, ·))) q x =
      none := by
  rw [lastOn_eq_none_iff]
  rintro d hd ⟨hrow, -⟩
  obtain ⟨visit, hv, hdemand⟩ := List.mem_filterMap.1 hd
  obtain ⟨state, hs, hvisit⟩ := List.mem_flatMap.1 hv
  obtain ⟨i, -, rfl⟩ := List.mem_map.1 hvisit
  exact h state hs ((row_of_actionDemand? hdemand).symm.trans hrow)

/-- The last action demanded in a row is the last one of its state. -/
theorem Automaton.Canonical.lastOn_actions (hc : a.Canonical g F) (hp : a.states[p]? = some state) :
    lastOn (source.actions a.visits) p x =
      lastOn (source.actions (state.items.map (state, ·))) p x := by
  obtain ⟨hlt, hget⟩ := List.getElem?_eq_some_iff.1 hp
  have hsplit : a.states = a.states.take p ++ (state :: a.states.drop (p + 1)) := by
    rw [← hget, List.getElem_cons_drop, List.take_append_drop]
  -- a state at another place has another number
  have apart : ∀ {j : Nat} (hj : j < a.states.length), j ≠ p → a.states[j].index ≠ p := by
    intro j hj hne he
    rw [hc.index (List.getElem?_eq_getElem hj)] at he
    exact hne (Int.ofNat.inj he)
  have hbefore : ∀ other ∈ a.states.take p, other.index ≠ p := by
    intro other ho
    obtain ⟨j, hj, rfl⟩ := List.mem_take_iff_getElem.1 ho
    exact apart _ (by omega)
  have hafter : ∀ other ∈ a.states.drop (p + 1), other.index ≠ p := by
    intro other ho
    obtain ⟨j, hj, rfl⟩ := List.mem_drop_iff_getElem.1 ho
    exact apart _ (by omega)
  have hvisits : source.actions a.visits =
      source.actions ((a.states.take p).flatMap fun s => s.items.map (s, ·)) ++
        (source.actions (state.items.map (state, ·)) ++
          source.actions ((a.states.drop (p + 1)).flatMap fun s => s.items.map (s, ·))) := by
    rw [Automaton.visits]
    conv_lhs => rw [hsplit]
    simp only [TableSource.actions, List.flatMap_append, List.flatMap_cons, List.filterMap_append]
  rw [hvisits, lastOn_append, lastOn_append, TableSource.lastOn_actions_eq_none hbefore,
    TableSource.lastOn_actions_eq_none hafter, Option.none_or, Option.or_none]

/-- The completed start item demands acceptance. -/
theorem Grammar.actionDemand?_acceptItem :
    (g.tableSource classes).actionDemand? state g.acceptItem =
      some ⟨state.index, endMarker, .accept⟩ := by
  have hacc : (g.tableSource classes).accepts g.acceptItem = true := by
    simp [TableSource.accepts, acceptItem, tableSource]
  have hn : g.acceptItem.next? = none := rfl
  simp only [TableSource.actionDemand?, hn, if_pos hacc]

/-- Another complete item demands a reduction on its lookahead. -/
theorem Grammar.IsItem.actionDemand?_of_isComplete (h : g.IsItem i) (hne : i ≠ g.acceptItem)
    (hn : i.next? = none) : ∃ k : Nat, (g.tableSource classes).actionDemand? state i =
      some ⟨state.index, i.lookahead, .reduce k⟩ := by
  have hl : i.lhs ≠ g.augmentedStart := fun hl => hne (h.eq_acceptItem hn hl)
  have hacc : ¬ (g.tableSource classes).accepts i = true := fun hacc => hl (h.accepts_iff.1 hacc)
  obtain ⟨k, hk⟩ := exists_ruleId? (h.mem_pairs hl)
  have hk : (g.tableSource classes).grammar.ruleId? i.lhs i.rhs = some k := hk
  refine ⟨k, ?_⟩
  simp only [TableSource.actionDemand?, hn, if_neg hacc, hk]
  rfl

/-- An item with a symbol after its dot demands nothing on the end marker. -/
theorem Grammar.IsItem.column_of_next? (wf : g.WellFormed) (h : g.IsItem i)
    (hn : i.next? = some x) (hd : (g.tableSource classes).actionDemand? state i = some d) :
    d.column ≠ endMarker := by
  simp only [TableSource.actionDemand?, hn] at hd
  split at hd
  · obtain ⟨t, -, rfl⟩ := Option.map_eq_some_iff.1 hd
    exact fun e => wf.endMarker (e ▸ h.mem_symbols_of_next? wf hn)
  · cases hd

/-- What items other than the completed start item demand on the end marker: nothing, unless one of
them is complete at the end marker, and never acceptance. -/
theorem Grammar.lastOn_endMarker (classes : SymbolClasses) (state : State) (wf : g.WellFormed)
    (hi : ∀ i ∈ items, g.IsItem i) (hne : ∀ i ∈ items, i ≠ g.acceptItem) :
    let demanded := lastOn ((g.tableSource classes).actions (items.map (state, ·))) state.index
      endMarker
    (demanded = none ↔ ∀ i ∈ items, i.isComplete = true → i.lookahead ≠ endMarker) ∧
      demanded ≠ some .accept := by
  have demands : ∀ {d}, d ∈ (g.tableSource classes).actions (items.map (state, ·)) →
      ∃ i ∈ items, (g.tableSource classes).actionDemand? state i = some d := by
    intro d hd
    obtain ⟨visit, hv, hdemand⟩ := List.mem_filterMap.1 hd
    obtain ⟨i, hi, rfl⟩ := List.mem_map.1 hv
    exact ⟨i, hi, hdemand⟩
  -- a demand on the end marker is a reduction by an item that is complete there
  have reduces : ∀ {d}, d ∈ (g.tableSource classes).actions (items.map (state, ·)) →
      d.column = endMarker →
      ∃ i ∈ items, i.isComplete = true ∧ i.lookahead = endMarker ∧ ∃ k, d.value = .reduce k := by
    intro d hd hcolumn
    obtain ⟨i, hm, hdemand⟩ := demands hd
    cases hn : i.next? with
    | some x => exact absurd hcolumn ((hi i hm).column_of_next? wf hn hdemand)
    | none =>
      obtain ⟨k, hk⟩ := (hi i hm).actionDemand?_of_isComplete (hne i hm) hn
      rw [hk] at hdemand
      cases hdemand
      exact ⟨i, hm, Item.isComplete_iff.2 hn, hcolumn, k, rfl⟩
  refine ⟨?_, fun haccept => ?_⟩
  · rw [lastOn_eq_none_iff]
    constructor
    · intro hnone i hm hcomplete hlook
      have hn := Item.isComplete_iff.1 hcomplete
      obtain ⟨k, hk⟩ := (hi i hm).actionDemand?_of_isComplete (hne i hm) hn
      refine hnone _ (List.mem_filterMap.2 ⟨(state, i), List.mem_map_of_mem hm, hk⟩) ⟨rfl, hlook⟩
    · rintro hall d hd ⟨-, hcolumn⟩
      obtain ⟨i, hm, hcomplete, hlook, -⟩ := reduces hd hcolumn
      exact hall i hm hcomplete hlook
  · obtain ⟨i, -, -, -, k, hk⟩ := reduces (mem_of_lastOn haccept) rfl
    cases hk

/-- The log of a finished filling. -/
theorem Automaton.Canonical.follows (hc : a.Canonical g F)
    (hb : Table.build policy g classes g.start a = .ok table) :
    table.Follows policy (g.tableSource classes) a.visits := by
  have hsource : a.source g classes g.start = g.tableSource classes := by
    rw [Automaton.source, hc.start, Grammar.tableSource]
  have known : ∀ state ∈ a.states, ∀ i ∈ state.items, (a.source g classes g.start).Knows i := by
    intro state hs i hi hn hacc
    obtain ⟨p, hp⟩ := List.mem_iff_getElem?.1 hs
    have h := hc.isItem hp i hi
    rw [hsource, h.accepts_iff] at hacc
    exact h.mem_pairs hacc
  have hends := Table.ends_build policy known
  rw [hb, hsource] at hends
  exact hends

end Demands

/-! ## The cell -/

section Cell

variable {g : Grammar} {a : Automaton} {F : List Symbol → SymbolSet} {strategy : FirstStrategy}
  {policy : ConflictPolicy} {table : Table} {classes : SymbolClasses} {first last : State}
  {rest : List Item} {t : Nat}

theorem State.contested_iff (hitems : last.items = g.acceptItem :: rest)
    (hnodup : (g.acceptItem :: rest).Nodup) : last.Contested g ↔
      ¬ ∀ i ∈ rest, i.isComplete = true → i.lookahead ≠ endMarker := by
  constructor
  · rintro ⟨i, hi, hcomplete, hlook, hne⟩ hall
    rw [hitems] at hi
    exact hall i ((List.mem_cons.1 hi).resolve_left hne) hcomplete hlook
  · intro hall
    by_contra hnot
    refine hall fun i hi hcomplete hlook => hnot ⟨i, ?_, hcomplete, hlook, ?_⟩
    · rw [hitems]
      exact List.mem_cons_of_mem _ hi
    · rintro rfl
      exact (List.nodup_cons.1 hnodup).1 hi

/-- Acceptance is demanded first, so it stands if nothing else is demanded. -/
theorem Automaton.Canonical.action_endMarker (hc : a.Canonical g F)
    (hlast : a.states[t]? = some last) (hitems : last.items = g.acceptItem :: rest)
    (hb : Table.build policy g classes g.start a = .ok table) : table.action.get? t endMarker =
      (lastOn ((g.tableSource classes).actions (rest.map (last, ·))) last.index endMarker).or
        (some .accept) := by
  have hsplit : (g.tableSource classes).actions ((g.acceptItem :: rest).map (last, ·)) =
      [⟨last.index, endMarker, .accept⟩] ++ (g.tableSource classes).actions (rest.map (last, ·)) :=
    TableSource.actions_cons Grammar.actionDemand?_acceptItem
  rw [(hc.follows hb).action, hc.lastOn_actions hlast, hitems, hsplit, lastOn_append,
    lastOn_singleton, if_pos ⟨hc.index hlast, rfl⟩, hc.index hlast]

/-- The only cell in which a table can accept, and when it does. -/
theorem Grammar.action_eq_accept_iff (wf : g.WellFormed) (hcl : classes.Of g)
    (h0 : (g.automaton strategy).states[0]? = some first)
    (ht : first.target? g.start = some (t : Int))
    (hlast : (g.automaton strategy).states[t]? = some last)
    (hb : Table.build policy g classes g.start (g.automaton strategy) = .ok table)
    (q : Int) (x : Symbol) : table.action.get? q x = some .accept ↔
      q = t ∧ x = endMarker ∧ ¬ last.Contested g := by
  obtain ⟨F, hc⟩ := g.exists_canonical strategy
  have hi : g.acceptItem ∈ last.items := (hc.mem_acceptItem_iff wf h0 ht hlast).2 rfl
  obtain ⟨rest, hitems, hnodup⟩ := head_of_accepting wf hlast hi
  have hitem : ∀ i ∈ rest, g.IsItem i := fun i hi =>
    hc.isItem hlast i (hitems ▸ List.mem_cons_of_mem _ hi)
  have hne : ∀ i ∈ rest, i ≠ g.acceptItem := by
    rintro i hi rfl
    exact (List.nodup_cons.1 hnodup).1 hi
  obtain ⟨hnone, hnever⟩ := Grammar.lastOn_endMarker classes last wf hitem hne
  have hcell := hc.action_endMarker hlast hitems hb
  rw [State.contested_iff hitems hnodup, ← hnone, Decidable.not_not]
  constructor
  · intro h
    obtain ⟨p, rfl, state, i, hp, hi, hasks⟩ := (hc.serves wf hcl hb).sound q (.action x .accept) h
    cases hasks with
    | accept hn hl =>
      obtain rfl := (hc.isItem hp i hi).eq_acceptItem hn hl
      obtain rfl := (hc.mem_acceptItem_iff wf h0 ht hp).1 hi
      refine ⟨rfl, rfl, ?_⟩
      rw [hcell] at h
      cases hdemanded : lastOn ((g.tableSource classes).actions (rest.map (last, ·))) last.index
          endMarker with
      | none => rfl
      | some act =>
        rw [hdemanded] at h hnever
        exact absurd h hnever
  · rintro ⟨rfl, rfl, h⟩
    rw [hcell, h]
    rfl

/-- What a cell shows is acceptance if the ACTION part accepts there: no GOTO entry is in the
way. -/
theorem Table.Serves.cell_eq_accept_iff (wf : g.WellFormed) (hs : table.Serves policy g a) (q : Int)
    (x : Symbol) : table.cell q x = .action .accept ↔ table.action.get? q x = some .accept := by
  unfold Table.cell
  cases hgoto : table.goto.get? q x with
  | none => cases haction : table.action.get? q x <;> simp
  | some target =>
    refine iff_of_false (by simp) fun haction => ?_
    obtain ⟨p, -, state, i, hp, hi, hasks⟩ := hs.sound q (.goto x target) hgoto
    obtain ⟨p', -, state', i', hp', hi', hasks'⟩ := hs.sound q (.action x .accept) haction
    cases hasks with
    | goto hx hn ht =>
      cases hasks' with
      | accept => exact wf.endMarker (Grammar.mem_symbols.2 (.inl hn))

end Cell

/-- **The accept cell.**  In the automaton of a grammar text, under either strategy, the completed
start item with the end marker as its lookahead stands in one state only, the one that the start
symbol leads to from state 0.  In a table filled from it `acc` stands nowhere but in the end marker
cell of that state, and there if and only if no other item of the state is complete with the end
marker as its lookahead.  So a table filled under the error policy has exactly one accept cell;
under the overwriting policy there always is a table, and it has none exactly if there is such an
item. -/
theorem accept_cell_of_read {text : String} {listing : Listing}
    (h : Listing.read text = .ok listing) (strategy : FirstStrategy) :
    ∃ (t : Nat) (first last : State),
      (listing.automaton strategy).states[0]? = some first ∧
      first.target? listing.start = some (t : Int) ∧
      (listing.automaton strategy).states[t]? = some last ∧
      (∀ (p : Nat) (state : State), (listing.automaton strategy).states[p]? = some state →
        (listing.acceptItem ∈ state.items ↔ p = t)) ∧
      (∀ policy b, build text ⟨policy, strategy⟩ = .ok b → ∀ q x,
        (b.table.action.get? q x = some .accept ↔
          q = t ∧ x = endMarker ∧ ¬ last.Contested listing.toGrammar) ∧
        (b.table.cell q x = .action .accept ↔
          q = t ∧ x = endMarker ∧ ¬ last.Contested listing.toGrammar)) ∧
      (∀ b, build text ⟨.error, strategy⟩ = .ok b →
        ∃! place : Int × Symbol, b.table.cell place.1 place.2 = .action .accept) ∧
      ∃ b, build text ⟨.overwrite, strategy⟩ = .ok b ∧
        ((∀ q x, b.table.cell q x ≠ .action .accept) ↔ last.Contested listing.toGrammar) := by
  have wf := wellFormed_of_read h
  have hcl := classes_of_read h
  obtain ⟨F, hc⟩ := listing.exists_canonical strategy
  obtain ⟨first, h0, -⟩ := hc.initial
  obtain ⟨t, last, ht, hlast, hi⟩ := hc.exists_target_start h0
  have cells : ∀ policy b, build text ⟨policy, strategy⟩ = .ok b →
      b.table.Serves policy listing.toGrammar (listing.automaton strategy) ∧ ∀ q x,
      (b.table.action.get? q x = some .accept ↔
        q = t ∧ x = endMarker ∧ ¬ last.Contested listing.toGrammar) ∧
      (b.table.cell q x = .action .accept ↔
        q = t ∧ x = endMarker ∧ ¬ last.Contested listing.toGrammar) := by
    intro policy b hb
    obtain ⟨listing', table, hread, htable, rfl⟩ := exists_table_of_build hb
    obtain rfl := Except.ok.inj (h.symm.trans hread)
    have hserves := hc.serves wf hcl htable
    refine ⟨hserves, fun q x => ?_⟩
    have haction := Grammar.action_eq_accept_iff wf hcl h0 ht hlast htable q x
    exact ⟨haction, (hserves.cell_eq_accept_iff wf q x).trans haction⟩
  refine ⟨t, first, last, h0, ht, hlast, fun p state hp => hc.mem_acceptItem_iff wf h0 ht hp,
    fun policy b hb => (cells policy b hb).2, fun b hb => ?_, ?_⟩
  · obtain ⟨hserves, hcells⟩ := cells .error b hb
    -- the completed start item demands acceptance, and under the error policy demands stand
    have hstands := hserves.stands rfl t endMarker .accept ⟨last, _, hlast, hi, .accept rfl rfl⟩
    have hfree := ((hcells t endMarker).1.1 hstands).2.2
    refine ⟨(t, endMarker), (hcells t endMarker).2.2 ⟨rfl, rfl, hfree⟩, ?_⟩
    rintro ⟨q, x⟩ hcell
    obtain ⟨rfl, rfl, -⟩ := (hcells q x).2.1 hcell
    rfl
  · rcases build_of_read ⟨.overwrite, strategy⟩ h with ⟨b, hb, -⟩ | ⟨hp, -⟩
    · refine ⟨b, hb, ?_⟩
      obtain ⟨-, hcells⟩ := cells .overwrite b hb
      constructor
      · intro hnone
        by_contra hfree
        exact hnone t endMarker ((hcells t endMarker).2.2 ⟨rfl, rfl, hfree⟩)
      · intro hcontested q x hcell
        exact ((hcells q x).2.1 hcell).2.2 hcontested
    · cases hp

/-- A start symbol that derives itself: reducing by that production takes the place of accepting. -/
theorem accept_cell_of_read_contested :
    let text := "S -> S | a"
    ∃ listing b, Listing.read text = .ok listing ∧
      build text ⟨.overwrite, .guarded⟩ = .ok b ∧
      b.table.cell 1 endMarker = .action (.reduce 0) ∧
      ∀ q x, b.table.cell q x ≠ .action .accept := by
  intro text
  have hstates : (Listing.read text).toOption.map (fun l =>
      ((l.automaton .guarded).states[0]?.bind (·.target? l.start),
        (l.automaton .guarded).states[1]?.map fun s => decide (s.Contested l.toGrammar))) =
        some (some 1, some true) := by decide +kernel
  have htable : (build text ⟨.overwrite, .guarded⟩).toOption.map (·.table.cell 1 endMarker) =
      some (.action (.reduce 0)) := by decide +kernel
  obtain ⟨listing, hl, hfacts⟩ := exists_ok_of_toOption hstates
  obtain ⟨hzero, hone⟩ := Prod.mk.inj hfacts
  obtain ⟨b, hb, hcell⟩ := exists_ok_of_toOption htable
  obtain ⟨t, first, last, h0, ht, hlast, -, -, -, b', hb', hnone⟩ :=
    accept_cell_of_read hl .guarded
  obtain rfl := Except.ok.inj (hb.symm.trans hb')
  rw [h0] at hzero
  have hstart : first.target? listing.start = some 1 := hzero
  obtain rfl : t = 1 := Int.ofNat.inj (Option.some.inj (ht.symm.trans hstart))
  rw [hlast] at hone
  have hcontested : last.Contested listing.toGrammar :=
    of_decide_eq_true (Option.some.inj hone)
  exact ⟨listing, b, hl, hb, hcell, hnone.2 hcontested⟩

end CanonicalLR
