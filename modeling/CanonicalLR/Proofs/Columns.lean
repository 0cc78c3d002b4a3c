import CanonicalLR.Proofs.Failures

/-!
# Entries and columns

The columns of a table and its number of rows stand before the first entry is made, and filling the
table leaves them alone.  Nor does an entry depend on them: it depends on what the items of the
states demand (`build_of_same_demands`), and a demand depends on the symbol classes only as far as
to which class a symbol belongs.  Hence tables filled from classes with the same members hold the
same entries (`build_of_same_members`), and the columns of a finished table are the classes of its
listing (`columns_of_build`).
-/

namespace CanonicalLR

/-- Symbol classes with the same members, in any order. -/
structure SymbolClasses.SameMembers (classes classes' : SymbolClasses) : Prop where
  terminals : ∀ x, x ∈ classes'.terminals ↔ x ∈ classes.terminals
  nonterminals : ∀ x, x ∈ classes'.nonterminals ↔ x ∈ classes.nonterminals

/-- A demand depends on the members of the classes alone. -/
theorem SymbolClasses.SameMembers.demand?_eq {classes classes' : SymbolClasses}
    (h : classes.SameMembers classes') (g : Grammar) (start augmentedStart : Symbol) (state : State)
    (item : Item) :
    (TableSource.mk g classes' start augmentedStart).demand? state item =
      (TableSource.mk g classes start augmentedStart).demand? state item := by
  have hterminal : ∀ x, classes'.terminals.contains x = classes.terminals.contains x := fun x =>
    Bool.eq_iff_iff.2 (by simpa using h.terminals x)
  have hnonterminal : ∀ x, classes'.nonterminals.contains x = classes.nonterminals.contains x :=
    fun x => Bool.eq_iff_iff.2 (by simpa using h.nonterminals x)
  simp only [TableSource.demand?, TableSource.isToken, hterminal, hnonterminal]
  rfl

namespace Table

/-- The entries of a table with the columns and the number of rows of another one. -/
def withFrame (table frame : Table) : Table :=
  { frame with action := table.action, goto := table.goto }

variable {policy : ConflictPolicy} {source source' : TableSource} {states : List State}
  {table frame : Table}

theorem enter_withFrame (q : Int) (x : Symbol) (act : Action) :
    (table.withFrame frame).enter policy q x act =
      (table.enter policy q x act).map (·.withFrame frame) := by
  unfold enter
  cases policy with
  | overwrite => rfl
  | error =>
    cases hget : table.action.get? q x with
    | none => simp only [withFrame, hget]; rfl
    | some existing =>
      simp only [withFrame, hget]
      by_cases hsame : existing = act
      · simp only [if_pos hsame]; rfl
      · simp only [if_neg hsame]; rfl

theorem meet_withFrame {state : State} {item : Item}
    (h : source'.demand? state item = source.demand? state item) :
    (table.withFrame frame).meet policy source' state item =
      (table.meet policy source state item).map (·.withFrame frame) := by
  unfold meet
  rw [h]
  cases source.demand? state item with
  | error e => rfl
  | ok demand =>
    match demand with
    | none => rfl
    | some (.action x act) => exact enter_withFrame state.index x act
    | some (.goto x target) => rfl

theorem meetAll_withFrame {state : State} {items : List Item}
    (h : ∀ item ∈ items, source'.demand? state item = source.demand? state item) :
    (table.withFrame frame).meetAll policy source' state items =
      (table.meetAll policy source state items).map (·.withFrame frame) := by
  induction items generalizing table with
  | nil => rfl
  | cons item rest ih =>
    rw [List.forall_mem_cons] at h
    rw [meetAll, meetAll, meet_withFrame h.1]
    cases table.meet policy source state item with
    | error e => rfl
    | ok next => exact ih h.2

/-- The entries depend on the demands of the items that are there. -/
theorem fill_withFrame (h : ∀ state ∈ states, ∀ item ∈ state.items,
    source'.demand? state item = source.demand? state item) :
    fill policy source' (table.withFrame frame) states =
      (fill policy source table states).map (·.withFrame frame) := by
  induction states generalizing table with
  | nil => rfl
  | cons state rest ih =>
    rw [List.forall_mem_cons] at h
    have hopen : (table.withFrame frame).openRows state =
        (table.openRows state).withFrame frame := rfl
    rw [fill, fill, hopen, meetAll_withFrame h.1]
    cases (table.openRows state).meetAll policy source state state.items with
    | error e => rfl
    | ok next => exact ih h.2

/-- Filling a table leaves its columns and its number of rows alone. -/
theorem withFrame_of_fill {last : Table} (h : fill policy source table states = .ok last) :
    last.withFrame table = last := by
  have hself : fill policy source table states =
      (fill policy source table states).map (·.withFrame table) :=
    fill_withFrame fun _ _ _ _ => rfl
  rw [h] at hself
  exact (Except.ok.inj hself).symm

/-- The same demands give the same entries, or the same error. -/
theorem build_of_same_demands {g g' : Grammar} {classes classes' : SymbolClasses}
    {start start' : Symbol} {a : Automaton}
    (h : ∀ state ∈ a.states, ∀ item ∈ state.items,
      (TableSource.mk g' classes' start' a.augmentedStart).demand? state item =
        (TableSource.mk g classes start a.augmentedStart).demand? state item) :
    build policy g' classes' start' a = (build policy g classes start a).map fun table =>
      { table with terminals := classes'.terminals, nonterminals := classes'.nonterminals } := by
  let frame : Table :=
    ⟨.empty, .empty, classes'.terminals, classes'.nonterminals, a.states.length⟩
  let first : Table := ⟨.empty, .empty, classes.terminals, classes.nonterminals, a.states.length⟩
  have hfill : build policy g' classes' start' a =
      (build policy g classes start a).map (·.withFrame frame) := by
    show fill policy _ (first.withFrame frame) a.states = (fill policy _ first a.states).map _
    exact fill_withFrame h
  rw [hfill]
  cases hb : build policy g classes start a with
  | error e => rfl
  | ok table =>
    -- the rows are those of the automaton on both sides
    have hkept : table.withFrame first = table := withFrame_of_fill hb
    have hrows : frame.stateCount = table.stateCount := (congrArg Table.stateCount hkept :)
    show Except.ok (table.withFrame frame) = .ok _
    rw [withFrame, hrows]

/-- Classes with the same members give the same entries, or the same error. -/
theorem build_of_same_members {g : Grammar} {classes classes' : SymbolClasses} {start : Symbol}
    {a : Automaton} (h : classes.SameMembers classes') :
    build policy g classes' start a = (build policy g classes start a).map fun table =>
      { table with terminals := classes'.terminals, nonterminals := classes'.nonterminals } :=
  build_of_same_demands fun state _ item _ => h.demand?_eq g start a.augmentedStart state item

/-- The columns and the number of rows of a finished table. -/
theorem frame_of_build {g : Grammar} {classes : SymbolClasses} {start : Symbol} {a : Automaton}
    (h : build policy g classes start a = .ok table) : table.terminals = classes.terminals ∧
      table.nonterminals = classes.nonterminals ∧ table.stateCount = a.states.length := by
  have hframe := withFrame_of_fill h
  exact ⟨(congrArg Table.terminals hframe).symm, (congrArg Table.nonterminals hframe).symm,
    (congrArg Table.stateCount hframe).symm⟩

end Table

/-- The columns of a finished table are the symbol classes of its listing, and it has a row for each
state. -/
theorem columns_of_build {text : String} {config : Config} {b : Build}
    (h : build text config = .ok b) : b.table.terminals = b.listing.classes.terminals ∧
      b.table.nonterminals = b.listing.classes.nonterminals ∧
      b.table.stateCount = b.automaton.states.length := by
  obtain ⟨listing, table, -, htable, rfl⟩ := exists_table_of_build h
  exact Table.frame_of_build htable

end CanonicalLR
