import CanonicalLR.Proofs.CellTexts
import CanonicalLR.Proofs.Columns
import CanonicalLR.Service.Endpoint

/-!
# The two endpoints together

A client that asks both endpoints about one grammar text combines their answers.  They refuse the
same texts, with the same answer; where neither refuses, the numbers in the table of the one are
those of the productions of the other, and its rows are the states of the automaton (`Agree`).

Everything is said of the answers as a client sees them, JSON values and nothing else.  No two cells
look alike (`Cell.view_injective`), so what a cell shows is what the table holds.  A request is left
without an answer only if its grammar text holds a surrogate (`exists_surrogate_of_answer`).
-/

namespace CanonicalLR

/-! ## Values in answers -/

theorem Text.points_inj {s t : String} : points s = points t ↔ s = t := by
  refine ⟨fun h => Option.some.inj ?_, congrArg points⟩
  rw [← ofPoints?_points s, h, ofPoints?_points]

namespace Json

@[simp] theorem string_inj {s t : String} : string s = string t ↔ s = t := by
  rw [string, string, Json.text.injEq, Text.points_inj]

/-- The items of a list; other values have none. -/
def items : Json → List Json
  | list items => items
  | _ => []

theorem field?_record {fields : Entries String Json} {name : String} :
    (record fields).field? name = fields.lookup name := by
  show (fields.map fun entry => (Text.points entry.1, entry.2)).lookup (Text.points name) = _
  induction fields with
  | nil => rfl
  | cons entry fields ih =>
    rw [List.map_cons, List.lookup_cons, List.lookup_cons, ih]
    by_cases h : name = entry.1
    · simp [h]
    · have hpoints : Text.points name ≠ Text.points entry.1 := fun e => h (Text.points_inj.1 e)
      rw [beq_eq_false_iff_ne.2 h, beq_eq_false_iff_ne.2 hpoints]

/-- A field of an object, found by comparing names one after the other. -/
@[simp] theorem field_cons {name name' : String} {value : Json} {fields : Entries String Json} :
    (record ((name', value) :: fields)).field name =
      if name = name' then value else (record fields).field name := by
  rw [field, field, field?_record, field?_record, Entries.lookup_cons]
  split <;> rfl

end Json

/-- No two cells look alike. -/
theorem Cell.view_injective {a b : Cell} (h : a.view = b.view) : a = b := by
  cases a with
  | goto target =>
    cases b with
    | goto target' => rw [Json.int.inj h]
    | _ => cases h
  | _ =>
    cases b with
    | goto => cases h
    | _ => exact render_injective (Json.string_inj.1 h)

/-! ## What a client sees -/

/-- Whether a table shows a value in the row of a state and the column of a symbol. -/
def Json.ShowsCell (table : Json) (q : Nat) (x : Symbol) (value : Json) : Prop :=
  ∃ (column : Nat) (row : Json), (table.field "rows").items[q]? = some row ∧
    row.items[column]? = some value ∧ (table.field "columns").items[column]? = some (.string x)

/-- Whether an item is that of a production with the dot at its end. -/
structure Json.CompleteItem (item rule : Json) : Prop where
  lhs : item.field "non_terminal" = rule.field "lhs"
  rhs : item.field "production" = rule.field "rhs"
  dot : item.field "dot" = .int (rule.field "rhs").items.length

/-- What the answer with the productions of a grammar and the answer with its table say together. -/
structure Json.Agree (parsed built : Json) : Prop where
  start : built.field "start_symbol" = parsed.field "start_symbol"
  columns : ((built.field "table").field "columns").items =
    (parsed.field "terminals").items ++ .string endMarker :: (parsed.field "non_terminals").items
  rows : ((built.field "table").field "rows").items.length =
    ((built.field "automaton").field "states").items.length
  cells : ∀ row ∈ ((built.field "table").field "rows").items,
    row.items.length = ((built.field "table").field "columns").items.length
  number : ∀ (k : Nat) (rule : Json), (parsed.field "productions").items[k]? = some rule →
    rule.field "id" = .int k
  index : ∀ (q : Nat) (state : Json),
    ((built.field "automaton").field "states").items[q]? = some state →
    state.field "index" = .int q
  reduce : ∀ (q : Nat) (x : Symbol) (k : Int),
    (built.field "table").ShowsCell q x (.string ("r" ++ toString k)) →
    ∃ (n : Nat) (rule state item : Json), k = n ∧
      (parsed.field "productions").items[n]? = some rule ∧
      ((built.field "automaton").field "states").items[q]? = some state ∧
      item ∈ (state.field "items").items ∧ item.CompleteItem rule ∧
      item.field "lookahead" = .string x
  move : ∀ (q : Nat) (x : Symbol) (target : Int),
    (built.field "table").ShowsCell q x (.string ("s" ++ toString target)) ∨
      (built.field "table").ShowsCell q x (.int target) →
    ∃ state, ((built.field "automaton").field "states").items[q]? = some state ∧
      (state.field "transitions").field? x = some (.int target)

section Views

variable {table : Table} {q : Nat} {x : Symbol} {value : Json}

theorem items_rows_view :
    (table.view.field "rows").items = table.rows.map fun row => .list (row.map Cell.view) := by
  simp [Table.view, Json.items]

theorem items_columns_view :
    (table.view.field "columns").items = table.columns.map Json.string := by
  simp [Table.view, Json.items, Json.strings]

theorem getElem?_rows_view {row : Json} : (table.view.field "rows").items[q]? = some row ↔
    q < table.stateCount.toNat ∧ .list ((table.row q).map Cell.view) = row := by
  rw [items_rows_view, Table.rows, List.map_map, List.getElem?_map, Table.states]
  by_cases hq : q < table.stateCount.toNat
  · rw [List.getElem?_range hq]
    simp [hq]
  · rw [List.getElem?_eq_none (by simpa using hq)]
    simp [hq]

theorem getElem?_columns_view {column : Nat} :
    (table.view.field "columns").items[column]? = some (.string x) ↔
      table.columns[column]? = some x := by
  rw [items_columns_view, List.getElem?_map, Option.map_eq_some_iff]
  simp

/-- A view shows the cells of its states and columns, each with its own value. -/
theorem showsCell_view_iff : table.view.ShowsCell q x value ↔
    q < table.stateCount.toNat ∧ x ∈ table.columns ∧ (table.cell q x).view = value := by
  have hcell : ∀ {column : Nat}, table.columns[column]? = some x →
      ((table.row q).map Cell.view)[column]? = some (table.cell q x).view := by
    intro column hx
    rw [Table.row, List.map_map, List.getElem?_map, hx]
    rfl
  constructor
  · rintro ⟨column, row, hrow, hvalue, hcolumn⟩
    obtain ⟨hq, rfl⟩ := getElem?_rows_view.1 hrow
    have hx := getElem?_columns_view.1 hcolumn
    exact ⟨hq, List.mem_of_getElem? hx, Option.some.inj ((hcell hx).symm.trans hvalue)⟩
  · rintro ⟨hq, hx, rfl⟩
    obtain ⟨column, hcolumn⟩ := List.mem_iff_getElem?.1 hx
    exact ⟨column, _, getElem?_rows_view.2 ⟨hq, rfl⟩, hcell hcolumn,
      getElem?_columns_view.2 hcolumn⟩

/-- What a cell shows tells what it is. -/
theorem cell_of_showsCell {cell : Cell} (h : table.view.ShowsCell q x cell.view) :
    table.cell q x = cell := by
  obtain ⟨-, -, hview⟩ := showsCell_view_iff.1 h
  exact Cell.view_injective hview

theorem action_of_cell {q : Int} {act : Action} (h : table.cell q x = .action act) :
    table.action.get? q x = some act := by
  unfold Table.cell at h
  split at h
  · cases h
  · split at h
    · next found hget =>
      cases h
      exact hget
    · cases h

theorem goto_of_cell {q target : Int} (h : table.cell q x = .goto target) :
    table.goto.get? q x = some target := by
  unfold Table.cell at h
  split at h
  · next found hget =>
    cases h
    exact hget
  · split at h <;> cases h

theorem completeItem_view {item : Item} {rule : Rule} (hl : item.lhs = rule.lhs)
    (hr : item.rhs = rule.rhs) (hd : item.dot = rule.rhs.length) :
    item.view.CompleteItem rule.view := by
  constructor
  case lhs => simp [Item.view, Rule.view, hl]
  case rhs => simp [Item.view, Rule.view, hr]
  case dot => simp [Item.view, Rule.view, Json.items, Json.strings, hd]

theorem transition_view {state : State} {target : Int} (h : state.target? x = some target) :
    (state.view.field "transitions").field? x = some (.int target) := by
  have hfield : state.view.field "transitions" =
      .record (state.transitions.map fun move => (move.1, .int move.2)) := by
    simp [State.view]
  rw [hfield, Json.field?_record, Entries.lookup_map]
  exact congrArg (Option.map Json.int) h

end Views

section Answers

variable {text : String} {config : Config} {b : Build}

/-- In the automaton of a grammar a dot does not stand past the end. -/
theorem dot_le_of_build (h : build text config = .ok b) {state : State} {i : Item}
    (hs : state ∈ b.automaton.states) (hi : i ∈ state.items) : i.dot ≤ i.rhs.length := by
  have hauto := (serves_of_build h).2.1
  rw [hauto] at hs
  cases isListed_of_read (read_of_build h) config.firstStrategy state hs i hi with
  | start hl hr hd => simpa [hr] using hd
  | rule _ hd => exact hd

/-- A state that a cell leads to is the target of a transition. -/
theorem target_of_cell (h : build text config = .ok b) {q : Nat} {x : Symbol} {target : Int}
    (hcell : b.table.cell q x = .action (.shift target) ∨ b.table.cell q x = .goto target) :
    ∃ state, b.automaton.states[q]? = some state ∧ state.target? x = some target := by
  obtain ⟨-, -, hserves⟩ := serves_of_build h
  rcases hcell with hcell | hcell
  · obtain ⟨p, hp, state, i, hstate, -, hasks⟩ :=
      hserves.sound q (.action x (.shift target)) (action_of_cell hcell)
    obtain rfl : q = p := Int.ofNat.inj hp
    cases hasks with
    | shift _ _ ht => exact ⟨state, hstate, ht⟩
  · obtain ⟨p, hp, state, i, hstate, -, hasks⟩ :=
      hserves.sound q (.goto x target) (goto_of_cell hcell)
    obtain rfl : q = p := Int.ofNat.inj hp
    cases hasks with
    | goto _ _ ht => exact ⟨state, hstate, ht⟩

/-- A production that a cell reduces by has a complete item in the state. -/
theorem complete_of_cell (h : build text config = .ok b) {q : Nat} {x : Symbol} {k : Int}
    (hcell : b.table.cell q x = .action (.reduce k)) :
    ∃ (n : Nat) (rule : Rule) (state : State) (i : Item), k = n ∧
      b.listing.flattened[n]? = some rule ∧ b.automaton.states[q]? = some state ∧
      i ∈ state.items ∧ i.lookahead = x ∧ i.lhs = rule.lhs ∧ i.rhs = rule.rhs ∧
      i.dot = rule.rhs.length := by
  obtain ⟨p, n, state, i, rule, hq, hk, -, hrule, hstate, hi, hcomplete, hlook, hl, hr⟩ :=
    reduce_of_build h (action_of_cell hcell)
  obtain rfl : q = p := Int.ofNat.inj hq
  have hle := dot_le_of_build h (List.mem_of_getElem? hstate) hi
  have hge : i.rhs.length ≤ i.dot := of_decide_eq_true hcomplete
  exact ⟨n, rule, state, i, hk, hrule, hstate, hi, hlook, hl, hr, hr ▸ hle.antisymm hge⟩

/-- The answers to a text that has a table fit together. -/
theorem agree_of_build (h : build text config = .ok b) :
    Json.Agree (Response.ofListing b.listing).body (Response.ofBuild b).body := by
  have htable : (Response.ofBuild b).body.field "table" = b.table.view := by
    simp [Response.ofBuild]
  have hstates : (((Response.ofBuild b).body.field "automaton").field "states").items =
      b.automaton.states.map State.view := by
    simp [Response.ofBuild, Automaton.view, Json.items]
  have hproductions : ((Response.ofListing b.listing).body.field "productions").items =
      b.listing.flattened.map Rule.view := by
    simp [Response.ofListing, Json.items]
  constructor
  case start => simp [Response.ofListing, Response.ofBuild]
  case columns =>
    obtain ⟨hterminals, hnonterminals, -⟩ := columns_of_build h
    rw [htable, items_columns_view]
    simp [Table.columns, Table.actionColumns, hterminals, hnonterminals, Response.ofListing,
      Json.items, Json.strings]
  case rows =>
    obtain ⟨-, -, hcount⟩ := columns_of_build h
    rw [htable, items_rows_view, hstates]
    simp [Table.rows, Table.states, hcount]
  case cells =>
    intro row hrow
    rw [htable, items_rows_view] at hrow
    obtain ⟨cells, hcells, rfl⟩ := List.mem_map.1 hrow
    obtain ⟨q, -, rfl⟩ := List.mem_map.1 hcells
    rw [htable, items_columns_view]
    simp [Table.row, Json.items]
  case number =>
    intro k rule hrule
    rw [hproductions, List.getElem?_map, Option.map_eq_some_iff] at hrule
    obtain ⟨rule, hk, rfl⟩ := hrule
    rw [Grammar.flattened_getElem?, Option.map_eq_some_iff] at hk
    obtain ⟨pair, -, rfl⟩ := hk
    simp [Rule.view]
  case index =>
    intro q state hstate
    rw [hstates, List.getElem?_map, Option.map_eq_some_iff] at hstate
    obtain ⟨state, hq, rfl⟩ := hstate
    obtain ⟨F, hcanonical⟩ := b.listing.exists_canonical config.firstStrategy
    rw [(serves_of_build h).2.1] at hq
    simp [State.view, hcanonical.index hq]
  case reduce =>
    intro q x k hshown
    rw [htable] at hshown
    have hcell : b.table.cell q x = .action (.reduce k) := cell_of_showsCell hshown
    obtain ⟨n, rule, state, i, hk, hrule, hstate, hi, hlook, hl, hr, hdot⟩ :=
      complete_of_cell h hcell
    refine ⟨n, rule.view, state.view, i.view, hk, ?_, ?_, ?_, completeItem_view hl hr hdot, ?_⟩
    · rw [hproductions, List.getElem?_map, hrule, Option.map_some]
    · rw [hstates, List.getElem?_map, hstate, Option.map_some]
    · have hitems : (state.view.field "items").items = state.items.map Item.view := by
        simp [State.view, Json.items]
      rw [hitems]
      exact List.mem_map_of_mem hi
    · simp [Item.view, hlook]
  case move =>
    intro q x target hshown
    rw [htable] at hshown
    have hcell : b.table.cell q x = .action (.shift target) ∨ b.table.cell q x = .goto target :=
      hshown.imp cell_of_showsCell cell_of_showsCell
    obtain ⟨state, hstate, htarget⟩ := target_of_cell h hcell
    refine ⟨state.view, ?_, transition_view htarget⟩
    rw [hstates, List.getElem?_map, hstate, Option.map_some]

/-! ## Requests -/

/-- Whether a request carries a grammar text, which is not the empty one. -/
structure Json.Carries (body : Json) (text : String) : Prop where
  grammar : body.field "grammar" = .string text
  ne_empty : text ≠ ""

/-- The configuration that a request chooses, with the choices of the service where it makes
none. -/
def ServiceDefaults.chosen (defaults : ServiceDefaults) (body : Json) : Except ConfigError Config :=
  Config.read ((body.field "conflict_policy").orElse defaults.conflictPolicy)
    ((body.field "first_strategy").orElse defaults.firstStrategy)

variable {defaults : ServiceDefaults} {body : Json}

/-- A request that carries a grammar is an object that is not void. -/
theorem Json.Carries.exists_object (h : body.Carries text) :
    ∃ fields, body = .object fields ∧ body.isVoid = false := by
  have hgrammar := h.grammar
  cases body with
  | object fields =>
    refine ⟨fields, rfl, ?_⟩
    cases fields with
    | nil => cases hgrammar
    | cons => rfl
  | _ => cases hgrammar

theorem Json.isVoid_string_eq_false (h : text ≠ "") : (Json.string text).isVoid = false := by
  rw [Json.string, Json.isVoid, Text.points, List.isEmpty_eq_false_iff, ne_eq, List.map_eq_nil_iff]
  simpa using h

@[simp] theorem answerText_string {answerTo : String → Response} :
    answerText answerTo (.string text) = some (answerTo text) := by
  rw [Json.string, answerText, Text.ofPoints?_points, Option.map_some]

theorem answer_parseGrammar (h : body.Carries text) :
    answer defaults .parseGrammar body = some (answerParse text) := by
  obtain ⟨fields, rfl, hvoid⟩ := h.exists_object
  have hgrammar := Json.isVoid_string_eq_false h.ne_empty
  simp [answer, hvoid, h.grammar, hgrammar]

theorem answer_buildParseTable (h : body.Carries text)
    (hconfig : defaults.chosen body = .ok config) :
    answer defaults .buildParseTable body = some (answerBuild config text) := by
  obtain ⟨fields, rfl, hvoid⟩ := h.exists_object
  have hgrammar := Json.isVoid_string_eq_false h.ne_empty
  rw [ServiceDefaults.chosen] at hconfig
  simp [answer, hvoid, h.grammar, hgrammar, hconfig]

/-- A body that says nothing has as many fields as the empty object. -/
theorem Json.field_of_isVoid (body : Json) (name : String) :
    (if body.isVoid then .object [] else body).field name = body.field name := by
  split
  · next hvoid =>
    cases body with
    | object fields => rw [List.isEmpty_iff.1 hvoid]
    | _ => rfl
  · rfl

theorem exists_surrogate_of_answerText {answerTo : String → Response} {grammar : Json}
    (h : answerText answerTo grammar = none) :
    ∃ points offset, grammar = .text points ∧ .surrogate offset ∈ points := by
  cases grammar with
  | text points =>
    obtain ⟨offset, hmem⟩ := Text.exists_surrogate_of_ofPoints? (Option.map_eq_none_iff.1 h)
    exact ⟨points, offset, rfl, hmem⟩
  | _ => cases h

/-- Only a surrogate in the grammar text leaves a request without an answer. -/
theorem exists_surrogate_of_answer {endpoint : Endpoint}
    (h : answer defaults endpoint body = none) :
    ∃ points offset, body.field "grammar" = .text points ∧ .surrogate offset ∈ points := by
  unfold answer at h
  split at h
  · next fields hbody =>
    simp only [← hbody, Json.field_of_isVoid] at h
    split at h
    · cases h
    · cases endpoint with
      | parseGrammar => exact exists_surrogate_of_answerText h
      | buildParseTable =>
        dsimp only at h
        split at h
        · cases h
        · exact exists_surrogate_of_answerText h
  · cases h

/-- What the endpoints answer to one grammar text: the same refusal, or its productions and a table
that fits them, or its productions and a conflict. -/
theorem answers_cases (text : String) (config : Config) :
    (∃ e, Listing.read text = .error e ∧ answerParse text = .ofReport e.report ∧
      answerBuild config text = .ofReport e.report) ∨
    (∃ b, build text config = .ok b ∧ answerParse text = .ofListing b.listing ∧
      answerBuild config text = .ofBuild b) ∨
    ∃ listing c, Listing.read text = .ok listing ∧ config.conflictPolicy = .error ∧
      answerParse text = .ofListing listing ∧
      answerBuild config text = .ofReport (.conflict c) := by
  rw [answerParse, answerBuild]
  cases hread : Listing.read text with
  | error e =>
    refine .inl ⟨e, rfl, rfl, ?_⟩
    rw [build_of_read_error hread]
    rfl
  | ok listing =>
    right
    rcases build_of_read config hread with ⟨b, hb, rfl, -⟩ | ⟨hstrict, c, hb, -⟩
    · exact .inl ⟨b, hb, rfl, by rw [hb]⟩
    · exact .inr ⟨listing, c, rfl, hstrict, rfl, by rw [hb]; rfl⟩

end Answers

/-- **The two endpoints tell one story.**  Two requests carry one grammar text, and the one for its
table chooses a configuration.  Both are answered.  The request for the productions is refused
exactly if the text is blank or has a malformed line, and then both have the same answer.  Otherwise
it succeeds, and so does the one for the table, or under the error policy alone it reports a
conflict.  Two answers that succeed fit together. -/
theorem endpoints_agree {defaults : ServiceDefaults} {body body' : Json} {text : String}
    {config : Config} (hparse : body.Carries text) (hbuild : body'.Carries text)
    (hconfig : defaults.chosen body' = .ok config) :
    ∃ parsed built, answer defaults .parseGrammar body = some parsed ∧
    answer defaults .buildParseTable body' = some built ∧
    (parsed.status = 400 ↔ Text.Blank text.toList ∨ Malformed text) ∧
    (parsed.status = 400 → built = parsed) ∧
    (parsed.status ≠ 400 → parsed.status = 200 ∧ (built.status = 200 ∨ built.status = 400 ∧
      built.body.field "error_type" = .string "conflict" ∧ config.conflictPolicy = .error)) ∧
    (parsed.status = 200 → built.status = 200 → parsed.body.Agree built.body) := by
  refine ⟨_, _, answer_parseGrammar hparse, answer_buildParseTable hbuild hconfig, ?_⟩
  rw [← read_eq_error_iff]
  rcases answers_cases text config with
    ⟨e, hread, hp, hb⟩ | ⟨b, hmade, hp, hb⟩ | ⟨listing, c, hread, hstrict, hp, hb⟩
  · rw [hp, hb]
    refine ⟨iff_of_true rfl ⟨e, hread⟩, fun _ => rfl, fun h => absurd rfl h, ?_⟩
    rintro ⟨⟩
  · rw [hp, hb]
    refine ⟨iff_of_false (by rintro ⟨⟩) ?_, by rintro ⟨⟩, fun _ => ⟨rfl, .inl rfl⟩,
      fun _ _ => agree_of_build hmade⟩
    rintro ⟨e, he⟩
    cases he.symm.trans (read_of_build hmade)
  · rw [hp, hb]
    refine ⟨iff_of_false (by rintro ⟨⟩) ?_, by rintro ⟨⟩, fun _ => ⟨rfl, .inr ⟨rfl, ?_, hstrict⟩⟩,
      fun _ => by rintro ⟨⟩⟩
    · rintro ⟨e, he⟩
      cases he.symm.trans hread
    · simp [Response.ofReport, Response.failure, Report.kind]

/-- One grammar, whose lines for `S` stand apart and whose empty alternative stands twice, in a
request without choices and in one with a policy in capitals.  The table reduces by production 2. -/
theorem endpoints_agree_twice :
    let text := "S -> A b\nA -> |\nS -> A b"
    let body := Json.record [("grammar", .string text)]
    let body' := Json.record [("conflict_policy", .string "ERROR"), ("grammar", .string text)]
    body.Carries text ∧ body'.Carries text ∧
    ServiceDefaults.standard.chosen body' = .ok ⟨.error, .guarded⟩ ∧
    ∃ parsed built, answer .standard .parseGrammar body = some parsed ∧
      answer .standard .buildParseTable body' = some built ∧
      parsed.status = 200 ∧ built.status = 200 ∧
      (built.body.field "table").ShowsCell 0 "b" (.string "r2") ∧
      ∃ rule state item : Json, (parsed.body.field "productions").items[2]? = some rule ∧
        ((built.body.field "automaton").field "states").items[0]? = some state ∧
        item ∈ (state.field "items").items ∧ item.CompleteItem rule ∧
        item.field "lookahead" = .string "b" := by
  intro text body body'
  have hparse : body.Carries text := ⟨by simp [body], by decide⟩
  have hbuild : body'.Carries text := ⟨by simp [body'], by decide⟩
  have hconfig : ServiceDefaults.standard.chosen body' = .ok ⟨.error, .guarded⟩ := by decide +kernel
  have htable : (build text ⟨.error, .guarded⟩).toOption.map
      (fun b => (b.table.stateCount.toNat, b.table.columns, b.table.cell 0 "b")) =
        some (4, ["b", "$", "S", "A"], .action (.reduce 2)) := by decide +kernel
  obtain ⟨b, hb, hview⟩ := exists_ok_of_toOption htable
  obtain ⟨hcount, hcolumns, hcell⟩ : b.table.stateCount.toNat = 4 ∧
      b.table.columns = ["b", "$", "S", "A"] ∧ b.table.cell 0 "b" = .action (.reduce 2) := by
    simpa using hview
  obtain ⟨parsed, built, hparsed, hbuilt, -, -, -, agree⟩ := endpoints_agree hparse hbuild hconfig
  have hok : parsed = .ofListing b.listing := by
    have hanswer := Option.some.inj (hparsed.symm.trans (answer_parseGrammar hparse))
    rw [hanswer, answerParse, read_of_build hb]
  have hok' : built = .ofBuild b := by
    have hanswer := Option.some.inj (hbuilt.symm.trans (answer_buildParseTable hbuild hconfig))
    rw [hanswer, answerBuild, hb]
  have hstatus : parsed.status = 200 := congrArg Response.status hok
  have hstatus' : built.status = 200 := congrArg Response.status hok'
  have hshown : (built.body.field "table").ShowsCell 0 "b" (.string "r2") := by
    have hfield : built.body.field "table" = b.table.view := by
      rw [hok']
      simp [Response.ofBuild]
    rw [hfield, showsCell_view_iff, hcount, hcolumns]
    exact ⟨by decide, by decide, congrArg Cell.view hcell⟩
  obtain ⟨n, rule, state, item, hn, hrule, rest⟩ :=
    (agree hstatus hstatus').reduce 0 "b" 2 hshown
  obtain rfl : 2 = n := Int.ofNat.inj hn
  exact ⟨hparse, hbuild, hconfig, parsed, built, hparsed, hbuilt, hstatus, hstatus', hshown, rule,
    state, item, hrule, rest⟩

end CanonicalLR
