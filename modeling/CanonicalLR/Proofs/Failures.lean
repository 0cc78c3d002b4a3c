import CanonicalLR.Proofs.Demands

/-!
# How a build can fail

A build ends with a result or with one of three errors, and each has its reason: the text has no
rule, a line is malformed, or, where conflicts are errors, two actions clash (`documented`).  That
no production is ever unknown is due to the form of the items (`isListed_of_read`), and for the same
reason every number of a reduction is that of a rule (`reduce_of_build`).
-/

namespace CanonicalLR

/-- The outcomes of a build that are documented, under a policy for conflicts. -/
inductive Documented (policy : ConflictPolicy) : Except BuildError Build → Prop
  | built (b : Build) : Documented policy (.ok b)
  | empty : Documented policy (.error (.text .empty))
  | malformed (number : Nat) (line : String) (fault : LineFault) :
      Documented policy (.error (.text (.malformed number line fault)))
  | conflict (c : Conflict) (strict : policy = .error) :
      Documented policy (.error (.table (.conflict c)))

/-- What the items of a grammar's automaton are: an item of the augmented start before the end
marker, or an item of a production before a terminal or the end marker. -/
inductive Listing.IsListed (listing : Listing) (i : Item) : Prop
  | start (lhs : i.lhs = listing.augmentedStart) (rhs : i.rhs = [listing.start]) (dot : i.dot ≤ 1)
      (lookahead : i.lookahead = endMarker)
  | rule (mem : (i.lhs, i.rhs) ∈ listing.productions.pairs) (dot : i.dot ≤ i.rhs.length)
      (lookahead : i.lookahead ∈ listing.classes.terminals ∨ i.lookahead = endMarker)
      (unempty : i.lookahead ≠ epsilon) (terminal : listing.isNonterminal i.lookahead = false)

/-- What an entry for a reduction in a row says: its number is that of a production, and the state
with the number of the row has a complete item of the production before the symbol of the cell. -/
def Build.Reduces (b : Build) (q : Int) (x : Symbol) (k : Int) : Prop :=
  ∃ (p n : Nat) (state : State) (i : Item) (rule : Rule), q = p ∧ k = n ∧
    n < b.listing.rules.length ∧ b.listing.flattened[n]? = some rule ∧
    b.automaton.states[p]? = some state ∧ i ∈ state.items ∧ i.isComplete = true ∧
    i.lookahead = x ∧ i.lhs = rule.lhs ∧ i.rhs = rule.rhs

section Read

variable {text : String} {listing : Listing} {strategy : FirstStrategy} {config : Config}

/-! ## Outcomes -/

theorem documented_build (text : String) (config : Config) :
    Documented config.conflictPolicy (build text config) := by
  cases h : Listing.read text with
  | error e =>
    rw [build_of_read_error h]
    cases e with
    | empty => exact .empty
    | malformed number line fault => exact .malformed number line fault
  | ok listing =>
    rcases build_of_read config h with ⟨b, hb, -⟩ | ⟨strict, c, hb, -⟩
    · rw [hb]
      exact .built b
    · rw [hb]
      exact .conflict c strict

theorem documented (text : Option String) (config : Option Config) :
    Documented (config.getD .standard).conflictPolicy (buildGiven text config) := by
  cases text with
  | none => exact .empty
  | some text => exact documented_build text (config.getD .standard)

/-- No other text than one made of blanks is refused as empty. -/
theorem build_eq_empty_iff :
    build text config = .error (.text .empty) ↔ Text.Blank text.toList := by
  rw [← read_eq_empty_iff]
  cases h : Listing.read text with
  | error e => simp [build_of_read_error h]
  | ok listing =>
    refine iff_of_false (fun hb => ?_) (by simp)
    rcases build_of_read config h with ⟨b, hok, -⟩ | ⟨-, c, herror, -⟩
    · cases hok.symm.trans hb
    · cases herror.symm.trans hb

theorem buildGiven_eq_empty_iff {text : Option String} {config : Option Config} :
    buildGiven text config = .error (.text .empty) ↔
      ∀ given, text = some given → Text.Blank given.toList := by
  cases text with
  | none => exact iff_of_true rfl (by simp)
  | some text =>
    rw [buildGiven, build_eq_empty_iff]
    simp

/-! ## Items -/

theorem isListed_of_isItem (h : Listing.read text = .ok listing) {i : Item}
    (hi : listing.IsItem i) : listing.IsListed i := by
  by_cases hl : i.lhs = listing.augmentedStart
  · obtain ⟨hrhs, hlook⟩ := hi.of_augmentedStart hl
    have hdot := hi.dot
    rw [hrhs] at hdot
    exact .start hl hrhs hdot hlook
  · have wf := wellFormed_of_read h
    have hterminals := (classes_of_read h).terminals i.lookahead
    have hmem := hi.mem_pairs hl
    rcases hi.lookahead with he | ⟨hbody, hn⟩
    · rw [he] at hterminals
      refine .rule hmem hi.dot (.inr he) (by rw [he]; decide) ?_
      rw [he, ← Bool.not_eq_true]
      exact fun hn => wf.endMarker (Grammar.mem_symbols.2 (.inl hn))
    · refine .rule hmem hi.dot (.inl (hterminals.2 ⟨hbody, hn⟩)) (fun he => ?_) hn
      exact wf.epsilon (he ▸ Grammar.mem_symbols.2 (.inr hbody))

theorem isListed_of_read (h : Listing.read text = .ok listing) (strategy : FirstStrategy) :
    ∀ state ∈ (listing.automaton strategy).states, ∀ i ∈ state.items, listing.IsListed i := by
  intro state hs i hi
  obtain ⟨F, hc⟩ := listing.exists_canonical strategy
  obtain ⟨q, hq⟩ := List.mem_iff_getElem?.1 hs
  exact isListed_of_isItem h (hc.isItem hq i hi)

/-! ## Numbers of reductions -/

/-- A listing has as many rules as its grammar has productions. -/
theorem length_rules_of_read (h : Listing.read text = .ok listing) :
    listing.rules.length = listing.flattened.length := by
  obtain ⟨first, rest, -, rfl⟩ := exists_pairs_of_read h
  have hrules := congrArg List.length
    (Productions.map_numbered (.ofPairs (first :: rest)) [] (first :: rest))
  have hpairs := (Productions.perm_pairs_ofPairs (first :: rest)).length_eq
  rw [List.length_map] at hrules
  rw [Grammar.flattened, Productions.flattened, List.length_map, List.length_zipIdx]
  exact hrules.trans hpairs.symm

theorem reduce_of_build {b : Build} (h : build text config = .ok b) {q k : Int} {x : Symbol}
    (hact : b.table.action.get? q x = some (.reduce k)) : b.Reduces q x k := by
  obtain ⟨-, -, hs⟩ := serves_of_build h
  obtain ⟨p, rfl, state, i, hp, hi, hask⟩ := hs.sound q (.action x (.reduce k)) hact
  cases hask with
  | reduce hn hk =>
    rename_i n
    have hrule := Grammar.rule?_of_ruleId? hk
    obtain ⟨rule, hflat, he⟩ := Option.map_eq_some_iff.1 hrule
    have hlt : n < b.listing.flattened.length := (List.getElem?_eq_some_iff.1 hflat).1
    rw [← length_rules_of_read (read_of_build h)] at hlt
    have hcomplete : i.isComplete = true := by
      simpa [Item.isComplete, Item.next?] using hn
    obtain ⟨hl, hr⟩ := Prod.mk.inj he
    exact ⟨p, n, state, i, rule, rfl, rfl, hlt, hflat, hp, hi, hcomplete, rfl, hl.symm, hr.symm⟩

end Read

/-- **A build fails only as documented.**  Whatever is given, a build ends with a result, refuses a
text without rules or a malformed line, or, under the error policy alone, reports a conflict; a text
is refused as empty exactly if it is missing or made of blanks.  For every text that is read, the
augmented start is a new symbol and all items have the form of an item of it or of a production.
Every number of a reduction is that of a production with a complete item in the state of the row. -/
theorem build_documented :
    (∀ (text : Option String) (config : Option Config),
      Documented (config.getD .standard).conflictPolicy (buildGiven text config) ∧
      (buildGiven text config = .error (.text .empty) ↔
        ∀ given, text = some given → Text.Blank given.toList)) ∧
    (∀ {text : String} {listing : Listing}, Listing.read text = .ok listing →
      ∀ strategy, (listing.automaton strategy).augmentedStart = listing.augmentedStart ∧
        listing.augmentedStart ∉ listing.symbols ∧
        ∀ state ∈ (listing.automaton strategy).states, ∀ i ∈ state.items, listing.IsListed i) ∧
    ∀ {text : String} {config : Config} {b : Build}, build text config = .ok b →
      Listing.read text = .ok b.listing ∧
      b.automaton = b.listing.automaton config.firstStrategy ∧
      ∀ {q k : Int} {x : Symbol}, b.table.action.get? q x = some (.reduce k) → b.Reduces q x k := by
  refine ⟨fun text config => ⟨documented text config, buildGiven_eq_empty_iff⟩, ?_, ?_⟩
  · intro text listing h strategy
    exact ⟨rfl, Grammar.augmentedStart_not_mem, isListed_of_read h strategy⟩
  · intro text config b h
    exact ⟨read_of_build h, (serves_of_build h).2.1, reduce_of_build h⟩

/-- Alternatives that are given twice and on lines apart have two numbers each; the empty one is
reduced by the first of its numbers. -/
theorem build_documented_twice : ∃ b, build "S -> A b\nA -> |\nS -> A b" .standard = .ok b ∧
    Documented .overwrite (buildGiven (some "S -> A b\nA -> |\nS -> A b") none) ∧
    (∀ state ∈ b.automaton.states, ∀ i ∈ state.items, b.listing.IsListed i) ∧
    b.table.action.get? 0 "b" = some (.reduce 2) ∧ b.Reduces 0 "b" 2 := by
  have hcell : (build "S -> A b\nA -> |\nS -> A b" .standard).toOption.map
      (·.table.action.get? 0 "b") = some (some (.reduce 2)) := by decide +kernel
  obtain ⟨b, hb, hact⟩ := exists_ok_of_toOption hcell
  obtain ⟨outcomes, items, reductions⟩ := build_documented
  obtain ⟨hread, ha, hreduce⟩ := reductions hb
  obtain ⟨-, -, hlisted⟩ := items hread Config.standard.firstStrategy
  rw [← ha] at hlisted
  exact ⟨b, hb, (outcomes _ none).1, hlisted, hact, hreduce hact⟩

end CanonicalLR
