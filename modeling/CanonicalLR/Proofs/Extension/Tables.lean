import CanonicalLR.Proofs.Extension.Automaton
import CanonicalLR.Proofs.Rows

/-!
# Unused rules

Rules behind those of a text are not used if no left-hand side of theirs occurs in the text.  They
change nothing: the automaton stays what it is, and its items demand the same entries, since their
productions keep their numbers and their symbols keep their classes (`Grammar.Extends.demand?_eq`).
What is new are the columns of the new symbols, and they are empty (`build_of_continued`).
-/

namespace CanonicalLR

variable {g g' : Grammar} {classes classes' : SymbolClasses} {i : Item} {x : Symbol}

namespace Grammar.Extends

variable (h : g.Extends g')

include h

/-! ## Demands under further productions -/

theorem mem_terminals_iff (hcl : classes.Of g) (hcl' : classes'.Of g') (hx : x ∈ g.symbols) :
    x ∈ classes'.terminals ↔ x ∈ classes.terminals := by
  rw [hcl'.terminals, hcl.terminals, h.isNonterminal (.inl hx)]
  refine and_congr_left fun hn => ⟨fun _ => ?_, fun hbody => h.bodySymbols.subset hbody⟩
  exact (mem_symbols.1 hx).resolve_left (by simp [hn])

theorem mem_nonterminals_iff (hcl : classes.Of g) (hcl' : classes'.Of g') (hx : x ∈ g.symbols) :
    x ∈ classes'.nonterminals ↔ x ∈ classes.nonterminals := by
  rw [hcl'.nonterminals, hcl.nonterminals, h.isNonterminal (.inl hx)]

/-- **Further productions leave the demand of an item alone.** -/
theorem demand?_eq (wf : g.WellFormed) (hcl : classes.Of g) (hcl' : classes'.Of g')
    (state : State) (hi : g.IsItem i) :
    (g'.tableSource classes').demand? state i = (g.tableSource classes).demand? state i := by
  unfold TableSource.demand?
  cases hn : i.next? with
  | none =>
    have haccepts : (g'.tableSource classes').accepts i = (g.tableSource classes).accepts i := by
      simp only [TableSource.accepts, tableSource, h.augmentedStart, h.start]
      rfl
    by_cases hacc : (g.tableSource classes).accepts i = true
    · simp only [haccepts, if_pos hacc]
    · have hrule : (g'.tableSource classes').grammar.ruleId? i.lhs i.rhs =
          (g.tableSource classes).grammar.ruleId? i.lhs i.rhs :=
        h.ruleId? (hi.mem_pairs fun hl => hacc (hi.accepts_iff.2 hl))
      simp only [haccepts, if_neg hacc, hrule]
  | some x =>
    have hx := hi.mem_symbols_of_next? wf hn
    have hterminal : classes'.terminals.contains x = classes.terminals.contains x :=
      Bool.eq_iff_iff.2 (by simpa using h.mem_terminals_iff hcl hcl' hx)
    have hnonterminal : classes'.nonterminals.contains x = classes.nonterminals.contains x :=
      Bool.eq_iff_iff.2 (by simpa using h.mem_nonterminals_iff hcl hcl' hx)
    simp only [TableSource.isToken, tableSource, hterminal, hnonterminal]
    rfl

/-- The tables differ in their columns only, or are refused for the same reason. -/
theorem table_eq (wf : g.WellFormed) (hcl : classes.Of g) (hcl' : classes'.Of g')
    (policy : ConflictPolicy) (strategy : FirstStrategy) :
    Table.build policy g' classes' g'.start (g'.automaton strategy) =
      (Table.build policy g classes g.start (g.automaton strategy)).map fun table =>
        { table with terminals := classes'.terminals, nonterminals := classes'.nonterminals } := by
  rw [h.automaton_eq wf]
  refine Table.build_of_same_demands fun state hs i hi => ?_
  obtain ⟨F, hc⟩ := g.exists_canonical strategy
  obtain ⟨p, hp⟩ := List.mem_iff_getElem?.1 hs
  have hdemand := h.demand?_eq wf hcl hcl' state (hc.isItem hp i hi)
  rw [tableSource, tableSource, h.augmentedStart, ← hc.start] at hdemand
  exact hdemand

end Grammar.Extends

/-! ## Builds -/

/-- A build with further rules behind those of its listing: the table has the columns of all symbols
and the same entries. -/
def Build.append (b : Build) (extra : Listing) : Build where
  listing := b.listing.append extra
  classes := (b.listing.append extra).classes
  automaton := b.automaton
  table := { b.table with
    terminals := (b.listing.append extra).classes.terminals
    nonterminals := (b.listing.append extra).classes.nonterminals }

theorem build_append {text whole : String} {listing extra : Listing}
    (h : Listing.read text = .ok listing) (hwhole : Listing.read whole = .ok (listing.append extra))
    (hext : listing.toGrammar.Extends (listing.append extra).toGrammar) (config : Config) :
    build whole config = (build text config).map (·.append extra) := by
  have wf := wellFormed_of_read h
  have hautomaton := hext.automaton_eq wf config.firstStrategy
  have htable := hext.table_eq wf (classes_of_read h) (classes_of_read hwhole) config.conflictPolicy
    config.firstStrategy
  simp only [build, h, hwhole, Analysis.table, Listing.analyse, htable]
  cases Table.build config.conflictPolicy listing.toGrammar listing.classes listing.start
      (listing.automaton config.firstStrategy) with
  | error e => rfl
  | ok table =>
    show Except.ok _ = Except.ok _
    rw [hautomaton]
    rfl

/-- **Unused rules change nothing.**  Take two texts that are read, where no left-hand side of the
second occurs in the first and no symbol of the second is the augmented start of the first.  The
first followed by the second on new lines is read, as the rules of both.  Under either strategy the
automaton is that of the first text, item by item, and its rules and productions keep their numbers.
Both symbol classes are those of the first text with the new symbols of the second behind them.
Under every configuration the build ends with the same error, or has the same entries; where the
first table has no column, all cells are empty. -/
theorem build_of_continued {text further whole : String} {listing extra : Listing}
    (h : Listing.read text = .ok listing) (he : Listing.read further = .ok extra)
    (hapart : ∀ A ∈ extra.nonterminals, A ∉ listing.symbols)
    (hfresh : listing.augmentedStart ∉ extra.symbols)
    (hc : Text.Continued text.toList further.toList whole.toList) :
    let joined := listing.append extra
    Listing.read whole = .ok joined ∧
      (∀ strategy, joined.automaton strategy = listing.automaton strategy) ∧
      listing.rules <+: joined.rules ∧ listing.flattened <+: joined.flattened ∧
      joined.classes =
        { terminals := listing.classes.terminals ++
            extra.classes.terminals.filter (· ∉ listing.symbols)
          nonterminals := listing.classes.nonterminals ++ extra.classes.nonterminals } ∧
      ∀ config, build whole config = (build text config).map (·.append extra) ∧
        ∀ b, build text config = .ok b → ∀ x, x ∉ b.table.columns → ∀ q,
          (b.append extra).table.cell q x = .blank := by
  intro joined
  have hwhole := Listing.read_of_continued h he hc
  have hext := Listing.extends_append h he hapart hfresh
  refine ⟨hwhole, hext.automaton_eq (wellFormed_of_read h), Listing.rules_append_prefix h he hapart,
    Productions.flattened_prefix hext.productions, Listing.classes_append h he hapart,
    fun config => ⟨build_append h hwhole hext config, fun b hb x hx q => ?_⟩⟩
  exact (clean_of_build hb).cell_eq_blank hx

/-- Unused rules that share a terminal with the rules before them and use their nonterminal. -/
theorem build_of_continued_shared :
    let text := "S -> a S |"
    let further := "U -> V S c\nV -> U | a"
    let whole := "S -> a S |\nU -> V S c\nV -> U | a"
    ∃ listing extra b, Listing.read text = .ok listing ∧ Listing.read further = .ok extra ∧
      (∀ A ∈ extra.nonterminals, A ∉ listing.symbols) ∧ listing.augmentedStart ∉ extra.symbols ∧
      Text.Continued text.toList further.toList whole.toList ∧
      build text .standard = .ok b ∧ build whole .standard = .ok (b.append extra) ∧
      b.table.columns = ["a", "$", "S"] ∧
      (b.append extra).table.columns = ["a", "c", "$", "S", "U", "V"] ∧
      ∀ q, (b.append extra).table.cell q "c" = .blank := by
  intro text further whole
  have hfirst : (Listing.read text).toOption.map (fun l => (l.symbols.toList, l.augmentedStart)) =
      some (["S", "a"], "S'") := by decide +kernel
  have hsecond : (Listing.read further).toOption.map (fun l => (l.nonterminals, l.symbols.toList)) =
      some (["U", "V"], ["S", "U", "V", "a", "c"]) := by decide +kernel
  have hbuild : (build text .standard).toOption.map (·.table.columns) = some ["a", "$", "S"] := by
    decide +kernel
  have hjoined : (build whole .standard).toOption.map (·.table.columns) =
      some ["a", "c", "$", "S", "U", "V"] := by decide +kernel
  obtain ⟨listing, h, hfacts⟩ := exists_ok_of_toOption hfirst
  obtain ⟨extra, he, hfacts'⟩ := exists_ok_of_toOption hsecond
  obtain ⟨b, hb, hcolumns⟩ := exists_ok_of_toOption hbuild
  obtain ⟨b', hb', hcolumns'⟩ := exists_ok_of_toOption hjoined
  obtain ⟨hsymbols, hstart⟩ := by simpa only [Prod.mk.injEq] using hfacts
  obtain ⟨hnonterminals, hsymbols'⟩ := by simpa only [Prod.mk.injEq] using hfacts'
  have hapart : ∀ A ∈ extra.nonterminals, A ∉ listing.symbols := by
    simp only [SymbolSet.mem_def, hsymbols, hnonterminals]
    decide
  have hfresh : listing.augmentedStart ∉ extra.symbols := by
    rw [SymbolSet.mem_def, hsymbols', hstart]
    decide
  have hc : Text.Continued text.toList further.toList whole.toList := by
    have hb : Text.LineBreak ['\n'] := .inr (.inr rfl)
    have hwhole : whole.toList = text.toList ++ ['\n'] ++ further.toList := by decide
    rw [hwhole]
    exact .between hb
  obtain ⟨-, -, -, -, -, hall⟩ := build_of_continued h he hapart hfresh hc
  obtain ⟨hsame, hblank⟩ := hall .standard
  rw [hb, hb'] at hsame
  cases hsame
  exact ⟨listing, extra, b, h, he, hapart, hfresh, hc, hb, hb', hcolumns, hcolumns',
    hblank b hb "c" (by rw [hcolumns]; decide)⟩

end CanonicalLR
