import CanonicalLR.Proofs.Columns
import CanonicalLR.Proofs.Gathering
import CanonicalLR.Proofs.Layout

/-!
# Printing and reading again

The printed productions of a grammar that was read, one on each line, are again a grammar text.
Every symbol that is read can be written (`plain_of_readLine`), so the printed lines are one of the
ways to write the productions down (`Grammar.Printed.renders`) and are read as the productions in
their order.  That order may differ from the one of the first text, but what was gathered is
gathered again; only the terminals may come in another order, since they are listed in the order of
the text.
-/

namespace CanonicalLR

/-! ## Symbols that are read -/

section Symbols

variable {cs line : List Char} {x : Symbol} {pairs : List (Symbol × List Symbol)}
  {pair : Symbol × List Symbol}

/-- A symbol that is read is a part of its text, not empty and without a blank. -/
theorem mem_readSymbols (h : x ∈ readSymbols cs) :
    x.toList ≠ [] ∧ Text.Solid x.toList ∧ x.toList <:+: cs := by
  obtain ⟨word, hw, rfl⟩ := List.mem_map.1 h
  rw [String.toList_ofList]
  exact Text.mem_words hw

theorem plain_of_mem_readSymbols (h : x ∈ readSymbols cs) (ha : Text.Arrowless cs)
    (hu : Unreserved x) : Plain x := by
  obtain ⟨hne, hsolid, hpart⟩ := mem_readSymbols h
  exact ⟨hne, hsolid, ha.of_part hpart, hu⟩

/-- What a line grants: an arrow stands in no symbol, and a bar in none on the right. -/
theorem plain_of_readLine (h : readLine line = .ok pairs) (hp : pair ∈ pairs) :
    Plain pair.1 ∧ PlainBody pair.2 := by
  obtain ⟨left, right, lhs, bodies, hcut, hright, hl, ha, rfl⟩ := readLine_eq_ok.1 h
  obtain ⟨rhs, hr, rfl⟩ := List.mem_map.1 hp
  obtain ⟨hleft, -⟩ := Text.cutArrow_eq_some hcut
  obtain ⟨hsymbols, hreserved⟩ := readHead_eq_ok.1 hl
  refine ⟨plain_of_mem_readSymbols (hsymbols ▸ List.mem_cons_self) hleft hreserved, fun x hx => ?_⟩
  -- the symbol is a part of its piece, and the piece is a part of what follows the only arrow
  obtain ⟨piece, hpiece, hread⟩ := exists_piece_of_readAlternatives ha hr
  obtain ⟨hbar, hpart⟩ := Text.mem_pieces hpiece
  obtain ⟨hx, hu⟩ := mem_of_readAlternative hread hx
  have harrow := (Text.cutArrow_eq_none_iff.1 hright).of_part hpart
  obtain ⟨-, -, hin⟩ := mem_readSymbols hx
  exact ⟨plain_of_mem_readSymbols hx harrow hu, fun hm => hbar (hin.subset hm)⟩

end Symbols

/-! ## Printed rules -/

/-- The line that a rule is printed on. -/
def Rule.line (rule : Rule) : RuleLine := ⟨rule.lhs, [rule.rhs]⟩

/-- The printed productions of a grammar, one on each line. -/
def Grammar.printed (g : Grammar) : String := "\n".intercalate (g.flattened.map Rule.render)

/-- Whether a text is the printed productions of a grammar, one on each line; the last line may be
ended as well. -/
inductive Grammar.Printed (g : Grammar) (text : String) : Prop
  | between (h : Text.Joined (g.flattened.map fun rule => rule.render.toList) text.toList) :
      Printed g text
  | behind
      (h : Text.Joined (g.flattened.map (fun rule => rule.render.toList) ++ [[]]) text.toList) :
      Printed g text

section Printed

variable {rules : List Rule} {lines rest : List (List Char)} {cs brk : List Char}

theorem spaced_intercalate {body : List Symbol} (hne : body ≠ []) :
    Spaced body (" ".intercalate body).toList := by
  have hgap : Text.Gap " ".toList := by decide
  rw [String.toList_intercalate]
  induction body with
  | nil => exact absurd rfl hne
  | cons x body ih =>
    cases body with
    | nil => simpa using Spaced.one x
    | cons y body =>
      have hrest := ih (by simp)
      rw [List.map_cons, List.map_cons, List.intercalate_cons_cons, List.append_assoc]
      exact .cons x hgap (by decide) hrest

theorem joined_intercalate {lines : List String} (hne : lines ≠ []) :
    Text.Joined (lines.map String.toList) ("\n".intercalate lines).toList := by
  have hbreak : Text.LineBreak "\n".toList := .inr (.inr rfl)
  rw [String.toList_intercalate]
  induction lines with
  | nil => exact absurd rfl hne
  | cons line lines ih =>
    cases lines with
    | nil => simpa using Text.Joined.one line.toList
    | cons next lines =>
      have hrest := ih (by simp)
      rw [List.map_cons, List.map_cons, List.intercalate_cons_cons]
      exact .cons line.toList hbreak hrest

theorem Text.Joined.append_break (h : Joined lines cs) (hb : LineBreak brk) :
    Joined (lines ++ [[]]) (cs ++ brk) := by
  induction h with
  | one line =>
    have hline := Joined.cons line hb (.one [])
    rwa [List.append_nil] at hline
  | cons line hbrk _ ih =>
    rw [List.append_assoc]
    exact .cons line hbrk ih

/-- A printed rule stands on its line as a rule with one alternative. -/
theorem Rule.written (rule : Rule) : rule.line.Written rule.render.toList := by
  have gap : Text.Gap [' '] := by decide
  have hbody : WrittenBody rule.rhs ([' '] ++ (if rule.isEmpty then epsilon else
      " ".intercalate rule.rhs).toList ++ []) := by
    by_cases he : rule.isEmpty = true
    · rw [if_pos he, List.isEmpty_iff.1 he]
      exact .sign gap .nil
    · rw [if_neg he]
      exact .symbols gap (spaced_intercalate fun hnil => he (List.isEmpty_iff.2 hnil)) .nil
  have hline : rule.line.Written _ := .intro .nil gap (.one hbody)
  simpa [Rule.line, Rule.render] using hline

theorem writtenLines_rules (h : WrittenLines [] rest) : WrittenLines (rules.map Rule.line)
    (rules.map (fun rule => rule.render.toList) ++ rest) := by
  induction rules with
  | nil => exact h
  | cons rule rules ih => exact .rule rule.written ih

theorem Grammar.printed_printed {g : Grammar} (hne : g.flattened ≠ []) :
    g.Printed g.printed ∧ g.Printed (g.printed ++ "\n") := by
  have hjoined : Text.Joined ((g.flattened.map Rule.render).map String.toList) g.printed.toList :=
    joined_intercalate fun hnil => hne (List.map_eq_nil_iff.1 hnil)
  rw [List.map_map] at hjoined
  refine ⟨.between hjoined, .behind ?_⟩
  rw [String.toList_append]
  exact hjoined.append_break (.inr (.inr rfl))

/-- Printed productions are one way to write them down. -/
theorem Grammar.Printed.renders {g : Grammar} {text : String} (h : g.Printed text) :
    Renders (g.flattened.map Rule.line) text := by
  cases h with
  | between h => exact ⟨_, writtenLines_rules .nil, by rwa [List.append_nil]⟩
  | behind h => exact ⟨_, writtenLines_rules (.blank .nil .nil), h⟩

end Printed

/-! ## Read again -/

section Again

variable {text printed : String} {listing : Listing}

theorem plain_of_read (h : Listing.read text = .ok listing) :
    ∀ pair ∈ listing.productions.pairs, Plain pair.1 ∧ PlainBody pair.2 := by
  obtain ⟨first, rest, hread, rfl⟩ := exists_pairs_of_read h
  intro pair hp
  obtain ⟨raw, -, pairs, hline, hm⟩ :=
    exists_line_of_readLines hread (Productions.mem_pairs_ofPairs.1 hp)
  exact plain_of_readLine hline hm

theorem plain_line_of_read (h : Listing.read text = .ok listing) :
    ∀ rule ∈ listing.flattened.map Rule.line, rule.Plain := by
  intro line hl
  obtain ⟨rule, hr, rfl⟩ := List.mem_map.1 hl
  have hpair : (rule.lhs, rule.rhs) ∈ listing.productions.pairs := by
    rw [← listing.map_flattened]
    exact List.mem_map_of_mem hr
  obtain ⟨hlhs, hrhs⟩ := plain_of_read h _ hpair
  exact ⟨hlhs, by simp [Rule.line], by simpa [Rule.line] using hrhs⟩

theorem exists_flattened_cons (h : Listing.read text = .ok listing) :
    ∃ rule rules, listing.flattened = rule :: rules ∧ rule.lhs = listing.start := by
  obtain ⟨first, rest, -, rfl⟩ := exists_pairs_of_read h
  obtain ⟨others, hothers⟩ := Productions.exists_pairs_ofPairs_cons first rest
  have hmap := (Grammar.ofPairs (first :: rest) first.1).map_flattened.trans hothers
  obtain ⟨rule, rules, hflat, hrule, -⟩ := List.map_eq_cons_iff.1 hmap
  exact ⟨rule, rules, hflat, congrArg Prod.fst hrule⟩

/-- Printed productions are read as the productions in their order. -/
theorem read_printed (h : Listing.read text = .ok listing) (hp : listing.Printed printed) :
    Listing.read printed = .ok (.ofGrammar listing.toGrammar) := by
  have hlines : (listing.flattened.map Rule.line).flatMap RuleLine.pairs =
      listing.productions.pairs := by
    rw [← listing.map_flattened, List.flatMap_map]
    exact List.map_eq_flatMap.symm
  have hne : ∀ entry ∈ listing.productions, entry.2 ≠ [] := by
    obtain ⟨first, rest, -, rfl⟩ := exists_pairs_of_read h
    exact fun entry he => Productions.ne_nil_of_mem_ofPairs he
  have hplain := plain_line_of_read h
  have hrenders := hp.renders
  obtain ⟨rule, rules, hflat, hstart⟩ := exists_flattened_cons h
  rw [hflat, List.map_cons] at hlines hplain hrenders
  have hread := read_of_renders hplain hrenders
  rw [hlines] at hread
  rw [hread, ← Listing.ofPairs_pairs hne, ← hstart]
  rfl

end Again

/-! ## Texts of one grammar -/

theorem SymbolClasses.Of.sameMembers {g : Grammar} {classes classes' : SymbolClasses}
    (h : classes.Of g) (h' : classes'.Of g) : classes.SameMembers classes' :=
  ⟨fun x => (h'.terminals x).trans (h.terminals x).symm,
    fun x => (h'.nonterminals x).trans (h.nonterminals x).symm⟩

/-- A build with another listing of its grammar: the terminals come in the order of that listing. -/
def Build.relisted (b : Build) (listing : Listing) : Build where
  listing := listing
  classes := listing.classes
  automaton := b.automaton
  table := { b.table with terminals := listing.classes.terminals }

section OneGrammar

variable {text text' : String} {listing listing' : Listing}

theorem nonterminals_of_read (h : Listing.read text = .ok listing) :
    listing.classes.nonterminals = listing.productions.keys := by
  obtain ⟨first, rest, -, rfl⟩ := exists_pairs_of_read h
  exact Listing.nonterminals_classes_ofPairs _ _

variable (h : Listing.read text = .ok listing) (h' : Listing.read text' = .ok listing')
  (hg : listing'.toGrammar = listing.toGrammar)

include h h' hg

theorem sameMembers_of_read : listing.classes.SameMembers listing'.classes :=
  (classes_of_read h).sameMembers (hg ▸ classes_of_read h')

theorem nonterminals_eq_of_read : listing'.classes.nonterminals = listing.classes.nonterminals := by
  rw [nonterminals_of_read h', nonterminals_of_read h, hg]

theorem terminals_perm_of_read : listing'.classes.terminals.Perm listing.classes.terminals := by
  have hn : ∀ rules : List Rule, (SymbolClasses.ofRules rules).terminals.Nodup :=
    fun rules => nodup_distinct _
  exact (List.perm_ext_iff_of_nodup (hn _) (hn _)).2 (sameMembers_of_read h h' hg).terminals

theorem table_eq_of_read (strategy : FirstStrategy) (policy : ConflictPolicy) :
    (listing'.analyse strategy).table policy = ((listing.analyse strategy).table policy).map
      fun table => { table with terminals := listing'.classes.terminals } := by
  have htable : (listing'.analyse strategy).table policy =
      ((listing.analyse strategy).table policy).map fun table =>
        { table with
          terminals := listing'.classes.terminals
          nonterminals := listing'.classes.nonterminals } := by
    show Table.build policy listing'.toGrammar listing'.classes listing'.toGrammar.start
      (listing'.toGrammar.automaton strategy) = _
    rw [hg]
    exact Table.build_of_same_members (sameMembers_of_read h h' hg)
  rw [htable, nonterminals_eq_of_read h h' hg]
  cases hresult : (listing.analyse strategy).table policy with
  | error e => rfl
  | ok table =>
    obtain ⟨-, hkept : table.nonterminals = listing.classes.nonterminals, -⟩ :=
      Table.frame_of_build hresult
    rw [← hkept]
    rfl

/-- Two texts of one grammar have the same build, but for the order of the terminals. -/
theorem build_eq_of_read (config : Config) :
    build text' config = (build text config).map (·.relisted listing') := by
  have hautomaton : listing'.automaton config.firstStrategy =
      listing.automaton config.firstStrategy := congrArg (·.automaton config.firstStrategy) hg
  simp only [build, h, h', table_eq_of_read h h' hg]
  cases (listing.analyse config.firstStrategy).table config.conflictPolicy with
  | error e => rfl
  | ok table =>
    show Except.ok _ = Except.ok _
    rw [Listing.analyse, hautomaton]
    rfl

end OneGrammar

/-- **Printing and reading again.**  Take a text that is read.  Its productions, printed one on each
line, are read as well, as the same grammar: the productions and the start symbol are the same, and
the rules are the productions in their order, with their numbers.  All automata are the same, and
under every configuration the builds differ in nothing but the order of the terminals, or end with
the same error. -/
theorem build_of_printed {text : String} {listing : Listing} (h : Listing.read text = .ok listing) :
    listing.Printed listing.printed ∧ listing.Printed (listing.printed ++ "\n") ∧
    ∃ again : Listing, again.productions = listing.productions ∧ again.start = listing.start ∧
      again.rules = listing.flattened ∧
      again.classes.nonterminals = listing.classes.nonterminals ∧
      again.classes.terminals.Perm listing.classes.terminals ∧
      (∀ strategy, again.automaton strategy = listing.automaton strategy) ∧
      ∀ {printed : String}, listing.Printed printed → Listing.read printed = .ok again ∧
        ∀ config, build printed config = (build text config).map (·.relisted again) := by
  obtain ⟨rule, rules, hflat, -⟩ := exists_flattened_cons h
  have hne : listing.flattened ≠ [] := by simp [hflat]
  obtain ⟨hprinted, hended⟩ := Grammar.printed_printed hne
  have hagain := read_printed h hprinted
  refine ⟨hprinted, hended, .ofGrammar listing.toGrammar, rfl, rfl, rfl,
    nonterminals_eq_of_read h hagain rfl, terminals_perm_of_read h hagain rfl, fun _ => rfl, ?_⟩
  intro printed hp
  have hread := read_printed h hp
  exact ⟨hread, build_eq_of_read h hread rfl⟩

/-- A left-hand side with a bar, symbols made of the arrow's characters, rules of one left-hand side
on lines apart, one of them given twice, and an empty alternative: the rules are numbered in another
order when they are read again, and the terminals appear in another order. -/
theorem build_of_printed_interleaved :
    let text := "S| -> - A\nA -> > |\nS| -> x - | - A"
    let printed := "S| -> - A\nS| -> x -\nS| -> - A\nA -> >\nA -> ε"
    ∃ listing again, Listing.read text = .ok listing ∧ listing.printed = printed ∧
      Listing.read printed = .ok again ∧
      listing.rules.map (·.id) = [0, 3, 4, 1, 2] ∧ again.rules.map (·.id) = [0, 1, 2, 3, 4] ∧
      listing.classes.terminals = ["-", ">", "x"] ∧ again.classes.terminals = ["-", "x", ">"] ∧
      ∀ config, build printed config = (build text config).map (·.relisted again) := by
  intro text printed
  have hfirst : (Listing.read text).toOption.map
      (fun l => (l.printed, l.rules.map (·.id), l.classes.terminals)) =
        some (printed, [0, 3, 4, 1, 2], ["-", ">", "x"]) := by decide +kernel
  have hsecond : (Listing.read printed).toOption.map
      (fun l => (l.rules.map (·.id), l.classes.terminals)) =
        some ([0, 1, 2, 3, 4], ["-", "x", ">"]) := by decide +kernel
  obtain ⟨listing, hread, hfacts⟩ := exists_ok_of_toOption hfirst
  obtain ⟨again, hagain, hfacts'⟩ := exists_ok_of_toOption hsecond
  obtain ⟨htext, hids, hterminals⟩ := by simpa only [Prod.mk.injEq] using hfacts
  obtain ⟨hids', hterminals'⟩ := by simpa only [Prod.mk.injEq] using hfacts'
  obtain ⟨hprinted, -, listing', -, -, -, -, -, -, hall⟩ := build_of_printed hread
  rw [htext] at hprinted
  obtain ⟨hread', hbuild⟩ := hall hprinted
  cases hagain.symm.trans hread'
  exact ⟨listing, again, hread, htext, hagain, hids, hids', hterminals, hterminals', hbuild⟩

end CanonicalLR
