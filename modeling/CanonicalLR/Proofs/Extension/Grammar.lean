import CanonicalLR.Proofs.Augmentation
import CanonicalLR.Proofs.Distinct
import CanonicalLR.Proofs.Extension.Text

/-!
# Grammars with more productions

A grammar extends another one (`Grammar.Extends`) if it has further productions behind those of the
first one, and no left-hand side among them is a symbol that the construction of the first one meets
(`Grammar.Meets`).  Then everything that is asked of such a symbol is answered alike, the
productions keep their numbers, and all bounds have grown.

The rules of a text followed by those of another one make such a grammar (`Listing.extends_append`),
if no new left-hand side occurs before and the augmented start is none of the new symbols.  The new
symbols come behind the old ones in both symbol classes (`Listing.classes_append`).
-/

namespace CanonicalLR

/-! ## Further pairs -/

namespace Productions

variable {ps qs : Productions} {given more : List (Symbol × List Symbol)} {A : Symbol}

theorem pairs_append (ps qs : Productions) : pairs (ps ++ qs) = ps.pairs ++ qs.pairs :=
  List.flatMap_append

theorem filter_eq_nil_of_apart {pairs : List (Symbol × List Symbol)}
    (h : ∀ pair ∈ pairs, pair.1 ≠ A) : pairs.filter (·.1 = A) = [] :=
  List.filter_eq_nil_iff.2 (by simpa using h)

/-- Pairs with left-hand sides of their own make further entries. -/
theorem ofPairs_append (h : ∀ pair ∈ more, ∀ earlier ∈ given, pair.1 ≠ earlier.1) :
    ofPairs (given ++ more) = ofPairs given ++ ofPairs more := by
  have hkeys : distinct ((given ++ more).map (·.1)) =
      distinct (given.map (·.1)) ++ distinct (more.map (·.1)) := by
    rw [List.map_append, distinct_append, List.filter_eq_self.2]
    intro A hA
    obtain ⟨pair, hp, rfl⟩ := List.mem_map.1 (mem_distinct.1 hA)
    have hnew : pair.1 ∉ given.map (·.1) := by
      rintro hm
      obtain ⟨earlier, he, hsame⟩ := List.mem_map.1 hm
      exact h pair hp earlier he hsame.symm
    simpa using hnew
  rw [ofPairs, hkeys, List.map_append]
  refine congrArg₂ (· ++ ·) (List.map_congr_left fun A hA => ?_)
    (List.map_congr_left fun A hA => ?_)
  · obtain ⟨earlier, he, rfl⟩ := List.mem_map.1 (mem_distinct.1 hA)
    rw [List.filter_append, filter_eq_nil_of_apart fun pair hp => h pair hp earlier he,
      List.append_nil]
  · obtain ⟨pair, hp, rfl⟩ := List.mem_map.1 (mem_distinct.1 hA)
    rw [List.filter_append, filter_eq_nil_of_apart fun earlier he => (h pair hp earlier he).symm,
      List.nil_append]

theorem offset_append (hA : A ∈ ps.keys) : offset A (ps ++ qs) = offset A ps := by
  induction ps with
  | nil => cases hA
  | cons entry ps ih =>
    rw [List.cons_append, offset, offset]
    split
    · rfl
    · next hne =>
      rw [ih ((List.mem_cons.1 hA).resolve_left (Ne.symm hne))]

/-- The numbers of pairs depend on the entries up to theirs, and on earlier pairs. -/
theorem numbered_prefix (h : ∀ pair ∈ given, pair.1 ∈ ps.keys) (earlier : List Symbol) :
    ps.numbered earlier given <+: numbered (ps ++ qs) earlier (given ++ more) := by
  induction given generalizing earlier with
  | nil => exact List.nil_prefix
  | cons pair given ih =>
    rw [List.cons_append, numbered, numbered, offset_append (h pair List.mem_cons_self)]
    exact List.cons_prefix_cons.2 ⟨rfl, ih (fun p hp => h p (List.mem_cons_of_mem _ hp)) _⟩

theorem flattened_prefix (h : ps <+: qs) : ps.flattened <+: qs.flattened := by
  obtain ⟨rest, rfl⟩ := h
  rw [flattened, flattened, pairs_append, List.zipIdx_append, List.map_append]
  exact List.prefix_append _ _

end Productions

theorem Entries.lookup_append {β : Type} {es fs : Entries Symbol β} {x : Symbol}
    (h : x ∉ fs.keys) : (es ++ fs).lookup x = es.lookup x := by
  induction es with
  | nil => exact lookup_eq_none_iff.2 h
  | cons e es ih => rw [List.cons_append, lookup_cons, lookup_cons, ih]

namespace Grammar

/-! ## What does not see the further productions -/

/-- A symbol that can occur in an item: a symbol of the grammar, or the end marker. -/
def Meets (g : Grammar) (x : Symbol) : Prop := x ∈ g.symbols ∨ x = endMarker

/-- A grammar with the productions of another one and further ones behind them, whose left-hand
sides the other grammar does not meet. -/
structure Extends (g g' : Grammar) : Prop where
  productions : g.productions <+: g'.productions
  start : g'.start = g.start
  augmentedStart : g'.augmentedStart = g.augmentedStart
  apart : ∀ x, g.Meets x → g'.isNonterminal x = true → g.isNonterminal x = true

variable {g g' : Grammar} {x A : Symbol} {rhs : List Symbol}

theorem Meets.of_mem (h : (A, rhs) ∈ g.productions.pairs) (hx : x ∈ rhs) : g.Meets x :=
  .inl (mem_symbols_of_mem h hx)

theorem Meets.of_mem_bodySymbols (h : x ∈ g.bodySymbols) : g.Meets x :=
  .inl (mem_symbols.2 (.inr h))

namespace Extends

variable (h : g.Extends g')

include h

theorem isNonterminal (hx : g.Meets x) : g'.isNonterminal x = g.isNonterminal x := by
  refine Bool.eq_iff_iff.2 ⟨h.apart x hx, fun hn => ?_⟩
  rw [isNonterminal_iff] at hn ⊢
  exact (h.productions.map (·.1)).subset hn

theorem lookup (hx : g.Meets x) : g'.productions.lookup x = g.productions.lookup x := by
  obtain ⟨more, hmore⟩ := h.productions
  have hkeys : g'.productions.keys = g.productions.keys ++ Entries.keys more := by
    rw [← hmore]
    exact List.map_append
  by_cases hn : x ∈ g.productions.keys
  · -- a key of the first productions is none of the others
    have hnew : x ∉ Entries.keys more := by
      have hnodup := g'.nodup
      rw [hkeys] at hnodup
      exact fun hm => (List.nodup_append.1 hnodup).2.2 x hn x hm rfl
    rw [← hmore]
    exact Entries.lookup_append hnew
  · have hn' : x ∉ g'.productions.keys := by
      have hsame := h.isNonterminal hx
      rwa [Bool.eq_iff_iff, isNonterminal_iff, isNonterminal_iff, nonterminals, nonterminals,
        iff_false_right hn] at hsame
    rw [Entries.lookup_eq_none_iff.2 hn, Entries.lookup_eq_none_iff.2 hn']

theorem alternatives (hx : g.Meets x) : g'.alternatives x = g.alternatives x := by
  rw [Grammar.alternatives, h.lookup hx, Grammar.alternatives]

theorem pairs : g.productions.pairs <+: g'.productions.pairs := by
  obtain ⟨more, hmore⟩ := h.productions
  rw [← hmore, Productions.pairs_append]
  exact List.prefix_append _ _

theorem bodySymbols : g.bodySymbols <+: g'.bodySymbols := by
  obtain ⟨more, hmore⟩ := h.pairs
  rw [Grammar.bodySymbols, Grammar.bodySymbols, ← hmore, List.flatMap_append]
  exact List.prefix_append _ _

/-- Productions keep their numbers. -/
theorem ruleId? (hr : (A, rhs) ∈ g.productions.pairs) : g'.ruleId? A rhs = g.ruleId? A rhs := by
  obtain ⟨more, hmore⟩ := h.pairs
  obtain ⟨n, hn⟩ := exists_ruleId? hr
  obtain ⟨hlt, hget, hfirst⟩ := List.idxOf?_eq_some_iff.1 hn
  rw [hn, Grammar.ruleId?, List.idxOf?_eq_some_iff, ← hmore]
  refine ⟨by rw [List.length_append]; omega, ?_, fun j hj => ?_⟩
  · rwa [List.getElem_append_left hlt]
  · rw [List.getElem_append_left (hj.trans hlt)]
    exact hfirst j hj

/-! ## Bounds -/

theorem firstRounds_le : g.firstRounds ≤ g'.firstRounds :=
  Nat.succ_le_succ (Nat.mul_le_mul h.productions.length_le
    (Nat.succ_le_succ h.bodySymbols.length_le))

theorem closureBudget_le (seeds : List Item) : g.closureBudget seeds ≤ g'.closureBudget seeds := by
  have hpairs := h.pairs.length_le
  have hbody := h.bodySymbols.length_le
  have hproduct := Nat.mul_le_mul hpairs (Nat.add_le_add_right hbody
    ((seeds.flatMap (·.rhs)).length + seeds.length))
  simp only [← Nat.add_assoc] at hproduct
  simp only [closureBudget]
  omega

theorem itemCount_le : g.itemCount ≤ g'.itemCount := by
  have places : ∀ bodies more : List (List Symbol),
      bodies.foldr (fun rhs count => rhs.length + 1 + count) 0 ≤
        (bodies ++ more).foldr (fun rhs count => rhs.length + 1 + count) 0 := by
    intro bodies more
    induction bodies with
    | nil => exact Nat.zero_le _
    | cons rhs bodies ih => exact Nat.add_le_add_left ih _
  obtain ⟨more, hmore⟩ := h.pairs
  rw [itemCount, itemCount, h.start, ← hmore, List.map_append, ← List.cons_append]
  exact Nat.mul_le_mul (places _ _) (Nat.succ_le_succ h.bodySymbols.length_le)

end Extends

/-! ## Grammars of further pairs -/

/-- More used symbols lead to the same fresh symbol, unless they use it. -/
theorem primed_eq {used used' : SymbolSet} (h : ∀ y ∈ used, y ∈ used') (x : Symbol)
    (hfresh : primed used x ∉ used') : primed used' x = primed used x := by
  fun_induction primed used x with
  | case1 x hx ih =>
    rw [primed, if_pos (h x hx)]
    exact ih hfresh
  | case2 x _ => rw [primed, if_neg hfresh]

theorem symbols_ofPairs {given : List (Symbol × List Symbol)} {start x : Symbol} :
    x ∈ (Grammar.ofPairs given start).symbols ↔ ∃ pair ∈ given, x = pair.1 ∨ x ∈ pair.2 := by
  rw [mem_symbols, isNonterminal_ofPairs, mem_bodySymbols]
  constructor
  · rintro (⟨rhs, hp⟩ | ⟨A, rhs, hp, hx⟩)
    · exact ⟨_, hp, .inl rfl⟩
    · exact ⟨_, Productions.mem_pairs_ofPairs.1 hp, .inr hx⟩
  · rintro ⟨⟨A, rhs⟩, hp, rfl | hx⟩
    · exact .inl ⟨rhs, hp⟩
    · exact .inr ⟨A, rhs, Productions.mem_pairs_ofPairs.2 hp, hx⟩

theorem mem_nonterminals_ofPairs {given : List (Symbol × List Symbol)} {start : Symbol}
    {pair : Symbol × List Symbol} (h : pair ∈ given) :
    pair.1 ∈ (Grammar.ofPairs given start).nonterminals :=
  isNonterminal_iff.1 (isNonterminal_ofPairs.2 ⟨pair.2, h⟩)

section OfPairs

variable {given more : List (Symbol × List Symbol)} {start other : Symbol}
  (hapart : ∀ pair ∈ more, pair.1 ∉ (Grammar.ofPairs given start).symbols)

include hapart

theorem productions_ofPairs_append : Productions.ofPairs (given ++ more) =
    Productions.ofPairs given ++ Productions.ofPairs more :=
  Productions.ofPairs_append fun pair hp earlier he e =>
    hapart pair hp (symbols_ofPairs.2 ⟨earlier, he, .inl e⟩)

theorem extends_ofPairs_append
    (hend : ∀ pair ∈ more, pair.1 ≠ endMarker)
    (hfresh : (Grammar.ofPairs given start).augmentedStart ∉ (Grammar.ofPairs more other).symbols) :
    (Grammar.ofPairs given start).Extends (Grammar.ofPairs (given ++ more) start) where
  productions := ⟨_, (productions_ofPairs_append hapart).symm⟩
  start := rfl
  augmentedStart := by
    refine primed_eq (fun y hy => ?_) _ fun hm => ?_
    · obtain ⟨pair, hp, hy⟩ := symbols_ofPairs.1 hy
      exact symbols_ofPairs.2 ⟨pair, List.mem_append_left _ hp, hy⟩
    · obtain ⟨pair, hp, hy⟩ := symbols_ofPairs.1 hm
      rcases List.mem_append.1 hp with hp | hp
      · exact augmentedStart_not_mem (symbols_ofPairs.2 ⟨pair, hp, hy⟩)
      · exact hfresh (symbols_ofPairs.2 ⟨pair, hp, hy⟩)
  apart x hx hn := by
    obtain ⟨rhs, hp⟩ := isNonterminal_ofPairs.1 hn
    rcases List.mem_append.1 hp with hp | hp
    · exact isNonterminal_ofPairs.2 ⟨rhs, hp⟩
    · rcases hx with hx | rfl
      · exact absurd hx (hapart _ hp)
      · exact absurd rfl (hend _ hp)

end OfPairs

end Grammar

/-! ## One listing behind another -/

namespace Listing

/-- The rules of a listing followed by those of another one. -/
def append (listing extra : Listing) : Listing :=
  .ofPairs ((listing.rules ++ extra.rules).map fun rule => (rule.lhs, rule.rhs)) listing.start

variable {given more : List (Symbol × List Symbol)} {start other : Symbol}
  {text further whole : String}
  {listing extra : Listing}

theorem append_ofPairs : (ofPairs given start).append (ofPairs more other) =
    ofPairs (given ++ more) start := by
  rw [append, List.map_append]
  exact congrArg₂ (fun given more => ofPairs (given ++ more) start)
    (Productions.map_numbered _ _ _) (Productions.map_numbered _ _ _)

/-- Among the symbols of both lists of pairs, the new ones come last in each class. -/
theorem classes_ofPairs_append
    (hapart : ∀ pair ∈ more, pair.1 ∉ (Grammar.ofPairs given start).symbols) :
    (ofPairs (given ++ more) start).classes =
      { terminals := (ofPairs given start).classes.terminals ++
          (ofPairs more other).classes.terminals.filter (· ∉ (Grammar.ofPairs given start).symbols)
        nonterminals := (ofPairs given start).classes.nonterminals ++
          (ofPairs more other).classes.nonterminals } := by
  have hsymbols : ∀ x, x ∈ (Grammar.ofPairs given start).symbols ↔
      x ∈ given.map (·.1) ∨ x ∈ given.flatMap (·.2) := by
    intro x
    rw [Grammar.symbols_ofPairs]
    simp only [List.mem_map, List.mem_flatMap, and_or_left, exists_or, eq_comm]
  have hnew : ∀ x ∈ more.map (·.1), x ∉ (Grammar.ofPairs given start).symbols := by
    intro x hx
    obtain ⟨pair, hp, rfl⟩ := List.mem_map.1 hx
    exact hapart pair hp
  have hkeys : distinct ((given ++ more).map (·.1)) =
      distinct (given.map (·.1)) ++ distinct (more.map (·.1)) := by
    rw [← Productions.keys_ofPairs, Grammar.productions_ofPairs_append hapart, Entries.keys,
      List.map_append]
    exact congrArg₂ (· ++ ·) (Productions.keys_ofPairs given) (Productions.keys_ofPairs more)
  -- no symbol of the first pairs becomes a nonterminal
  have hold : (given.flatMap (·.2)).filter (fun x =>
        !(distinct (given.map (·.1)) ++ distinct (more.map (·.1))).contains x) =
      (given.flatMap (·.2)).filter fun x => !(distinct (given.map (·.1))).contains x := by
    refine List.filter_congr fun x hx => ?_
    have hnot : x ∉ more.map (·.1) := fun hm => hnew x hm ((hsymbols x).2 (.inr hx))
    rw [List.contains_append, List.contains_eq_mem x (distinct (more.map (·.1)))]
    simp only [mem_distinct, hnot, decide_false, Bool.or_false]
  simp only [classes_ofPairs, hkeys, List.flatMap_append, List.filter_append, distinct_append, hold]
  congr 2
  rw [distinct_filter, distinct_filter, List.filter_filter, List.filter_filter]
  refine List.filter_congr fun x _ => ?_
  rw [Bool.eq_iff_iff]
  simp only [hsymbols, Bool.and_eq_true, Bool.not_eq_true', List.contains_eq_mem, decide_eq_true_eq,
    decide_eq_false_iff_not, List.mem_append, List.mem_filter, mem_distinct]
  tauto

theorem rules_ofPairs_prefix
    (hapart : ∀ pair ∈ more, pair.1 ∉ (Grammar.ofPairs given start).symbols) :
    (ofPairs given start).rules <+: (ofPairs (given ++ more) start).rules := by
  show (Productions.ofPairs given).numbered [] given <+:
    (Productions.ofPairs (given ++ more)).numbered [] (given ++ more)
  rw [Grammar.productions_ofPairs_append hapart]
  refine Productions.numbered_prefix (fun pair hp => ?_) []
  have hm : pair.1 ∈ (Grammar.ofPairs given start).nonterminals :=
    Grammar.mem_nonterminals_ofPairs hp
  exact hm

section Read

variable (h : Listing.read text = .ok listing) (he : Listing.read further = .ok extra)
  (hapart : ∀ A ∈ extra.nonterminals, A ∉ listing.symbols)

include h he

/-- **A text that is continued** is read as the rules of both parts. -/
theorem read_of_continued (hc : Text.Continued text.toList further.toList whole.toList) :
    Listing.read whole = .ok (listing.append extra) := by
  obtain ⟨first, rest, hread, rfl⟩ := exists_pairs_of_read h
  obtain ⟨head, tail, hmore, rfl⟩ := exists_pairs_of_read he
  have hwhole := readLines_of_continued hc hread hmore
  rw [append_ofPairs, Listing.read, hwhole]
  rfl

include hapart

theorem classes_append : (listing.append extra).classes =
    { terminals := listing.classes.terminals ++
        extra.classes.terminals.filter (· ∉ listing.symbols)
      nonterminals := listing.classes.nonterminals ++ extra.classes.nonterminals } := by
  obtain ⟨first, rest, -, rfl⟩ := exists_pairs_of_read h
  obtain ⟨head, tail, -, rfl⟩ := exists_pairs_of_read he
  rw [append_ofPairs]
  exact classes_ofPairs_append fun pair hp => hapart _ (Grammar.mem_nonterminals_ofPairs hp)

/-- Rules keep their numbers. -/
theorem rules_append_prefix : listing.rules <+: (listing.append extra).rules := by
  obtain ⟨first, rest, -, rfl⟩ := exists_pairs_of_read h
  obtain ⟨head, tail, -, rfl⟩ := exists_pairs_of_read he
  rw [append_ofPairs]
  exact rules_ofPairs_prefix fun pair hp => hapart _ (Grammar.mem_nonterminals_ofPairs hp)

theorem extends_append (hfresh : listing.augmentedStart ∉ extra.symbols) :
    listing.toGrammar.Extends (listing.append extra).toGrammar := by
  have hend := (wellFormed_of_read he).endMarker
  obtain ⟨first, rest, -, rfl⟩ := exists_pairs_of_read h
  obtain ⟨head, tail, -, rfl⟩ := exists_pairs_of_read he
  rw [append_ofPairs]
  refine Grammar.extends_ofPairs_append (fun pair hp => hapart _ ?_) (fun pair hp e => hend ?_)
    hfresh
  · exact Grammar.mem_nonterminals_ofPairs hp
  · exact Grammar.symbols_ofPairs.2 ⟨pair, hp, .inl e.symm⟩

end Read

end Listing

end CanonicalLR
