import CanonicalLR.Proofs.Gathering

/-!
# Rules and their numbers

The rules of a text stand in the order of its lines and the productions of its grammar nonterminal
by nonterminal, and the numbers of the two are counted by different functions: `numbered` counts
the earlier rules of the same nonterminal, and `flattened` counts all productions before.  They
agree on every text (`rules_numbered_of_read`): picking out the rules of one nonterminal after the
other gives the numbered productions.
-/

namespace CanonicalLR

namespace Productions

variable {ps : Productions} {earlier : List Symbol} {given : List (Symbol × List Symbol)} {n : Nat}

/-- A pair with its number, as a rule. -/
def rule (numbered : (Symbol × List Symbol) × Nat) : Rule :=
  ⟨numbered.2, numbered.1.1, numbered.1.2⟩

/-- The rules of one nonterminal are numbered one after the other, from its offset on. -/
theorem filter_numbered (A : Symbol) : (ps.numbered earlier given).filter (·.lhs = A) =
    ((given.filter (·.1 = A)).zipIdx (ps.offset A + earlier.count A)).map rule := by
  induction given generalizing earlier with
  | nil => rfl
  | cons pair given ih =>
    by_cases h : pair.1 = A
    · subst h
      have hhead : (pair :: given).filter (·.1 = pair.1) = pair :: given.filter (·.1 = pair.1) :=
        List.filter_cons_of_pos (by simp)
      rw [numbered, List.filter_cons_of_pos (by simp), ih, hhead, List.zipIdx_cons, List.map_cons,
        List.count_cons_self, Nat.add_assoc]
      rfl
    · rw [numbered, List.filter_cons_of_neg (by simpa using h), ih,
        List.filter_cons_of_neg (by simpa using h), List.count_cons_of_ne h]

/-- The productions, numbered from `n` on, are those of each nonterminal numbered from its offset
on. -/
theorem zipIdx_pairs (hn : ps.keys.Nodup) : ps.pairs.zipIdx n =
    ps.flatMap fun entry => (entry.2.map (entry.1, ·)).zipIdx (n + ps.offset entry.1) := by
  induction ps generalizing n with
  | nil => rfl
  | cons entry ps ih =>
    obtain ⟨A, bodies⟩ := entry
    obtain ⟨hA, hkeys⟩ := List.nodup_cons.1 hn
    have hown : offset A ((A, bodies) :: ps) = 0 := if_pos rfl
    have hothers : ∀ entry ∈ ps, offset entry.1 ((A, bodies) :: ps) =
        bodies.length + offset entry.1 ps := by
      rintro ⟨B, _⟩ he
      refine if_neg ?_
      rintro rfl
      exact hA (List.mem_map.2 ⟨_, he, rfl⟩)
    rw [pairs_cons, List.zipIdx_append, List.length_map, ih hkeys, List.flatMap_cons, hown,
      Nat.add_zero]
    congr 1
    refine List.flatMap_congr fun entry he => ?_
    rw [hothers entry he, Nat.add_assoc]

/-- The numbered productions are the rules, picked out nonterminal by nonterminal. -/
theorem flattened_ofPairs (given : List (Symbol × List Symbol)) : (ofPairs given).flattened =
    (distinct (given.map (·.1))).flatMap fun A =>
      ((ofPairs given).numbered [] given).filter (·.lhs = A) := by
  show (ofPairs given).pairs.zipIdx.map rule = _
  rw [zipIdx_pairs (nodup_keys_ofPairs given), List.map_flatMap]
  have hentries : ofPairs given = (distinct (given.map (·.1))).map fun A =>
      (A, (given.filter (·.1 = A)).map (·.2)) := rfl
  conv_lhs => rw [hentries, List.flatMap_map]
  refine List.flatMap_congr fun A _ => ?_
  rw [filter_numbered, map_alternatives, List.count_nil, Nat.zero_add, Nat.add_zero]
  rfl

end Productions

/-! ## The numbers of a listing -/

/-- What the numbers of the rules promise: they count the rules and agree with the productions. -/
structure Listing.WellNumbered (listing : Listing) : Prop where
  /-- Every number below the number of rules is given once. -/
  ids : (listing.rules.map (·.id)).Perm (List.range listing.rules.length)
  /-- The number of a rule is its place among the productions. -/
  placed : ∀ rule ∈ listing.rules, listing.flattened[rule.id]? = some rule
  /-- Of two rules of one nonterminal the later one has the greater number. -/
  ascending : listing.rules.Pairwise fun rule later => rule.lhs = later.lhs → rule.id < later.id
  /-- The productions are the rules of each nonterminal, in the order of their first rules. -/
  grouped : listing.flattened = (distinct (listing.rules.map (·.lhs))).flatMap fun A =>
    listing.rules.filter (·.lhs = A)
  /-- Looking up a rule gives the least number of the rules that repeat it. -/
  least : ∀ rule ∈ listing.rules, ∃ n, listing.ruleId? rule.lhs rule.rhs = some n ∧
    (∃ twin ∈ listing.rules, twin.lhs = rule.lhs ∧ twin.rhs = rule.rhs ∧ twin.id = n) ∧
    ∀ twin ∈ listing.rules, twin.lhs = rule.lhs → twin.rhs = rule.rhs → n ≤ twin.id

namespace Grammar

variable {g : Grammar} {rule : Rule}

theorem map_id_flattened (g : Grammar) :
    g.flattened.map (·.id) = List.range g.flattened.length := by
  have hlen : g.flattened.length = g.productions.pairs.length := by
    rw [flattened, Productions.flattened, List.length_map, List.length_zipIdx]
  refine List.ext_getElem? fun n => ?_
  rw [List.getElem?_map, flattened_getElem?, Option.map_map, hlen]
  by_cases h : n < g.productions.pairs.length
  · rw [List.getElem?_eq_getElem h, List.getElem?_range h]
    rfl
  · rw [List.getElem?_eq_none (by omega), List.getElem?_eq_none (by simpa using h)]
    rfl

theorem flattened_of_mem (h : rule ∈ g.flattened) : g.flattened[rule.id]? = some rule := by
  obtain ⟨n, hn⟩ := List.getElem?_of_mem h
  have hpair := hn
  rw [flattened_getElem?] at hpair
  obtain ⟨pair, -, rfl⟩ := Option.map_eq_some_iff.1 hpair
  exact hn

theorem pairs_of_mem_flattened (h : rule ∈ g.flattened) :
    g.productions.pairs[rule.id]? = some (rule.lhs, rule.rhs) := by
  have hplace := flattened_of_mem h
  rw [flattened_getElem?] at hplace
  obtain ⟨pair, hp, he⟩ := Option.map_eq_some_iff.1 hplace
  rw [hp, ← he]

/-- The first of the productions that repeat a rule. -/
theorem ruleId?_of_mem_flattened (h : rule ∈ g.flattened) :
    ∃ n, g.ruleId? rule.lhs rule.rhs = some n ∧ ⟨n, rule.lhs, rule.rhs⟩ ∈ g.flattened ∧
      ∀ twin ∈ g.flattened, twin.lhs = rule.lhs → twin.rhs = rule.rhs → n ≤ twin.id := by
  obtain ⟨n, hid⟩ := exists_ruleId? (List.mem_of_getElem? (pairs_of_mem_flattened h))
  obtain ⟨hn, he, hfirst⟩ := List.idxOf?_eq_some_iff.1 hid
  refine ⟨n, hid, ?_, fun twin ht hlhs hrhs => ?_⟩
  · apply List.mem_of_getElem? (i := n)
    rw [flattened_getElem?, List.getElem?_eq_getElem hn, he]
    rfl
  · apply Nat.le_of_not_lt
    intro hlt
    have hpair := pairs_of_mem_flattened ht
    rw [List.getElem?_eq_getElem (hlt.trans hn), hlhs, hrhs] at hpair
    have hother := hfirst twin.id hlt
    rw [Option.some.inj hpair] at hother
    exact hother rfl

end Grammar

theorem Listing.wellNumbered_ofPairs (given : List (Symbol × List Symbol)) (start : Symbol) :
    (Listing.ofPairs given start).WellNumbered := by
  generalize hl : Listing.ofPairs given start = listing
  have hlhs : listing.rules.map (·.lhs) = given.map (·.1) := by
    subst hl
    exact Productions.map_lhs_numbered _ _ _
  have hgrouped : listing.flattened = (distinct (listing.rules.map (·.lhs))).flatMap fun A =>
      listing.rules.filter (·.lhs = A) := by
    rw [hlhs]
    subst hl
    exact Productions.flattened_ofPairs given
  -- nothing is lost by picking out the rules, so all facts on numbers are those of the productions
  have hperm : listing.flattened.Perm listing.rules := by
    rw [hgrouped]
    exact perm_gather (nodup_distinct _) fun rule hr => mem_distinct.2 (List.mem_map_of_mem hr)
  have hids : listing.flattened.Pairwise fun rule later => rule.id < later.id := by
    rw [← List.pairwise_map, Grammar.map_id_flattened]
    exact List.pairwise_lt_range
  refine ⟨?ids, ?placed, ?ascending, hgrouped, ?least⟩
  case ids =>
    rw [← hperm.length_eq, ← Grammar.map_id_flattened]
    exact (hperm.map _).symm
  case placed =>
    intro rule hr
    exact Grammar.flattened_of_mem (hperm.mem_iff.2 hr)
  case ascending =>
    have hown : ∀ A ∈ distinct (listing.rules.map (·.lhs)),
        (listing.rules.filter (·.lhs = A)).Pairwise fun rule later => rule.id < later.id := by
      rw [hgrouped, List.pairwise_flatMap] at hids
      exact hids.1
    rw [List.pairwise_iff_getElem]
    intro i j hi hj hij hsame
    have hA : listing.rules[i].lhs ∈ distinct (listing.rules.map (·.lhs)) :=
      mem_distinct.2 (List.mem_map_of_mem (List.getElem_mem hi))
    have hpair := List.pairwise_iff_getElem.1 (List.pairwise_filter.1 (hown _ hA)) i j hi hj hij
    exact hpair (by simp) (by simpa using hsame.symm)
  case least =>
    intro rule hr
    obtain ⟨n, hid, hn, hleast⟩ := Grammar.ruleId?_of_mem_flattened (hperm.mem_iff.2 hr)
    exact ⟨n, hid, ⟨_, hperm.mem_iff.1 hn, rfl, rfl, rfl⟩,
      fun twin ht => hleast twin (hperm.mem_iff.2 ht)⟩

/-- **The numbers of the rules are those of the productions.**  Whatever the text, its rules stand
in the order of its lines and alternatives, and they are numbered as the productions of the
grammar. -/
theorem rules_numbered_of_read {text : String} {listing : Listing}
    (h : Listing.read text = .ok listing) :
    readLines 1 (Text.lines text.toList) =
        .ok (listing.rules.map fun rule => (rule.lhs, rule.rhs)) ∧
      listing.WellNumbered := by
  obtain ⟨first, rest, hread, rfl⟩ := exists_pairs_of_read h
  refine ⟨?_, Listing.wellNumbered_ofPairs _ _⟩
  rw [hread, Listing.ofPairs, Productions.map_numbered]

/-- Two nonterminals whose rules interleave, with one alternative repeated on one line and again on
a later one. -/
theorem rules_numbered_of_read_interleaved :
    let text := "A -> x | x\nB -> y\nA -> z | x\nB -> y"
    ∃ listing, Listing.read text = .ok listing ∧ listing.WellNumbered ∧
      listing.rules = [⟨0, "A", ["x"]⟩, ⟨1, "A", ["x"]⟩, ⟨4, "B", ["y"]⟩, ⟨2, "A", ["z"]⟩,
        ⟨3, "A", ["x"]⟩, ⟨5, "B", ["y"]⟩] ∧
      listing.ruleId? "A" ["x"] = some 0 ∧ listing.ruleId? "B" ["y"] = some 4 := by
  intro text
  have hread : (Listing.read text).toOption.map
      (fun l => (l.rules, l.ruleId? "A" ["x"], l.ruleId? "B" ["y"])) =
        some ([⟨0, "A", ["x"]⟩, ⟨1, "A", ["x"]⟩, ⟨4, "B", ["y"]⟩, ⟨2, "A", ["z"]⟩,
          ⟨3, "A", ["x"]⟩, ⟨5, "B", ["y"]⟩], some 0, some 4) := by decide +kernel
  obtain ⟨listing, hl, hfacts⟩ := exists_ok_of_toOption hread
  obtain ⟨hrules, hA, hB⟩ := by simpa only [Prod.mk.injEq] using hfacts
  exact ⟨listing, hl, (rules_numbered_of_read hl).2, hrules, hA, hB⟩

end CanonicalLR
