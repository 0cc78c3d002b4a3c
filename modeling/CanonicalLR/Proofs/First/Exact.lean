import CanonicalLR.Proofs.Reading
import CanonicalLR.Proofs.Session
import Mathlib.Logic.Function.Iterate

/-!
# FIRST by passes in place

The FIRST equations can also be solved in place: one alternative after the other adds what it gives
under the sets as they are, and a pass over all alternatives is repeated until it changes nothing.
The sets on the way differ from those of the rounds, and they depend on the order of the
alternatives.  The end does not: a table made in this way that no alternative changes is the least
solution (`FirstReached.eq_solveFirst`), and the passes come to such a table (`exists_pass_stops`).

`fixedPoint_exact` puts this together with derivations.  Under the fixed point strategy an answer is
FIRST of its string in the sense of derivations, whatever was asked before, and whatever the order
of the rules.
-/

namespace CanonicalLR

namespace FirstTable

/-- The table after one alternative has added what it gives under the sets of the table. -/
def extend (table : FirstTable) (pair : Symbol × List Symbol) : FirstTable :=
  table.map fun entry =>
    if entry.1 = pair.1 then (entry.1, firstUnder table.look pair.2 ∪ entry.2) else entry

variable {table : FirstTable} {pair : Symbol × List Symbol} {x t : Symbol}

theorem keys_extend (table : FirstTable) (pair : Symbol × List Symbol) :
    (table.extend pair).keys = table.keys := by
  rw [extend, Entries.keys, Entries.keys, List.map_map]
  refine List.map_congr_left fun entry _ => ?_
  by_cases h : entry.1 = pair.1 <;> simp [h]

theorem lookup_extend : (table.extend pair).lookup x =
    (table.lookup x).map fun set =>
      if x = pair.1 then firstUnder table.look pair.2 ∪ set else set := by
  unfold extend
  -- what is added is read off the whole table, also behind its first entry
  generalize firstUnder table.look pair.2 = added
  induction table with
  | nil => rfl
  | cons entry rest ih =>
    rw [List.map_cons, Entries.lookup_cons, Entries.lookup_cons, ih]
    by_cases hx : x = entry.1
    · subst hx
      by_cases hp : entry.1 = pair.1 <;> simp [hp]
    · by_cases hp : entry.1 = pair.1
      · simp [hp, hp ▸ hx]
      · simp [hp, hx]

theorem mem_look_extend (h : pair.1 ∈ table.keys) : t ∈ (table.extend pair).look x ↔
    t ∈ table.look x ∨ (x = pair.1 ∧ t ∈ firstUnder table.look pair.2) := by
  rw [look, look, lookup_extend]
  cases hl : table.lookup x with
  | none =>
    have hx : x ≠ pair.1 := fun e => Entries.lookup_eq_none_iff.1 hl (e ▸ h)
    simp [hx]
  | some set =>
    by_cases hx : x = pair.1
    · simp [hx, or_comm]
    · simp [hx]

end FirstTable

namespace Grammar

variable {g g' : Grammar} {table next : FirstTable} {pair : Symbol × List Symbol}
  {ps : List (Symbol × List Symbol)} {x t : Symbol} {n : Nat}

/-! ## The least solution -/

/-- Whether a table holds all that its alternatives give. -/
def FirstClosed (g : Grammar) (table : FirstTable) : Prop :=
  ∀ A rhs, (A, rhs) ∈ g.productions.pairs → ∀ t ∈ firstUnder table.look rhs, t ∈ table.look A

/-- The computed sets are below every table that holds all that its alternatives give. -/
theorem solveFirst_below (terminal : ∀ x, g.isNonterminal x = false → table.look x = .singleton x)
    (hc : g.FirstClosed table) : FirstBelow g.solveFirst table := by
  have agree : ∀ {known : FirstTable} {x t}, known.keys = g.nonterminals →
      g.isNonterminal x = false → t ∈ known.look x → t ∈ table.look x := by
    intro known x t hk hx ht
    rwa [terminal x hx, ← look_of_not_isNonterminal hk hx]
  let Below (known : FirstTable) : Prop := known.keys = g.nonterminals ∧ FirstBelow known table
  have below : Below g.solveFirst := by
    refine settleFirst_induction (P := Below) ?_ _ ⟨keys_noFirst, fun x t ht => ?_⟩
    · rintro known ⟨hk, hb⟩
      refine ⟨keys_firstRound known, fun x t ht => ?_⟩
      cases hx : g.isNonterminal x with
      | true =>
        obtain ⟨rhs, hr, ht⟩ := (mem_look_firstRound hx).1 ht
        exact hc x rhs hr t (firstUnder_mono hb ht)
      | false => exact agree (keys_firstRound known) hx ht
    · cases hx : g.isNonterminal x with
      | true => exact absurd ht (not_mem_look_noFirst hx)
      | false => exact agree keys_noFirst hx ht
  exact below.2

theorem firstClosed_solveFirst : g.FirstClosed g.solveFirst := fun _ rhs hr _ ht =>
  (mem_solveFirst_iff (isNonterminal_of_mem hr)).2 ⟨rhs, hr, ht⟩

/-- Two grammars with the same nonterminals and the same productions, each in any order. -/
structure SameRules (g g' : Grammar) : Prop where
  nonterminal : ∀ x, g.isNonterminal x = g'.isNonterminal x
  rule : ∀ pair, pair ∈ g.productions.pairs ↔ pair ∈ g'.productions.pairs

theorem SameRules.symm (h : g.SameRules g') : g'.SameRules g :=
  ⟨fun x => (h.nonterminal x).symm, fun pair => (h.rule pair).symm⟩

theorem SameRules.solveFirst_below (h : g.SameRules g') :
    FirstBelow g.solveFirst g'.solveFirst := by
  refine Grammar.solveFirst_below (fun x hx => ?_) fun A rhs hr => ?_
  · exact look_of_not_isNonterminal firstStage_solveFirst.keys (h.nonterminal x ▸ hx)
  · exact firstClosed_solveFirst A rhs ((h.rule (A, rhs)).1 hr)

/-- Pairs in another order give the same rules. -/
theorem sameRules_of_perm {given given' : List (Symbol × List Symbol)} {start start' : Symbol}
    (h : given.Perm given') :
    (Grammar.ofPairs given start).SameRules (Grammar.ofPairs given' start') := by
  refine ⟨fun x => Bool.eq_iff_iff.2 ?_, fun pair => ?_⟩
  · rw [isNonterminal_ofPairs, isNonterminal_ofPairs]
    exact exists_congr fun rhs => h.mem_iff
  · show pair ∈ (Productions.ofPairs given).pairs ↔ pair ∈ (Productions.ofPairs given').pairs
    rw [Productions.mem_pairs_ofPairs, Productions.mem_pairs_ofPairs, h.mem_iff]

/-- The least solution does not depend on the order of the rules. -/
theorem SameRules.firstOf_eq (h : g.SameRules g') (xs : List Symbol) :
    g.firstOf xs = g'.firstOf xs :=
  SymbolSet.ext fun _ =>
    ⟨firstUnder_mono h.solveFirst_below, firstUnder_mono h.symm.solveFirst_below⟩

/-! ## Passes in place -/

/-- The tables that alternatives make of nothing, one after the other in any order. -/
inductive FirstReached (g : Grammar) : FirstTable → Prop
  | start : FirstReached g g.noFirst
  | extend {table : FirstTable} {pair : Symbol × List Symbol} (h : FirstReached g table)
      (hp : pair ∈ g.productions.pairs) : FirstReached g (table.extend pair)

/-- One pass: every alternative in order adds what it gives. -/
def firstPass (g : Grammar) (table : FirstTable) : FirstTable :=
  g.productions.pairs.foldl FirstTable.extend table

theorem FirstReached.keys (h : g.FirstReached table) : table.keys = g.nonterminals := by
  induction h with
  | start => exact keys_noFirst
  | extend _ _ ih => rw [FirstTable.keys_extend, ih]

theorem FirstReached.mem_keys (h : g.FirstReached table) (hp : pair ∈ g.productions.pairs) :
    pair.1 ∈ table.keys := by
  rw [h.keys]
  exact isNonterminal_iff.1 (isNonterminal_of_mem hp)

theorem FirstReached.below_extend (h : g.FirstReached table) (hp : pair ∈ g.productions.pairs) :
    FirstBelow table (table.extend pair) := fun _ _ ht =>
  (FirstTable.mem_look_extend (h.mem_keys hp)).2 (.inl ht)

/-- No alternative adds more than the least solution holds. -/
theorem FirstReached.below_solveFirst (h : g.FirstReached table) :
    FirstBelow table g.solveFirst := by
  induction h with
  | start =>
    intro x t ht
    cases hx : g.isNonterminal x with
    | true => exact absurd ht (not_mem_look_noFirst hx)
    | false =>
      rw [look_of_not_isNonterminal keys_noFirst hx] at ht
      rwa [look_of_not_isNonterminal firstStage_solveFirst.keys hx]
  | @extend table pair h hp ih =>
    intro x t ht
    rcases (FirstTable.mem_look_extend (h.mem_keys hp)).1 ht with hold | ⟨rfl, hadded⟩
    · exact ih x t hold
    · exact firstClosed_solveFirst _ _ hp t (firstUnder_mono ih hadded)

/-- **What no alternative changes any more is the least solution**, in whatever order the
alternatives have added to it. -/
theorem FirstReached.eq_solveFirst (h : g.FirstReached table)
    (hfix : ∀ pair ∈ g.productions.pairs, table.extend pair = table) : table = g.solveFirst := by
  have terminal : ∀ x, g.isNonterminal x = false → table.look x = .singleton x := fun _ hx =>
    look_of_not_isNonterminal h.keys hx
  refine eq_of_firstBelow h.keys firstStage_solveFirst.keys h.below_solveFirst
    (solveFirst_below terminal fun A rhs hr t ht => ?_)
  have hadded := (FirstTable.mem_look_extend (h.mem_keys hr)).2 (.inr ⟨rfl, ht⟩)
  rwa [hfix _ hr] at hadded

theorem FirstReached.foldl (h : g.FirstReached table)
    (hps : ∀ pair ∈ ps, pair ∈ g.productions.pairs) :
    g.FirstReached (ps.foldl FirstTable.extend table) ∧
      FirstBelow table (ps.foldl FirstTable.extend table) := by
  induction ps generalizing table with
  | nil => exact ⟨h, fun _ _ ht => ht⟩
  | cons pair ps ih =>
    have hp := hps pair List.mem_cons_self
    obtain ⟨hlast, hbelow⟩ := ih (h.extend hp) fun p hp' => hps p (List.mem_cons_of_mem _ hp')
    exact ⟨hlast, fun x t ht => hbelow x t (h.below_extend hp x t ht)⟩

/-- Alternatives that change nothing together change nothing one by one. -/
theorem FirstReached.extend_eq_of_foldl (h : g.FirstReached table)
    (hps : ∀ pair ∈ ps, pair ∈ g.productions.pairs)
    (hfix : ps.foldl FirstTable.extend table = table) : ∀ pair ∈ ps, table.extend pair = table := by
  induction ps with
  | nil => simp
  | cons first ps ih =>
    have hfirst := hps first List.mem_cons_self
    have hrest : ∀ p ∈ ps, p ∈ g.productions.pairs := fun p hp => hps p (List.mem_cons_of_mem _ hp)
    have hback := ((h.extend hfirst).foldl hrest).2
    rw [List.foldl_cons] at hfix
    rw [hfix] at hback
    have hsame : table.extend first = table :=
      eq_of_firstBelow (h.extend hfirst).keys h.keys hback (h.below_extend hfirst)
    rw [hsame] at hfix
    intro pair hp
    rcases List.mem_cons.1 hp with rfl | hp
    · exact hsame
    · exact ih hrest hfix pair hp

theorem FirstReached.pass (h : g.FirstReached table) : g.FirstReached (g.firstPass table) :=
  (h.foldl fun _ hp => hp).1

theorem FirstReached.iterate (n : Nat) : g.FirstReached (g.firstPass^[n] g.noFirst) := by
  induction n with
  | zero => exact .start
  | succ n ih =>
    rw [Function.iterate_succ_apply']
    exact ih.pass

/-- Where the passes stop, they have found the least solution. -/
theorem iterate_firstPass_eq
    (hstop : g.firstPass (g.firstPass^[n] g.noFirst) = g.firstPass^[n] g.noFirst) :
    g.firstPass^[n] g.noFirst = g.solveFirst :=
  have h : g.FirstReached (g.firstPass^[n] g.noFirst) := .iterate n
  h.eq_solveFirst (h.extend_eq_of_foldl (fun _ hp => hp) hstop)

/-- A pass that changes something adds a fact. -/
theorem FirstReached.card_lt (h : g.FirstReached table) (hne : g.firstPass table ≠ table) :
    (g.firstFacts table).card < (g.firstFacts (g.firstPass table)).card :=
  card_firstFacts_lt_of_below h.keys h.pass.keys (h.foldl fun _ hp => hp).2
    (fun x t ht => firstStage_solveFirst.bound x t (h.pass.below_solveFirst x t ht)) hne

/-- **The passes stop**, before there are more of them than facts that can be added. -/
theorem exists_pass_stops (g : Grammar) : ∃ n < g.firstRounds,
    g.firstPass (g.firstPass^[n] g.noFirst) = g.firstPass^[n] g.noFirst := by
  by_contra hall
  have grows : ∀ n ≤ g.firstRounds, n ≤ (g.firstFacts (g.firstPass^[n] g.noFirst)).card := by
    intro n hn
    induction n with
    | zero => exact Nat.zero_le _
    | succ n ih =>
      have hlt := (FirstReached.iterate (g := g) n).card_lt fun hstop => hall ⟨n, hn, hstop⟩
      rw [Function.iterate_succ_apply']
      exact (ih (Nat.le_of_succ_le hn)).trans_lt hlt
  exact absurd (card_firstFacts_lt _) (Nat.not_lt.2 (grows g.firstRounds le_rfl))

/-! ## Answers -/

theorem stable_settled : g.Stable (Memo.Settled g) where
  first x memo h := by rwa [first_settled h]
  string := kept_settled

/-- FIRST of a string as it is answered under the fixed point strategy after some questions. -/
def firstAfter (g : Grammar) (queries : List Query) (xs : List Symbol) : SymbolSet :=
  (g.firstOfString xs (g.session queries (g.openMemo .fixedPoint)).2).1

/-- FIRST of a symbol as it is answered under the fixed point strategy after some questions. -/
def firstSymbolAfter (g : Grammar) (queries : List Query) (x : Symbol) : SymbolSet :=
  (g.first x (g.session queries (g.openMemo .fixedPoint)).2).1

theorem firstAfter_eq (queries : List Query) (xs : List Symbol) :
    g.firstAfter queries xs = g.firstOf xs := by
  have settled := stable_settled.session queries (settled_openMemo (g := g))
  exact firstOfString_eq (kept_settled xs _ settled).strings

theorem mem_firstSymbolAfter (queries : List Query) :
    t ∈ g.firstSymbolAfter queries x ↔ t ∈ g.firstOf [x] := by
  have settled := stable_settled.session queries (settled_openMemo (g := g))
  rw [firstSymbolAfter, first_settled settled]
  exact mem_firstUnder_singleton.symm

end Grammar

/-- **The fixed point strategy is exact.**  Take a grammar in which `ε` is no symbol; that is so,
and `$` is none either, for every grammar that is read.  The equations are solved before the bound
on the rounds is reached; passes in place stop as well, and wherever they stop, they have found the
same sets.  After any questions, FIRST of a string is answered by the terminals that begin a string
derived from it, and `ε` if the empty string is derived; for a symbol likewise.  So FIRST of a
concatenation is that of its two parts put together, and the order of the rules does not matter. -/
theorem fixedPoint_exact :
    (∀ {text : String} {listing : Listing}, Listing.read text = .ok listing →
      epsilon ∉ listing.symbols ∧ endMarker ∉ listing.symbols) ∧
    ∀ {g : Grammar}, epsilon ∉ g.symbols →
      g.firstRound g.solveFirst = g.solveFirst ∧
      (∃ n < g.firstRounds, g.firstPass (g.firstPass^[n] g.noFirst) = g.firstPass^[n] g.noFirst) ∧
      (∀ n, g.firstPass (g.firstPass^[n] g.noFirst) = g.firstPass^[n] g.noFirst →
        g.firstPass^[n] g.noFirst = g.solveFirst) ∧
      (∀ queries xs, epsilon ∉ xs → ∀ t, t ∈ g.firstAfter queries xs ↔ g.Begins xs t) ∧
      (∀ queries x, x ≠ epsilon → ∀ t, t ∈ g.firstSymbolAfter queries x ↔ g.Begins [x] t) ∧
      (∀ queries u v, g.firstAfter queries (u ++ v) =
        if epsilon ∈ g.firstAfter queries u then
          (g.firstAfter queries u).erase epsilon ∪ g.firstAfter queries v
        else g.firstAfter queries u) ∧
      ∀ {g' : Grammar}, g.SameRules g' → ∀ queries queries' xs,
        g'.firstAfter queries' xs = g.firstAfter queries xs := by
  refine ⟨fun h => ⟨(wellFormed_of_read h).epsilon, (wellFormed_of_read h).endMarker⟩, ?_⟩
  intro g he
  refine ⟨?_, g.exists_pass_stops, fun n => Grammar.iterate_firstPass_eq, ?_, ?_, ?_, ?_⟩
  · exact Grammar.firstRound_solveFirst
  · intro queries xs hxs t
    rw [Grammar.firstAfter_eq, Grammar.mem_firstOf_iff he hxs]
  · intro queries x hx t
    rw [Grammar.mem_firstSymbolAfter, Grammar.mem_firstOf_iff he (by simpa using hx.symm)]
  · intro queries u v
    simp only [Grammar.firstAfter_eq]
    exact firstUnder_append
  · intro g' same queries queries' xs
    rw [Grammar.firstAfter_eq, Grammar.firstAfter_eq, same.firstOf_eq]

/-- Left recursion, a symbol that can vanish and one that derives no string of terminals.  The
answers are the same after other questions and with the rules in another order. -/
theorem fixedPoint_exact_vanishing :
    let pairs : List (Symbol × List Symbol) :=
      [("A", ["A", "a"]), ("A", ["B"]), ("B", ["b"]), ("B", []), ("C", ["C", "c"])]
    let g : Grammar := .ofPairs pairs "A"
    let reversed : Grammar := .ofPairs pairs.reverse "C"
    (∃ listing, Listing.read "A -> A a | B\nB -> b |\nC -> C c" = .ok listing ∧
      epsilon ∉ listing.symbols) ∧
    epsilon ∉ g.symbols ∧ g.SameRules reversed ∧
    g.firstAfter [.first "B", .canonical] ["A", "d"] = .ofList ["a", "b", "d"] ∧
    g.Begins ["A", "d"] "d" ∧ ¬ g.Begins ["C"] "d" ∧ g.Begins ["A"] epsilon ∧
    reversed.firstAfter [] ["A", "d"] = .ofList ["a", "b", "d"] := by
  intro pairs g reversed
  obtain ⟨read, exact⟩ := fixedPoint_exact
  have htext : (Listing.read "A -> A a | B\nB -> b |\nC -> C c").toOption.map (·.start) =
      some "A" := by decide +kernel
  obtain ⟨listing, hread, -⟩ := exists_ok_of_toOption htext
  have he : epsilon ∉ g.symbols := by decide +kernel
  have same : g.SameRules reversed := Grammar.sameRules_of_perm pairs.reverse_perm.symm
  obtain ⟨-, -, -, strings, symbols, -, reordered⟩ := exact he
  have hafter : g.firstAfter [.first "B", .canonical] ["A", "d"] = .ofList ["a", "b", "d"] := by
    decide +kernel
  refine ⟨⟨listing, hread, (read hread).1⟩, he, same, hafter, ?_, ?_, ?_, ?_⟩
  · exact (strings [.first "B", .canonical] ["A", "d"] (by decide) "d").1 (by decide +kernel)
  · exact fun h => absurd ((symbols [] "C" (by decide) "d").2 h) (by decide +kernel)
  · exact (symbols [] "A" (by decide) epsilon).1 (by decide +kernel)
  · exact (reordered same [.first "B", .canonical] [] ["A", "d"]).trans hafter

end CanonicalLR
