import CanonicalLR.Grammar.Listing

/-!
# Productions by membership

The functions on grammars read entries, pairs and look-ups.  Here each of them is characterised by
membership in the list of productions: `mem_alternatives`, `isNonterminal_iff`, `mem_symbols`.  The
numbers of productions are characterised by position: production `k` of `flattened` is the pair at
position `k` (`flattened_getElem?`), and `ruleId?` gives the first position of a pair
(`rule?_of_ruleId?`).
-/

namespace CanonicalLR

/-! ## Entries and their look-up -/

namespace Entries

variable {κ β : Type} [DecidableEq κ]

theorem mem_of_lookup {es : Entries κ β} {k : κ} {v : β} (h : es.lookup k = some v) :
    (k, v) ∈ es := by
  induction es with
  | nil => cases h
  | cons e es ih =>
    rw [lookup_cons] at h
    split at h
    · next hk =>
      subst hk
      cases h
      exact List.mem_cons_self
    · exact List.mem_cons_of_mem _ (ih h)

theorem lookup_of_mem {es : Entries κ β} (hn : es.keys.Nodup) {k : κ} {v : β}
    (h : (k, v) ∈ es) : es.lookup k = some v := by
  induction es with
  | nil => cases h
  | cons e es ih =>
    rw [keys, List.map_cons, List.nodup_cons] at hn
    rw [lookup_cons]
    rcases List.mem_cons.1 h with rfl | h
    · simp
    · have hne : k ≠ e.1 := by
        rintro rfl
        exact hn.1 (List.mem_map.2 ⟨(e.1, v), h, rfl⟩)
      rw [if_neg hne]
      exact ih hn.2 h

theorem lookup_map {γ : Type} {f : β → γ} {es : Entries κ β} {k : κ} :
    (es.map fun e => (e.1, f e.2)).lookup k = (es.lookup k).map f := by
  induction es with
  | nil => rfl
  | cons e es ih =>
    rw [List.map_cons, lookup_cons, lookup_cons, ih]
    by_cases h : k = e.1
    · simp [h]
    · simp [h]

theorem lookup_eq_none_iff {es : Entries κ β} {k : κ} : es.lookup k = none ↔ k ∉ es.keys := by
  induction es with
  | nil => simp [keys]
  | cons e es ih =>
    rw [lookup_cons]
    by_cases h : k = e.1
    · simp [h, keys]
    · rw [if_neg h, ih, keys, keys, List.map_cons, List.mem_cons]
      simp [h]

theorem exists_lookup_iff {es : Entries κ β} {k : κ} :
    (∃ v, es.lookup k = some v) ↔ k ∈ es.keys := by
  rw [← Option.isSome_iff_exists, ← Option.ne_none_iff_isSome, ne_eq, lookup_eq_none_iff,
    Decidable.not_not]

end Entries

/-! ## Pairs -/

theorem Productions.mem_pairs {ps : Productions} {A : Symbol} {rhs : List Symbol} :
    (A, rhs) ∈ ps.pairs ↔ ∃ bodies, (A, bodies) ∈ ps ∧ rhs ∈ bodies := by
  rw [pairs, List.mem_flatMap]
  constructor
  · rintro ⟨⟨B, bodies⟩, he, hm⟩
    obtain ⟨r, hr, e⟩ := List.mem_map.1 hm
    cases e
    exact ⟨bodies, he, hr⟩
  · rintro ⟨bodies, he, hr⟩
    exact ⟨(A, bodies), he, List.mem_map.2 ⟨rhs, hr, rfl⟩⟩

theorem Productions.mem_keys_of_mem_pairs {ps : Productions} {pair : Symbol × List Symbol}
    (h : pair ∈ ps.pairs) : pair.1 ∈ ps.keys := by
  obtain ⟨bodies, he, -⟩ := mem_pairs.1 h
  exact List.mem_map_of_mem he

namespace Grammar

variable {g : Grammar} {A x : Symbol} {rhs : List Symbol}

theorem mem_alternatives : rhs ∈ g.alternatives A ↔ (A, rhs) ∈ g.productions.pairs := by
  rw [Productions.mem_pairs, alternatives]
  constructor
  · intro h
    cases hl : g.productions.lookup A with
    | none => simp [hl] at h
    | some bodies =>
      rw [hl] at h
      exact ⟨bodies, Entries.mem_of_lookup hl, h⟩
  · rintro ⟨bodies, he, hr⟩
    rw [Entries.lookup_of_mem g.nodup he]
    exact hr

theorem isNonterminal_iff : g.isNonterminal x = true ↔ x ∈ g.nonterminals := by
  simp [isNonterminal]

theorem isNonterminal_of_mem (h : (A, rhs) ∈ g.productions.pairs) : g.isNonterminal A = true :=
  isNonterminal_iff.2 (Productions.mem_keys_of_mem_pairs h)

theorem mem_bodySymbols :
    x ∈ g.bodySymbols ↔ ∃ A rhs, (A, rhs) ∈ g.productions.pairs ∧ x ∈ rhs := by
  rw [bodySymbols, List.mem_flatMap]
  constructor
  · rintro ⟨⟨A, rhs⟩, hp, hx⟩
    exact ⟨A, rhs, hp, hx⟩
  · rintro ⟨A, rhs, hp, hx⟩
    exact ⟨(A, rhs), hp, hx⟩

theorem mem_symbols : x ∈ g.symbols ↔ g.isNonterminal x = true ∨ x ∈ g.bodySymbols := by
  rw [symbols, SymbolSet.mem_ofList, List.mem_append, isNonterminal_iff]

theorem mem_symbols_of_mem (h : (A, rhs) ∈ g.productions.pairs) (hx : x ∈ rhs) : x ∈ g.symbols :=
  mem_symbols.2 (.inr (mem_bodySymbols.2 ⟨A, rhs, h, hx⟩))

/-- What the notation grants: the start symbol is a nonterminal, and neither of the two reserved
symbols occurs. -/
structure WellFormed (g : Grammar) : Prop where
  start : g.isNonterminal g.start = true
  epsilon : epsilon ∉ g.symbols
  endMarker : endMarker ∉ g.symbols

/-! ## Numbers of productions -/

/-- The left-hand side and the right-hand side of production `k`. -/
def rule? (g : Grammar) (k : Int) : Option (Symbol × List Symbol) :=
  match k with
  | .ofNat n => g.flattened[n]?.map fun rule => (rule.lhs, rule.rhs)
  | .negSucc _ => none

theorem flattened_getElem? (n : Nat) :
    g.flattened[n]? = g.productions.pairs[n]?.map fun pair => ⟨n, pair.1, pair.2⟩ := by
  simp only [flattened, Productions.flattened, List.getElem?_map, List.getElem?_zipIdx,
    Option.map_map, Nat.zero_add]
  rfl

theorem rule?_natCast (n : Nat) : g.rule? n = g.productions.pairs[n]? := by
  show g.flattened[n]?.map _ = _
  rw [flattened_getElem?, Option.map_map]
  cases g.productions.pairs[n]? <;> rfl

theorem mem_pairs_of_rule? {k : Int} {p : Symbol × List Symbol} (h : g.rule? k = some p) :
    p ∈ g.productions.pairs := by
  cases k with
  | ofNat n =>
    have hn : g.productions.pairs[n]? = some p := (rule?_natCast n).symm.trans h
    exact List.mem_of_getElem? hn
  | negSucc n => cases h

theorem rule?_of_ruleId? {n : Nat} (h : g.ruleId? A rhs = some n) : g.rule? n = some (A, rhs) := by
  rw [rule?_natCast]
  obtain ⟨hn, he, -⟩ := List.idxOf?_eq_some_iff.1 h
  rw [List.getElem?_eq_getElem hn]
  exact congrArg some (by simpa using he)

theorem exists_ruleId? (h : (A, rhs) ∈ g.productions.pairs) : ∃ n, g.ruleId? A rhs = some n := by
  cases hr : g.ruleId? A rhs with
  | some n => exact ⟨n, rfl⟩
  | none => exact absurd h (List.idxOf?_eq_none_iff.1 hr)

end Grammar

end CanonicalLR
