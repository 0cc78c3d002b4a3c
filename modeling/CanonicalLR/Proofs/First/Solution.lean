import CanonicalLR.First.FixedPoint
import CanonicalLR.Proofs.Derivation
import Mathlib.Data.Finset.Card
import Mathlib.Data.Finset.Prod

/-!
# FIRST sets and derivations

`mem_solveFirst_iff`: the computed sets satisfy the FIRST equations.  The rounds only add symbols,
and each of them adds one of finitely many or is the last, so the bound on their number is never
reached.  `mem_firstOf_iff`: in a grammar without the symbol `ε`, FIRST of a string holds exactly
the terminals that begin a string derived from it, and `ε` if it derives the empty string.
-/

namespace CanonicalLR

/-! ## FIRST of a string from FIRST of its symbols -/

section FirstUnder

variable {look look' : Symbol → SymbolSet} {x t : Symbol} {u v : List Symbol}

theorem mem_firstUnder_cons : t ∈ firstUnder look (x :: u) ↔
    (t ∈ look x ∧ t ≠ epsilon) ∨ (epsilon ∈ look x ∧ t ∈ firstUnder look u) := by
  rw [firstUnder]
  by_cases h : epsilon ∈ look x
  · simp [h]
  · have hne : t ∈ look x → t ≠ epsilon := fun ht e => h (e ▸ ht)
    simp only [h, if_false, false_and, or_false]
    exact ⟨fun ht => ⟨ht, hne ht⟩, fun ht => ht.1⟩

theorem mem_firstUnder_append : t ∈ firstUnder look (u ++ v) ↔
    (t ∈ firstUnder look u ∧ t ≠ epsilon) ∨
      (epsilon ∈ firstUnder look u ∧ t ∈ firstUnder look v) := by
  induction u with
  | nil =>
    rw [List.nil_append, firstUnder, SymbolSet.mem_singleton, SymbolSet.mem_singleton]
    simp
  | cons x u ih =>
    rw [List.cons_append, mem_firstUnder_cons, ih, mem_firstUnder_cons, mem_firstUnder_cons]
    simp only [ne_eq, not_true, and_false, false_or]
    tauto

theorem firstUnder_append : firstUnder look (u ++ v) =
    if epsilon ∈ firstUnder look u then (firstUnder look u).erase epsilon ∪ firstUnder look v
    else firstUnder look u := by
  refine SymbolSet.ext fun t => ?_
  rw [mem_firstUnder_append]
  by_cases h : epsilon ∈ firstUnder look u
  · simp [h]
  · have hne : t ∈ firstUnder look u → t ≠ epsilon := fun ht e => h (e ▸ ht)
    simp only [h, if_false, false_and, or_false, and_iff_left_iff_imp]
    exact hne

theorem mem_firstUnder_singleton : t ∈ firstUnder look [x] ↔ t ∈ look x := by
  rw [mem_firstUnder_cons, firstUnder, SymbolSet.mem_singleton]
  by_cases h : t = epsilon
  · simp [h]
  · simp [h]

theorem firstUnder_mono (h : ∀ x t, t ∈ look x → t ∈ look' x) (ht : t ∈ firstUnder look u) :
    t ∈ firstUnder look' u := by
  induction u with
  | nil => exact ht
  | cons x u ih =>
    rw [mem_firstUnder_cons] at ht ⊢
    rcases ht with ⟨hx, hne⟩ | ⟨hx, hu⟩
    · exact .inl ⟨h x t hx, hne⟩
    · exact .inr ⟨h x _ hx, ih hu⟩

end FirstUnder

/-- Two lists of entries with the same keys and the same values are the same list. -/
theorem Entries.ext_of_lookup {κ β : Type} [DecidableEq κ] {es fs : Entries κ β}
    (hk : es.keys = fs.keys) (hn : es.keys.Nodup) (h : ∀ k ∈ es.keys, es.lookup k = fs.lookup k) :
    es = fs := by
  induction es generalizing fs with
  | nil => exact (List.map_eq_nil_iff.1 hk.symm).symm
  | cons e es ih =>
    cases fs with
    | nil => cases hk
    | cons f fs =>
      simp only [keys, List.map_cons, List.cons.injEq, List.nodup_cons] at hk hn
      have he := h e.1 List.mem_cons_self
      rw [lookup_cons, lookup_cons, if_pos rfl, if_pos hk.1] at he
      have hef : e = f := Prod.ext hk.1 (Option.some.inj he)
      subst hef
      congr 1
      refine ih hk.2 hn.2 fun k hkm => ?_
      have hne : k ≠ e.1 := fun eq => hn.1 (eq ▸ hkm)
      have := h k (List.mem_cons_of_mem _ hkm)
      rwa [lookup_cons, lookup_cons, if_neg hne, if_neg hne] at this

namespace Grammar

variable {g : Grammar} {table : FirstTable} {A x t : Symbol}

/-! ## One round -/

theorem keys_firstRound (table : FirstTable) : (g.firstRound table).keys = g.nonterminals := by
  simp [firstRound, Entries.keys, nonterminals, Function.comp_def]

theorem lookup_firstRound (table : FirstTable) (A : Symbol) : (g.firstRound table).lookup A =
    (g.productions.lookup A).map
      fun bodies => bodies.foldr (fun rhs set => firstUnder table.look rhs ∪ set) ∅ := by
  rw [firstRound]
  induction g.productions with
  | nil => rfl
  | cons e es ih =>
    rw [List.map_cons, Entries.lookup_cons, Entries.lookup_cons, ih]
    by_cases h : A = e.1
    · simp [h]
    · simp [h]

theorem mem_foldr_union {bodies : List (List Symbol)} {f : List Symbol → SymbolSet} :
    t ∈ bodies.foldr (fun rhs set => f rhs ∪ set) ∅ ↔ ∃ rhs ∈ bodies, t ∈ f rhs := by
  induction bodies with
  | nil => simp
  | cons rhs bodies ih => simp [ih]

theorem mem_look_firstRound (hA : g.isNonterminal A = true) :
    t ∈ (g.firstRound table).look A ↔
      ∃ rhs, (A, rhs) ∈ g.productions.pairs ∧ t ∈ firstUnder table.look rhs := by
  have hk : g.productions.lookup A ≠ none := by
    rw [ne_eq, Entries.lookup_eq_none_iff, not_not]
    exact isNonterminal_iff.1 hA
  obtain ⟨bodies, hb⟩ := Option.ne_none_iff_exists'.1 hk
  rw [FirstTable.look, lookup_firstRound, hb, Option.map_some, Option.getD_some, mem_foldr_union]
  have ha : ∀ rhs, rhs ∈ bodies ↔ (A, rhs) ∈ g.productions.pairs := by
    intro rhs
    rw [← mem_alternatives, alternatives, hb, Option.getD_some]
  exact exists_congr fun rhs => and_congr_left' (ha rhs)

/-- A symbol that is no nonterminal stands for itself. -/
theorem look_of_not_isNonterminal (hk : table.keys = g.nonterminals)
    (hx : g.isNonterminal x = false) : table.look x = .singleton x := by
  have hn : table.lookup x = none := by
    rw [Entries.lookup_eq_none_iff, hk, ← isNonterminal_iff, hx]
    exact Bool.false_ne_true
  rw [FirstTable.look, hn, Option.getD_none]

/-! ## The rounds come to an end -/

/-- The empty set for every nonterminal. -/
def noFirst (g : Grammar) : FirstTable := g.productions.map fun entry => (entry.1, ∅)

theorem keys_noFirst : g.noFirst.keys = g.nonterminals := by
  simp [noFirst, Entries.keys, nonterminals, Function.comp_def]

theorem not_mem_look_noFirst (hA : g.isNonterminal A = true) : ¬ t ∈ g.noFirst.look A := by
  have hm : A ∈ g.noFirst.keys := keys_noFirst ▸ isNonterminal_iff.1 hA
  obtain ⟨⟨B, set⟩, he, rfl⟩ := List.mem_map.1 hm
  obtain ⟨entry, -, e⟩ := List.mem_map.1 he
  cases e
  have hn : g.noFirst.keys.Nodup := keys_noFirst ▸ g.nodup
  rw [FirstTable.look, Entries.lookup_of_mem hn he]
  exact SymbolSet.not_mem_empty

/-- Whether one table holds everything that another one holds. -/
def FirstBelow (table next : FirstTable) : Prop := ∀ x t, t ∈ table.look x → t ∈ next.look x

theorem firstRound_mono {next : FirstTable} (h : FirstBelow table next) :
    FirstBelow (g.firstRound table) (g.firstRound next) := by
  intro x t ht
  cases hx : g.isNonterminal x with
  | true =>
    rw [mem_look_firstRound hx] at ht ⊢
    obtain ⟨rhs, hr, ht⟩ := ht
    exact ⟨rhs, hr, firstUnder_mono h ht⟩
  | false =>
    rw [look_of_not_isNonterminal (keys_firstRound _) hx] at ht ⊢
    exact ht

/-- What can stand in FIRST of a string by its form alone: `ε`, or a symbol of the string or of a
right-hand side that is no nonterminal. -/
def MayBegin (g : Grammar) (u : List Symbol) (t : Symbol) : Prop :=
  t = epsilon ∨ (t ∈ g.bodySymbols ++ u ∧ g.isNonterminal t = false)

theorem mayBegin_self (hx : g.isNonterminal x = false) : g.MayBegin [x] x := .inr ⟨by simp, hx⟩

theorem MayBegin.mono {u v : List Symbol} (h : g.MayBegin u t)
    (hu : ∀ x ∈ u, x ∈ g.bodySymbols ++ v) :
    g.MayBegin v t := by
  refine h.imp_right fun ⟨hm, hn⟩ => ⟨?_, hn⟩
  rcases List.mem_append.1 hm with hm | hm
  · exact List.mem_append_left _ hm
  · exact hu t hm

/-- What can begin a right-hand side can begin any string. -/
theorem MayBegin.of_body {rhs u : List Symbol} (hr : (A, rhs) ∈ g.productions.pairs)
    (h : g.MayBegin rhs t) : g.MayBegin u t :=
  h.mono fun _ hx => List.mem_append_left _ (mem_bodySymbols.2 ⟨A, rhs, hr, hx⟩)

theorem MayBegin.mem_of_isNonterminal (h : g.MayBegin [A] t) (hA : g.isNonterminal A = true) :
    t ∈ epsilon :: g.bodySymbols := by
  rcases h with rfl | ⟨hm, hn⟩
  · exact List.mem_cons_self
  · rcases List.mem_append.1 hm with hm | hm
    · exact List.mem_cons_of_mem _ hm
    · rw [List.mem_singleton.1 hm, hA] at hn
      cases hn

theorem mayBegin_of_mem_firstUnder {look : Symbol → SymbolSet}
    (h : ∀ x t, t ∈ look x → g.MayBegin [x] t) {u : List Symbol} (ht : t ∈ firstUnder look u) :
    g.MayBegin u t := by
  induction u with
  | nil => exact .inl (SymbolSet.mem_singleton.1 ht)
  | cons x u ih =>
    rcases mem_firstUnder_cons.1 ht with ⟨hx, -⟩ | ⟨-, hu⟩
    · exact (h x t hx).mono (by simp)
    · exact (ih hu).mono fun y hy => by simp [hy]

/-- What the tables of all rounds have in common: a set for every nonterminal, made of symbols that
may be there, and nothing that the next round loses. -/
structure FirstStage (g : Grammar) (table : FirstTable) : Prop where
  keys : table.keys = g.nonterminals
  below : FirstBelow table (g.firstRound table)
  bound : ∀ x t, t ∈ table.look x → g.MayBegin [x] t

theorem firstStage_noFirst : g.FirstStage g.noFirst where
  keys := keys_noFirst
  below x t ht := by
    cases hx : g.isNonterminal x with
    | true => exact absurd ht (not_mem_look_noFirst hx)
    | false =>
      rw [look_of_not_isNonterminal keys_noFirst hx] at ht
      rwa [look_of_not_isNonterminal (keys_firstRound _) hx]
  bound x t ht := by
    cases hx : g.isNonterminal x with
    | true => exact absurd ht (not_mem_look_noFirst hx)
    | false =>
      rw [look_of_not_isNonterminal keys_noFirst hx, SymbolSet.mem_singleton] at ht
      subst ht
      exact mayBegin_self hx

theorem FirstStage.next (h : g.FirstStage table) : g.FirstStage (g.firstRound table) where
  keys := keys_firstRound table
  below := firstRound_mono h.below
  bound x t ht := by
    cases hx : g.isNonterminal x with
    | true =>
      obtain ⟨rhs, hr, ht⟩ := (mem_look_firstRound hx).1 ht
      exact .of_body hr (mayBegin_of_mem_firstUnder h.bound ht)
    | false =>
      rw [look_of_not_isNonterminal (keys_firstRound _) hx, SymbolSet.mem_singleton] at ht
      subst ht
      exact mayBegin_self hx

/-- The entries of a table, as pairs of a nonterminal and a member of its set. -/
def firstFacts (g : Grammar) (table : FirstTable) : Finset (Symbol × Symbol) :=
  (g.nonterminals.toFinset ×ˢ (epsilon :: g.bodySymbols).toFinset).filter
    fun fact => fact.2 ∈ table.look fact.1

theorem card_firstFacts_lt (table : FirstTable) : (g.firstFacts table).card < g.firstRounds := by
  have h₁ : (g.firstFacts table).card ≤
      (g.nonterminals.toFinset ×ˢ (epsilon :: g.bodySymbols).toFinset).card :=
    Finset.card_filter_le _ _
  have h₂ : g.nonterminals.toFinset.card ≤ g.productions.length :=
    (List.toFinset_card_le _).trans (by simp [nonterminals, Entries.keys])
  have h₃ : (epsilon :: g.bodySymbols).toFinset.card ≤ g.bodySymbols.length + 1 :=
    (List.toFinset_card_le _).trans (by simp)
  rw [Finset.card_product] at h₁
  exact Nat.lt_succ_of_le (h₁.trans (Nat.mul_le_mul h₂ h₃))

/-- Tables of one grammar that hold the same are the same. -/
theorem eq_of_firstBelow {next : FirstTable} (hk : table.keys = g.nonterminals)
    (hk' : next.keys = g.nonterminals) (h : FirstBelow table next) (h' : FirstBelow next table) :
    table = next := by
  refine Entries.ext_of_lookup (hk.trans hk'.symm) (hk ▸ g.nodup) fun A hA => ?_
  obtain ⟨s, hs⟩ := Entries.exists_lookup_iff.2 hA
  obtain ⟨s', hs'⟩ := Entries.exists_lookup_iff.2 (hk'.trans hk.symm ▸ hA)
  have hlook : table.look A = next.look A := SymbolSet.ext fun t => ⟨h A t, h' A t⟩
  rw [FirstTable.look, FirstTable.look, hs, hs', Option.getD_some, Option.getD_some] at hlook
  rw [hs, hs', hlook]

/-- Whatever grows without leaving the symbols that may be there adds a fact. -/
theorem card_firstFacts_lt_of_below {next : FirstTable} (hk : table.keys = g.nonterminals)
    (hk' : next.keys = g.nonterminals) (h : FirstBelow table next)
    (bound : ∀ x t, t ∈ next.look x → g.MayBegin [x] t) (hne : next ≠ table) :
    (g.firstFacts table).card < (g.firstFacts next).card := by
  have hnew : ∃ A t, g.isNonterminal A = true ∧ t ∈ next.look A ∧ ¬ t ∈ table.look A := by
    by_contra hall
    refine hne (eq_of_firstBelow hk' hk (fun A t ht => ?_) h)
    cases hA : g.isNonterminal A with
    | true => exact Decidable.byContradiction fun hn => hall ⟨A, t, hA, ht, hn⟩
    | false =>
      rw [look_of_not_isNonterminal hk' hA] at ht
      rwa [look_of_not_isNonterminal hk hA]
  obtain ⟨A, t, hA, ht, hn⟩ := hnew
  have hbase : (A, t) ∈ g.nonterminals.toFinset ×ˢ (epsilon :: g.bodySymbols).toFinset := by
    refine Finset.mem_product.2 ⟨List.mem_toFinset.2 (isNonterminal_iff.1 hA), ?_⟩
    exact List.mem_toFinset.2 ((bound A t ht).mem_of_isNonterminal hA)
  refine Finset.card_lt_card ⟨?_, fun hsub => ?_⟩
  · intro fact hf
    rw [firstFacts, Finset.mem_filter] at hf ⊢
    exact ⟨hf.1, h _ _ hf.2⟩
  · have hm := hsub (Finset.mem_filter.2 ⟨hbase, ht⟩)
    exact hn (Finset.mem_filter.1 hm).2

/-- A round that changes something adds a fact. -/
theorem FirstStage.card_lt (h : g.FirstStage table) (hne : g.firstRound table ≠ table) :
    (g.firstFacts table).card < (g.firstFacts (g.firstRound table)).card :=
  card_firstFacts_lt_of_below h.keys (keys_firstRound table) h.below h.next.bound hne

theorem settleFirst_induction {P : FirstTable → Prop}
    (step : ∀ table, P table → P (g.firstRound table))
    (rounds : Nat) (h : P table) : P (g.settleFirst rounds table) := by
  induction rounds generalizing table with
  | zero => exact h
  | succ rounds ih =>
    rw [settleFirst]
    split
    · exact h
    · exact ih (step table h)

/-- With enough rounds left for all missing facts, the rounds end with a table that they keep. -/
theorem FirstStage.settled {rounds : Nat} (h : g.FirstStage table)
    (hr : g.firstRounds ≤ rounds + (g.firstFacts table).card) :
    g.firstRound (g.settleFirst rounds table) = g.settleFirst rounds table := by
  induction rounds generalizing table with
  | zero =>
    have := card_firstFacts_lt (g := g) table
    omega
  | succ rounds ih =>
    rw [settleFirst]
    split
    · assumption
    · next hne =>
      have := h.card_lt hne
      exact ih h.next (by omega)

/-- FIRST of a symbol string under the computed sets. -/
def firstOf (g : Grammar) (u : List Symbol) : SymbolSet := firstUnder g.solveFirst.look u

theorem firstStage_solveFirst : g.FirstStage g.solveFirst :=
  settleFirst_induction (fun _ h => h.next) _ firstStage_noFirst

/-- One more round changes nothing. -/
theorem firstRound_solveFirst : g.firstRound g.solveFirst = g.solveFirst :=
  firstStage_noFirst.settled (Nat.le_add_right _ _)

/-- The computed sets satisfy the FIRST equations. -/
theorem mem_solveFirst_iff (hA : g.isNonterminal A = true) : t ∈ g.solveFirst.look A ↔
    ∃ rhs, (A, rhs) ∈ g.productions.pairs ∧ t ∈ g.firstOf rhs := by
  have hround : t ∈ (g.firstRound g.solveFirst).look A ↔ _ := mem_look_firstRound hA
  rwa [firstRound_solveFirst] at hround

/-! ## Derivations -/

/-- A terminal that begins a string derived from `u`, or `ε` if `u` derives the empty string. -/
def Begins (g : Grammar) (u : List Symbol) (t : Symbol) : Prop :=
  (t = epsilon ∧ g.Derives u []) ∨
    (t ≠ epsilon ∧ g.isNonterminal t = false ∧ ∃ v, g.Derives u (t :: v))

theorem Begins.of_derives {u v : List Symbol} (d : g.Derives u v) (h : g.Begins v t) :
    g.Begins u t :=
  h.imp (And.imp_right d.trans) fun ⟨hne, hn, w, hw⟩ => ⟨hne, hn, w, d.trans hw⟩

theorem Begins.append_right {u : List Symbol} (h : g.Begins u t) (hne : t ≠ epsilon)
    (v : List Symbol) : g.Begins (u ++ v) t := by
  rcases h with ⟨rfl, -⟩ | ⟨-, hn, w, hw⟩
  · exact absurd rfl hne
  · exact .inr ⟨hne, hn, w ++ v, hw.append .refl⟩

theorem begins_of_mem_firstUnder (hk : table.keys = g.nonterminals)
    (hs : ∀ A t, g.isNonterminal A = true → t ∈ table.look A → g.Begins [A] t)
    {u : List Symbol} (hu : epsilon ∉ u) (ht : t ∈ firstUnder table.look u) : g.Begins u t := by
  have symbol : ∀ x t, x ≠ epsilon → t ∈ table.look x → g.Begins [x] t := by
    intro x t hx ht
    cases hn : g.isNonterminal x with
    | true => exact hs x t hn ht
    | false =>
      rw [look_of_not_isNonterminal hk hn, SymbolSet.mem_singleton] at ht
      subst ht
      exact .inr ⟨hx, hn, [], .refl⟩
  induction u with
  | nil => exact .inl ⟨SymbolSet.mem_singleton.1 ht, .refl⟩
  | cons x u ih =>
    rw [List.mem_cons, not_or] at hu
    rcases mem_firstUnder_cons.1 ht with ⟨hx, hne⟩ | ⟨hx, hu'⟩
    · exact (symbol x t (Ne.symm hu.1) hx).append_right hne u
    · rcases symbol x epsilon (Ne.symm hu.1) hx with ⟨-, d⟩ | ⟨hne, -⟩
      · have d' : g.Derives (x :: u) u := Derives.append d .refl
        exact .of_derives d' (ih hu.2 hu')
      · exact absurd rfl hne

theorem begins_of_mem_solveFirst (he : epsilon ∉ g.symbols) (hA : g.isNonterminal A = true)
    (ht : t ∈ g.solveFirst.look A) : g.Begins [A] t := by
  let Sound (table : FirstTable) : Prop := table.keys = g.nonterminals ∧
    ∀ A t, g.isNonterminal A = true → t ∈ table.look A → g.Begins [A] t
  have sound : Sound g.solveFirst := by
    refine settleFirst_induction (P := Sound) ?_ _
      ⟨keys_noFirst, fun A t hA ht => absurd ht (not_mem_look_noFirst hA)⟩
    rintro table ⟨hk, hs⟩
    refine ⟨keys_firstRound table, fun A t hA ht => ?_⟩
    obtain ⟨rhs, hr, ht⟩ := (mem_look_firstRound hA).1 ht
    have hn : epsilon ∉ rhs := fun hm => he (mem_symbols_of_mem hr hm)
    exact .of_derives (.of_mem hr) (begins_of_mem_firstUnder hk hs hn ht)
  exact sound.2 A t hA ht

/-- FIRST of a string holds FIRST of every string derived from it. -/
theorem mem_firstOf_of_derives {u v : List Symbol} (d : g.Derives u v) (ht : t ∈ g.firstOf v) :
    t ∈ g.firstOf u := by
  induction d using Relation.ReflTransGen.head_induction_on with
  | refl => exact ht
  | head step _ ih =>
    obtain ⟨A, rhs, p, s, hr, rfl, rfl⟩ := step
    have body : ∀ t, t ∈ g.firstOf rhs → t ∈ g.firstOf [A] := fun t ht =>
      mem_firstUnder_singleton.2 ((mem_solveFirst_iff (isNonterminal_of_mem hr)).2 ⟨rhs, hr, ht⟩)
    have around : ∀ q, t ∈ g.firstOf (rhs ++ q) → t ∈ g.firstOf ([A] ++ q) := by
      intro q hq
      rw [firstOf, mem_firstUnder_append] at hq ⊢
      exact hq.imp (And.imp_left (body t)) (And.imp_left (body epsilon))
    rw [List.append_assoc, firstOf, mem_firstUnder_append] at ih
    show t ∈ g.firstOf (p ++ ([A] ++ s))
    rw [firstOf, mem_firstUnder_append]
    exact ih.imp_right (And.imp_right (around s))

/-- **FIRST is exact.** -/
theorem mem_firstOf_iff (he : epsilon ∉ g.symbols) {u : List Symbol} (hu : epsilon ∉ u) :
    t ∈ g.firstOf u ↔ g.Begins u t := by
  constructor
  · exact begins_of_mem_firstUnder firstStage_solveFirst.keys
      (fun A t hA ht => begins_of_mem_solveFirst he hA ht) hu
  · rintro (⟨rfl, d⟩ | ⟨hne, hn, v, d⟩)
    · exact mem_firstOf_of_derives d (SymbolSet.mem_singleton.2 rfl)
    · refine mem_firstOf_of_derives d (mem_firstUnder_cons.2 (.inl ⟨?_, hne⟩))
      rw [look_of_not_isNonterminal firstStage_solveFirst.keys hn]
      exact SymbolSet.mem_singleton.2 rfl

end Grammar

end CanonicalLR
