import CanonicalLR.Proofs.Collection
import CanonicalLR.Proofs.Correspondence
import Mathlib.Logic.Equiv.Basic

/-!
# Renamed grammars

A grammar whose symbols are spelled in another way has the same productions in the same order.  A
renaming of the symbols of a grammar is one of all symbols (`exists_perm_extends`), so nothing has
to be said of symbols that do not occur, and the augmented start can be renamed with the others
(`exists_renaming`).
-/

namespace CanonicalLR

/-- Different symbols that are to become different symbols are renamed by some permutation. -/
theorem exists_perm_extends (pairs : List (Symbol × Symbol)) (hold : (pairs.map (·.1)).Nodup)
    (hnew : (pairs.map (·.2)).Nodup) : ∃ π : Equiv.Perm Symbol, ∀ p ∈ pairs, π p.1 = p.2 := by
  induction pairs with
  | nil => exact ⟨Equiv.refl Symbol, by simp⟩
  | cons p ps ih =>
    obtain ⟨x, y⟩ := p
    obtain ⟨hx, hold⟩ := List.nodup_cons.1 hold
    obtain ⟨hy, hnew⟩ := List.nodup_cons.1 hnew
    obtain ⟨π, hπ⟩ := ih hold hnew
    refine ⟨π.trans (Equiv.swap (π x) y), fun q hq => ?_⟩
    rw [Equiv.trans_apply]
    rcases List.mem_cons.1 hq with rfl | hq
    · exact Equiv.swap_apply_left _ _
    · -- the exchange leaves the images of the other symbols where they are
      have hqx : q.1 ≠ x := fun e => hx (List.mem_map.2 ⟨q, hq, e⟩)
      have hqy : q.2 ≠ y := fun e => hy (List.mem_map.2 ⟨q, hq, e⟩)
      rw [Equiv.swap_apply_of_ne_of_ne (π.injective.ne hqx) (hπ q hq ▸ hqy), hπ q hq]

variable {π : Equiv.Perm Symbol} {x t : Symbol} {s s' : SymbolSet}

/-! ## Sets -/

namespace SymbolSet

/-- The set of the renamed members. -/
def rename (π : Equiv.Perm Symbol) (s : SymbolSet) : SymbolSet := .ofList (s.toList.map π)

theorem mem_rename : t ∈ s.rename π ↔ π.symm t ∈ s := by
  rw [rename, mem_ofList, List.mem_map, mem_def]
  constructor
  · rintro ⟨x, hx, rfl⟩
    rwa [Equiv.symm_apply_apply]
  · exact fun h => ⟨_, h, π.apply_symm_apply t⟩

@[simp] theorem apply_mem_rename : π t ∈ s.rename π ↔ t ∈ s := by
  rw [mem_rename, Equiv.symm_apply_apply]

@[simp] theorem rename_empty : (∅ : SymbolSet).rename π = ∅ := rfl

@[simp] theorem rename_refl : s.rename (Equiv.refl Symbol) = s := ext fun _ => mem_rename

theorem rename_union : (s ∪ s').rename π = s.rename π ∪ s'.rename π := by
  refine ext fun t => ?_
  simp only [mem_rename, mem_union]

theorem rename_insert : (s.insert x).rename π = (s.rename π).insert (π x) := by
  refine ext fun t => ?_
  rw [mem_rename, mem_insert, mem_insert, mem_rename, Equiv.symm_apply_eq]

theorem rename_singleton : (singleton x).rename π = singleton (π x) := rfl

theorem rename_erase : (s.erase x).rename π = (s.rename π).erase (π x) := by
  refine ext fun t => ?_
  rw [mem_rename, mem_erase, mem_erase, mem_rename, ne_eq, Equiv.symm_apply_eq]

theorem rename_injective : Function.Injective (rename π) := by
  intro s s' h
  refine ext fun t => ?_
  rw [← apply_mem_rename, h, apply_mem_rename]

end SymbolSet

/-! ## Productions -/

/-- A production with other symbols. -/
def renamePair (ρ : Symbol → Symbol) (pair : Symbol × List Symbol) : Symbol × List Symbol :=
  (ρ pair.1, pair.2.map ρ)

theorem renamePair_injective : Function.Injective (renamePair π) := by
  rintro ⟨A, rhs⟩ ⟨B, body⟩ h
  obtain ⟨hA, hrhs⟩ := Prod.mk.inj h
  exact Prod.ext (π.injective hA) (List.map_injective_iff.2 π.injective hrhs)

theorem Entries.lookup_map_keys {β γ : Type} (f : β → γ) (es : Entries Symbol β) (x : Symbol) :
    List.lookup (π x) (es.map fun e => (π e.1, f e.2)) = (es.lookup x).map f := by
  induction es with
  | nil => rfl
  | cons e es ih =>
    rw [List.map_cons, lookup_cons, lookup_cons, ih]
    by_cases h : x = e.1
    · simp [h]
    · simp [h, π.injective.ne h]

namespace Productions

/-- Productions with other symbols. -/
def rename (π : Equiv.Perm Symbol) (ps : Productions) : Productions :=
  ps.map fun entry => (π entry.1, entry.2.map (List.map π))

theorem keys_rename (ps : Productions) : (ps.rename π).keys = ps.keys.map π := by
  simp [rename, Entries.keys, Function.comp_def]

theorem pairs_rename (ps : Productions) : (ps.rename π).pairs = ps.pairs.map (renamePair π) := by
  simp [pairs, rename, renamePair, List.flatMap_map, List.map_flatMap, Function.comp_def]

theorem ofPairs_map (given : List (Symbol × List Symbol)) :
    ofPairs (given.map (renamePair π)) = (ofPairs given).rename π := by
  have hkeys : distinct ((given.map (renamePair π)).map (·.1)) =
      (distinct (given.map (·.1))).map π := by
    rw [← distinct_map fun _ _ h => π.injective h, List.map_map, List.map_map]
    rfl
  rw [ofPairs, hkeys, ofPairs, rename, List.map_map, List.map_map]
  refine List.map_congr_left fun lhs _ => ?_
  simp [List.filter_map, renamePair, Function.comp_def]

end Productions

/-! ## Grammars -/

namespace Grammar

/-- A grammar with other symbols. -/
def rename (π : Equiv.Perm Symbol) (g : Grammar) : Grammar where
  productions := g.productions.rename π
  start := π g.start
  nodup := by
    rw [Productions.keys_rename]
    exact g.nodup.map π.injective

variable {g : Grammar} {A : Symbol} {rhs : List Symbol}

@[simp] theorem rename_refl : g.rename (Equiv.refl Symbol) = g := by
  simp [rename, Productions.rename]

theorem nonterminals_rename : (g.rename π).nonterminals = g.nonterminals.map π :=
  g.productions.keys_rename

@[simp] theorem isNonterminal_rename : (g.rename π).isNonterminal (π x) = g.isNonterminal x := by
  refine Bool.eq_iff_iff.2 ?_
  rw [isNonterminal_iff, isNonterminal_iff, nonterminals_rename,
    List.mem_map_of_injective π.injective]

theorem alternatives_rename (A : Symbol) :
    (g.rename π).alternatives (π A) = (g.alternatives A).map (List.map π) := by
  have hlookup : (g.rename π).productions.lookup (π A) =
      (g.productions.lookup A).map (List.map (List.map π)) := Entries.lookup_map_keys _ _ A
  rw [alternatives, alternatives, hlookup]
  cases g.productions.lookup A <;> rfl

theorem mem_pairs_rename :
    (π A, rhs.map π) ∈ (g.rename π).productions.pairs ↔ (A, rhs) ∈ g.productions.pairs := by
  show renamePair π (A, rhs) ∈ (g.productions.rename π).pairs ↔ _
  rw [Productions.pairs_rename, List.mem_map_of_injective renamePair_injective]

theorem bodySymbols_rename : (g.rename π).bodySymbols = g.bodySymbols.map π := by
  rw [bodySymbols, rename, Productions.pairs_rename, List.flatMap_map, bodySymbols,
    List.map_flatMap]
  rfl

theorem mem_symbols_rename : π x ∈ (g.rename π).symbols ↔ x ∈ g.symbols := by
  rw [mem_symbols, mem_symbols, isNonterminal_rename, bodySymbols_rename,
    List.mem_map_of_injective π.injective]

theorem ruleId?_rename : (g.rename π).ruleId? (π A) (rhs.map π) = g.ruleId? A rhs := by
  have hmap : ∀ ps : List (Symbol × List Symbol),
      (ps.map (renamePair π)).idxOf? (renamePair π (A, rhs)) = ps.idxOf? (A, rhs) := by
    intro ps
    induction ps with
    | nil => rfl
    | cons p ps ih =>
      rw [List.map_cons, List.idxOf?_cons, List.idxOf?_cons, ih]
      by_cases h : p = (A, rhs)
      · simp [h]
      · simp [h, renamePair_injective.ne h]
  show List.idxOf? (renamePair π (A, rhs)) (g.productions.rename π).pairs = _
  rw [Productions.pairs_rename, hmap]
  rfl

theorem itemCount_rename : (g.rename π).itemCount = g.itemCount := by
  have hcount : ∀ (ps : List (Symbol × List Symbol)),
      ((ps.map (renamePair π)).map (·.2)).foldr (fun rhs count => rhs.length + 1 + count) 0 =
        (ps.map (·.2)).foldr (fun rhs count => rhs.length + 1 + count) 0 := by
    intro ps
    induction ps with
    | nil => rfl
    | cons p ps ih =>
      simp only [List.map_cons, List.foldr_cons, ih, renamePair, List.length_map]
  rw [itemCount, itemCount, bodySymbols_rename, List.length_map, List.foldr_cons, List.foldr_cons,
    rename, Productions.pairs_rename, hcount]
  rfl

theorem ofPairs_rename (given : List (Symbol × List Symbol)) (start : Symbol) :
    Grammar.ofPairs (given.map (renamePair π)) (π start) =
      (Grammar.ofPairs given start).rename π := by
  simp only [ofPairs, rename, Productions.ofPairs_map]

/-- Whether the reserved symbols and the augmented start are renamed as they have to be. -/
structure Respects (π : Equiv.Perm Symbol) (g : Grammar) : Prop where
  epsilon : π epsilon = epsilon
  endMarker : π endMarker = endMarker
  augmentedStart : (g.rename π).augmentedStart = π g.augmentedStart

theorem Respects.renamed (h : g.Respects π) : g.Renamed π (g.rename π) where
  nonterminal _ := isNonterminal_rename
  rule _ _ := mem_pairs_rename
  augmentedStart := h.augmentedStart
  endMarker := h.endMarker

theorem Respects.initialItem (h : g.Respects π) :
    (g.rename π).initialItem = g.initialItem.rename π := by
  rw [Grammar.initialItem, h.augmentedStart, Grammar.initialItem, Item.rename, h.endMarker]
  rfl

theorem WellFormed.rename (wf : g.WellFormed) (h : g.Respects π) : (g.rename π).WellFormed where
  start := isNonterminal_rename.trans wf.start
  epsilon hm := by
    rw [← h.epsilon, mem_symbols_rename] at hm
    exact wf.epsilon hm
  endMarker hm := by
    rw [← h.endMarker, mem_symbols_rename] at hm
    exact wf.endMarker hm

/-! ## Renamings of the symbols of a grammar -/

theorem exists_primed_eq (used : SymbolSet) (x : Symbol) :
    ∃ y, primed used (x ++ "'") = y ++ "'" := by
  generalize hz : x ++ "'" = z
  fun_induction primed used z generalizing x with
  | case1 z _ ih => exact ih z rfl
  | case2 z _ => exact ⟨x, hz.symm⟩

/-- The augmented start ends with an apostrophe. -/
theorem unreserved_primed (used : SymbolSet) (x : Symbol) :
    Unreserved (primed used (x ++ "'")) := by
  obtain ⟨y, hy⟩ := exists_primed_eq used x
  have hlast : ∀ z : Symbol, y ++ "'" = z → z.toList.getLast? = some '\'' := by
    rintro _ rfl
    simp
  rw [hy]
  refine ⟨fun e => ?_, fun e => ?_⟩
  · exact absurd (hlast _ e) (by decide)
  · exact absurd (hlast _ e) (by decide)

/-- A renaming of the symbols of a grammar to symbols that are not reserved is one of all symbols,
which also renames the augmented start. -/
theorem exists_renaming (wf : g.WellFormed) (ρ : Symbol → Symbol)
    (hinj : ∀ x ∈ g.symbols, ∀ y ∈ g.symbols, ρ x = ρ y → x = y)
    (hres : ∀ x ∈ g.symbols, Unreserved (ρ x)) :
    ∃ π : Equiv.Perm Symbol, (∀ x ∈ g.symbols, π x = ρ x) ∧ g.Respects π := by
  let symbols' : SymbolSet := .ofList (g.symbols.toList.map ρ)
  let start' : Symbol := primed symbols' (ρ g.start ++ "'")
  have hsymbols' : ∀ y, y ∈ symbols' ↔ ∃ x ∈ g.symbols, ρ x = y := by
    intro y
    rw [SymbolSet.mem_ofList, List.mem_map]
    rfl
  have hstart : Unreserved g.augmentedStart := unreserved_primed _ _
  have hstart' : Unreserved start' := unreserved_primed _ _
  have hnodup : g.symbols.toList.Nodup := g.symbols.ascending.imp fun h => String.ne_of_lt h
  have hnodup' : (g.symbols.toList.map ρ).Nodup := hnodup.map_on hinj
  have hmem' : ∀ y ∈ g.symbols.toList.map ρ, Unreserved y ∧ y ≠ start' := by
    intro y hy
    refine ⟨?_, ?_⟩
    · obtain ⟨x, hx, rfl⟩ := List.mem_map.1 hy
      exact hres x hx
    · rintro rfl
      exact primed_not_mem _ _ (SymbolSet.mem_ofList.2 hy)
  obtain ⟨π, hπ⟩ := exists_perm_extends
    ((CanonicalLR.endMarker, CanonicalLR.endMarker) :: (CanonicalLR.epsilon, CanonicalLR.epsilon) ::
      (g.augmentedStart, start') :: g.symbols.toList.map fun x => (x, ρ x))
    (by
      rw [List.map_cons, List.map_cons, List.map_cons, List.map_map]
      have hid : ((fun p : Symbol × Symbol => p.1) ∘ fun x => (x, ρ x)) = id := rfl
      simp only [hid, List.map_id, List.nodup_cons, List.mem_cons, not_or]
      exact ⟨⟨by decide, hstart.1.symm, wf.endMarker⟩, ⟨hstart.2.symm, wf.epsilon⟩,
        augmentedStart_not_mem, hnodup⟩)
    (by
      rw [List.map_cons, List.map_cons, List.map_cons, List.map_map]
      have hρ : ((fun p : Symbol × Symbol => p.2) ∘ fun x => (x, ρ x)) = ρ := rfl
      simp only [hρ, List.nodup_cons, List.mem_cons, not_or]
      exact ⟨⟨by decide, hstart'.1.symm, fun h => (hmem' _ h).1.1 rfl⟩,
        ⟨hstart'.2.symm, fun h => (hmem' _ h).1.2 rfl⟩, fun h => (hmem' _ h).2 rfl, hnodup'⟩)
  have hρ : ∀ x ∈ g.symbols, π x = ρ x := fun x hx =>
    hπ (x, ρ x) (.tail _ (.tail _ (.tail _ (List.mem_map.2 ⟨x, hx, rfl⟩))))
  refine ⟨π, hρ, hπ (_, _) (.tail _ (.head _)), hπ (_, _) (.head _), ?_⟩
  have hused : (g.rename π).symbols = symbols' := by
    refine SymbolSet.ext fun y => ?_
    rw [← π.apply_symm_apply y, mem_symbols_rename, hsymbols']
    constructor
    · exact fun h => ⟨_, h, (hρ _ h).symm⟩
    · rintro ⟨x, hx, e⟩
      rw [← hρ x hx] at e
      rwa [← π.injective e]
  have hstartρ : π g.start = ρ g.start := hρ _ (mem_symbols.2 (.inl wf.start))
  rw [augmentedStart, hused, rename, hstartρ]
  exact (hπ (g.augmentedStart, start') (.tail _ (.tail _ (.head _)))).symm

end Grammar

/-! ## Listings -/

/-- A listing with other symbols: its rules are the same in the same order. -/
def Listing.rename (ρ : Symbol → Symbol) (listing : Listing) : Listing :=
  .ofPairs (listing.rules.map fun rule => (ρ rule.lhs, rule.rhs.map ρ)) (ρ listing.start)

theorem Listing.toGrammar_rename {text : String} {listing : Listing}
    (h : Listing.read text = .ok listing) {ρ : Symbol → Symbol}
    (hρ : ∀ x ∈ listing.symbols, π x = ρ x) :
    (listing.rename ρ).toGrammar = listing.toGrammar.rename π := by
  have hstart : ρ listing.start = π listing.start :=
    (hρ _ (Grammar.mem_symbols.2 (.inl (wellFormed_of_read h).start))).symm
  obtain ⟨first, rest, -, rfl⟩ := exists_pairs_of_read h
  have hrules : (Listing.ofPairs (first :: rest) first.1).rules.map
      (fun rule => (ρ rule.lhs, rule.rhs.map ρ)) = (first :: rest).map (renamePair π) := by
    have hpairs := Productions.map_numbered (.ofPairs (first :: rest)) [] (first :: rest)
    have hmap : (first :: rest).map (renamePair ρ) = (first :: rest).map (renamePair π) := by
      refine List.map_congr_left fun pair hp => ?_
      have hmem : (pair.1, pair.2) ∈ (Grammar.ofPairs (first :: rest) first.1).productions.pairs :=
        Productions.mem_pairs_ofPairs.2 hp
      have hlhs := hρ _ (Grammar.mem_symbols.2 (.inl (Grammar.isNonterminal_of_mem hmem)))
      exact Prod.ext hlhs.symm (List.map_congr_left fun x hx =>
        (hρ x (Grammar.mem_symbols_of_mem hmem hx)).symm)
    conv_rhs => rw [← hmap, ← hpairs, List.map_map]
    rfl
  rw [Listing.rename, hrules, hstart]
  exact Grammar.ofPairs_rename _ _

end CanonicalLR
