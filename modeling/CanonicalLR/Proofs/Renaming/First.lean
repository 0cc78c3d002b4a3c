import CanonicalLR.Proofs.Renaming.Grammar
import CanonicalLR.Proofs.First.Queries

/-!
# FIRST of renamed symbols

FIRST asks of symbols only whether they are equal, so renamed symbols have renamed sets: in the
least solution (`solveFirst_rename`), and under either strategy when what is known of the one
grammar is what is known of the other (`first_rename`, `scanString_rename`).  Only the sets of
symbols matter for this; the strings that a memo knows are not read.
-/

namespace CanonicalLR

variable {π : Equiv.Perm Symbol} {g : Grammar} {x : Symbol} {xs busy : List Symbol}
  {table next : FirstTable} {m m' : Memo}

/-! ## The least solution -/

namespace FirstTable

/-- A table with other symbols. -/
def rename (π : Equiv.Perm Symbol) (table : FirstTable) : FirstTable :=
  table.map fun entry => (π entry.1, entry.2.rename π)

@[simp] theorem rename_refl : table.rename (Equiv.refl Symbol) = table := by simp [rename]

theorem lookup_rename (table : FirstTable) (x : Symbol) :
    (table.rename π).lookup (π x) = (table.lookup x).map (SymbolSet.rename π) :=
  Entries.lookup_map_keys _ table x

theorem look_rename (table : FirstTable) (x : Symbol) :
    (table.rename π).look (π x) = (table.look x).rename π := by
  rw [look, look, lookup_rename]
  cases table.lookup x <;> rfl

theorem rename_injective : Function.Injective (rename π) := by
  refine List.map_injective_iff.2 fun e f h => ?_
  obtain ⟨hkey, hset⟩ := Prod.mk.inj h
  exact Prod.ext (π.injective hkey) (SymbolSet.rename_injective hset)

end FirstTable

theorem firstUnder_rename (he : π epsilon = epsilon) {look look' : Symbol → SymbolSet}
    (h : ∀ x, look' (π x) = (look x).rename π) (xs : List Symbol) :
    firstUnder look' (xs.map π) = (firstUnder look xs).rename π := by
  induction xs with
  | nil => rw [List.map_nil, firstUnder, firstUnder, SymbolSet.rename_singleton, he]
  | cons x xs ih =>
    have hmem : epsilon ∈ (look x).rename π ↔ epsilon ∈ look x := by
      conv_lhs => rw [← he]
      exact SymbolSet.apply_mem_rename
    rw [List.map_cons, firstUnder, firstUnder, h, ih]
    by_cases hx : epsilon ∈ look x
    · rw [if_pos (hmem.2 hx), if_pos hx, SymbolSet.rename_union, SymbolSet.rename_erase, he]
    · rw [if_neg fun h => hx (hmem.1 h), if_neg hx]

namespace Grammar

theorem firstRound_rename (he : π epsilon = epsilon) (table : FirstTable) :
    (g.rename π).firstRound (table.rename π) = (g.firstRound table).rename π := by
  have hbodies : ∀ bodies : List (List Symbol),
      (bodies.map (List.map π)).foldr
        (fun rhs set => firstUnder (table.rename π).look rhs ∪ set) ∅ =
        (bodies.foldr (fun rhs set => firstUnder table.look rhs ∪ set) ∅).rename π := by
    intro bodies
    induction bodies with
    | nil => rfl
    | cons rhs bodies ih =>
      rw [List.map_cons, List.foldr_cons, List.foldr_cons, ih, SymbolSet.rename_union,
        firstUnder_rename he table.look_rename]
  simp only [firstRound, FirstTable.rename, rename, Productions.rename, List.map_map]
  exact List.map_congr_left fun entry _ => Prod.ext rfl (hbodies entry.2)

theorem settleFirst_rename (he : π epsilon = epsilon) (rounds : Nat) (table : FirstTable) :
    (g.rename π).settleFirst rounds (table.rename π) = (g.settleFirst rounds table).rename π := by
  induction rounds generalizing table with
  | zero => rfl
  | succ rounds ih =>
    rw [settleFirst, settleFirst, firstRound_rename he]
    simp only [FirstTable.rename_injective.eq_iff]
    split
    · rfl
    · exact ih _

/-- **The least solution is renamed with the grammar.** -/
theorem solveFirst_rename (he : π epsilon = epsilon) :
    (g.rename π).solveFirst = g.solveFirst.rename π := by
  have hrounds : (g.rename π).firstRounds = g.firstRounds := by
    rw [firstRounds, bodySymbols_rename, List.length_map, firstRounds]
    simp [rename, Productions.rename]
  have hstart : ((g.rename π).productions.map fun entry => (entry.1, (∅ : SymbolSet))) =
      FirstTable.rename π (g.productions.map fun entry => (entry.1, ∅)) := by
    simp [rename, Productions.rename, FirstTable.rename, Function.comp_def]
  rw [solveFirst, hrounds, hstart, settleFirst_rename he]
  rfl

/-! ## Answers -/

section Answers

variable (he : π epsilon = epsilon) (hm : m'.symbols = FirstTable.rename π m.symbols)

include he hm

theorem firstWhile_rename (busy : List Symbol) (x : Symbol) :
    ((g.rename π).firstWhile (busy.map π) (π x) m').1 = (g.firstWhile busy x m).1.rename π ∧
    ((g.rename π).firstWhile (busy.map π) (π x) m').2.symbols =
      FirstTable.rename π (g.firstWhile busy x m).2.symbols := by
  have hbusy : ∀ (busy : List Symbol) (x), (busy.map π).contains (π x) = busy.contains x := by
    intro busy x
    refine Bool.eq_iff_iff.2 ?_
    rw [List.contains_iff_mem, List.contains_iff_mem, List.mem_map_of_injective π.injective]
  induction busy, x, m using firstWhile.induct g generalizing m' with
  | case1 busy x m hx hb =>
    rw [firstWhile_of_busy hx hb,
      firstWhile_of_busy (isNonterminal_rename.trans hx) ((hbusy busy x).trans hb)]
    exact ⟨rfl, hm⟩
  | case2 busy x m hx hb set hl =>
    have hl' : m'.symbols.lookup (π x) = some (set.rename π) := by
      rw [hm, FirstTable.lookup_rename, hl, Option.map_some]
    have hb' : ¬ (busy.map π).contains (π x) = true := by rwa [hbusy]
    rw [firstWhile_of_known hx hb hl, firstWhile_of_known (isNonterminal_rename.trans hx) hb' hl']
    exact ⟨rfl, hm⟩
  | case3 busy x m hx hb hl ih =>
    have hl' : m'.symbols.lookup (π x) = none := by
      rw [hm, FirstTable.lookup_rename, hl, Option.map_none]
    have hb' : ¬ (busy.map π).contains (π x) = true := by rwa [hbusy]
    -- the visits of the alternatives go on side by side
    have visit : ∀ (bodies : List (List Symbol)) (acc acc' : SymbolSet × Memo),
        acc'.1 = acc.1.rename π → acc'.2.symbols = FirstTable.rename π acc.2.symbols →
        ((bodies.map (List.map π)).foldl ((g.rename π).visitBody ((x :: busy).map π)) acc').1 =
          (bodies.foldl (g.visitBody (x :: busy)) acc).1.rename π ∧
        ((bodies.map (List.map π)).foldl ((g.rename π).visitBody ((x :: busy).map π))
          acc').2.symbols =
          FirstTable.rename π (bodies.foldl (g.visitBody (x :: busy)) acc).2.symbols := by
      intro bodies
      induction bodies with
      | nil => exact fun _ _ hset hsymbols => ⟨hset, hsymbols⟩
      | cons rhs bodies ihb =>
        intro acc acc' hset hsymbols
        refine ihb _ _ ?_ ?_
        · cases rhs with
          | nil => simp only [List.map_nil, visitBody, hset, SymbolSet.rename_insert, he]
          | cons y rest =>
            simp only [List.map_cons, visitBody, hset, SymbolSet.rename_union]
            rw [← List.map_cons, (ih acc y hsymbols).1]
        · cases rhs with
          | nil => exact hsymbols
          | cons y rest => exact (ih acc y hsymbols).2
    obtain ⟨hset, hsymbols⟩ := visit (g.alternatives x) (∅, m) (∅, m') rfl hm
    rw [firstWhile_of_unknown hx hb hl,
      firstWhile_of_unknown (isNonterminal_rename.trans hx) hb' hl']
    simp only [visitBodies, alternatives_rename, Memo.keep]
    refine ⟨hset, ?_⟩
    rw [List.map_cons] at hset hsymbols
    rw [hset, hsymbols]
    rfl
  | case4 busy x m hx =>
    have hx' : ¬ (g.rename π).isNonterminal (π x) = true := by rwa [isNonterminal_rename]
    rw [firstWhile_of_terminal hx, firstWhile_of_terminal hx']
    exact ⟨rfl, hm⟩

theorem first_rename (x : Symbol) :
    ((g.rename π).first (π x) m').1 = (g.first x m).1.rename π ∧
    ((g.rename π).first (π x) m').2.symbols = FirstTable.rename π (g.first x m).2.symbols :=
  firstWhile_rename he hm [] x

/-- **FIRST of a string is renamed with the string**, and so is what is known afterwards. -/
theorem scanString_rename (xs : List Symbol) :
    ((g.rename π).scanString (xs.map π) m').1 = (g.scanString xs m).1.rename π ∧
    ((g.rename π).scanString (xs.map π) m').2.symbols =
      FirstTable.rename π (g.scanString xs m).2.symbols := by
  induction xs generalizing m m' with
  | nil =>
    refine ⟨?_, hm⟩
    rw [List.map_nil, scanString, scanString, SymbolSet.rename_singleton, he]
  | cons x xs ih =>
    obtain ⟨hset, hsymbols⟩ := first_rename he hm x (g := g)
    obtain ⟨hrest, hlast⟩ := ih hsymbols
    have hmem : epsilon ∈ (g.first x m).1.rename π ↔ epsilon ∈ (g.first x m).1 := by
      conv_lhs => rw [← he]
      exact SymbolSet.apply_mem_rename
    rw [List.map_cons, scanString, scanString]
    by_cases hx : epsilon ∈ (g.first x m).1
    · simp only [hset, if_pos hx, if_pos (hmem.2 hx), hrest, hlast, SymbolSet.rename_union,
        SymbolSet.rename_erase, he, and_self]
    · simp only [hset, if_neg hx, if_neg fun h => hx (hmem.1 h), hsymbols, and_self]

end Answers

/-- The strings that are known are not read. -/
theorem scanString_bare (xs : List Symbol) (m : Memo) :
    (g.scanString xs ⟨m.symbols, []⟩).1 = (g.scanString xs m).1 ∧
    (g.scanString xs ⟨m.symbols, []⟩).2.symbols = (g.scanString xs m).2.symbols := by
  have hm : (⟨m.symbols, []⟩ : Memo).symbols =
      FirstTable.rename (Equiv.refl Symbol) m.symbols := by
    rw [FirstTable.rename_refl]
  have h := scanString_rename (g := g) (Equiv.refl_apply epsilon) hm xs
  simpa using h

end Grammar

end CanonicalLR
