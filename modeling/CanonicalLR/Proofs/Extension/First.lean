import CanonicalLR.Proofs.Extension.Grammar
import CanonicalLR.Proofs.First.Queries

/-!
# FIRST under further productions

A question about FIRST leads from symbols that a grammar meets to symbols that it meets, so further
productions do not take part in the answer.  Under the fixed point strategy the rounds of both
grammars go on side by side (`alike_firstRound`); the larger grammar may make more of them, when the
sets of the smaller one are settled (`alike_solveFirst`).  Under either strategy, if as much is
known of what the grammar meets (`Memo.AlikeFor`), the answers are equal and as much is known
afterwards (`alike_firstOfString`).
-/

namespace CanonicalLR

/-- Tables with the same sets for all symbols that a grammar meets. -/
def FirstTable.AlikeFor (g : Grammar) (table table' : FirstTable) : Prop :=
  ∀ x, g.Meets x → table'.lookup x = table.lookup x

/-- Memos from which the same answers follow for all symbols that a grammar meets. -/
structure Memo.AlikeFor (g : Grammar) (memo memo' : Memo) : Prop where
  symbols : FirstTable.AlikeFor g memo.symbols memo'.symbols
  strings : memo'.strings = memo.strings

variable {g g' : Grammar} {table table' : FirstTable} {memo memo' : Memo} {x : Symbol}
  {xs busy : List Symbol}

theorem FirstTable.AlikeFor.look (h : FirstTable.AlikeFor g table table') (hx : g.Meets x) :
    table'.look x = table.look x := by
  rw [FirstTable.look, h x hx, FirstTable.look]

theorem FirstTable.AlikeFor.firstUnder (h : FirstTable.AlikeFor g table table')
    (hxs : ∀ x ∈ xs, g.Meets x) : firstUnder table'.look xs = firstUnder table.look xs := by
  induction xs with
  | nil => rfl
  | cons x xs ih =>
    rw [List.forall_mem_cons] at hxs
    rw [CanonicalLR.firstUnder, CanonicalLR.firstUnder, h.look hxs.1, ih hxs.2]

namespace Grammar

/-! ## The rounds -/

/-- Rounds that change nothing may as well be made. -/
theorem settleFirst_eq_iterate (rounds : Nat) (table : FirstTable) :
    g.settleFirst rounds table = g.firstRound^[rounds] table := by
  induction rounds generalizing table with
  | zero => rfl
  | succ rounds ih =>
    rw [settleFirst]
    split
    · next hfix => exact (Function.iterate_fixed hfix (rounds + 1)).symm
    · exact ih _

theorem iterate_firstRound (rounds : Nat) :
    g.firstRound^[rounds + g.firstRounds] g.noFirst = g.solveFirst := by
  have hsolved : g.firstRound^[g.firstRounds] g.noFirst = g.solveFirst :=
    (settleFirst_eq_iterate g.firstRounds g.noFirst).symm
  rw [Function.iterate_add_apply, hsolved, Function.iterate_fixed firstRound_solveFirst]

namespace Extends

variable (h : g.Extends g')

include h

theorem alike_noFirst : FirstTable.AlikeFor g g.noFirst g'.noFirst := by
  intro x hx
  have hlookup : ∀ g : Grammar, g.noFirst.lookup x = (g.productions.lookup x).map fun _ => ∅ :=
    fun g => Entries.lookup_map (f := fun _ => ∅)
  rw [hlookup, hlookup, h.lookup hx]

/-- A round reads the sets of symbols of right-hand sides. -/
theorem alike_firstRound (ht : FirstTable.AlikeFor g table table') :
    FirstTable.AlikeFor g (g.firstRound table) (g'.firstRound table') := by
  intro x hx
  rw [lookup_firstRound, lookup_firstRound, h.lookup hx]
  refine Option.map_congr fun bodies hb => List.foldr_ext _ _ _ fun rhs hr set => ?_
  have hpair : (x, rhs) ∈ g.productions.pairs :=
    Productions.mem_pairs.2 ⟨bodies, Entries.mem_of_lookup hb, hr⟩
  rw [ht.firstUnder fun y hy => .of_mem hpair hy]

/-- **Further productions leave the least solution alone.** -/
theorem alike_solveFirst : FirstTable.AlikeFor g g.solveFirst g'.solveFirst := by
  have side : ∀ rounds,
      FirstTable.AlikeFor g (g.firstRound^[rounds] g.noFirst)
        (g'.firstRound^[rounds] g'.noFirst) := by
    intro rounds
    induction rounds with
    | zero => exact h.alike_noFirst
    | succ rounds ih =>
      rw [Function.iterate_succ_apply', Function.iterate_succ_apply']
      exact h.alike_firstRound ih
  obtain ⟨rounds, hrounds⟩ := Nat.exists_eq_add_of_le' h.firstRounds_le
  have hlast := side (rounds + g.firstRounds)
  rw [iterate_firstRound, ← hrounds] at hlast
  rwa [← iterate_firstRound (g := g') 0, Nat.zero_add]

theorem alike_openMemo (strategy : FirstStrategy) :
    (g.openMemo strategy).AlikeFor g (g'.openMemo strategy) := by
  refine ⟨?_, ?_⟩
  · cases strategy with
    | guarded => exact fun _ _ => rfl
    | fixedPoint => exact h.alike_solveFirst
  · cases strategy <;> rfl

/-! ## Questions -/

theorem alike_firstWhile (hm : memo.AlikeFor g memo') (hx : g.Meets x) :
    (g'.firstWhile busy x memo').1 = (g.firstWhile busy x memo).1 ∧
      (g.firstWhile busy x memo).2.AlikeFor g (g'.firstWhile busy x memo').2 := by
  have hnt := h.isNonterminal hx
  induction busy, x, memo using firstWhile.induct g generalizing memo' with
  | case1 busy x memo hn hb =>
    rw [firstWhile_of_busy hn hb, firstWhile_of_busy (hnt.trans hn) hb]
    exact ⟨rfl, hm⟩
  | case2 busy x memo hn hb set hl =>
    have hl' : memo'.symbols.lookup x = some set := (hm.symbols x hx).trans hl
    rw [firstWhile_of_known hn hb hl, firstWhile_of_known (hnt.trans hn) hb hl']
    exact ⟨rfl, hm⟩
  | case3 busy x memo hn hb hl ih =>
    have hl' : memo'.symbols.lookup x = none := (hm.symbols x hx).trans hl
    -- the visits of the alternatives go on side by side
    have visit : ∀ (bodies : List (List Symbol)) (acc acc' : SymbolSet × Memo),
        (∀ rhs ∈ bodies, (x, rhs) ∈ g.productions.pairs) → acc'.1 = acc.1 →
        acc.2.AlikeFor g acc'.2 →
        (bodies.foldl (g'.visitBody (x :: busy)) acc').1 =
            (bodies.foldl (g.visitBody (x :: busy)) acc).1 ∧
          (bodies.foldl (g.visitBody (x :: busy)) acc).2.AlikeFor g
            (bodies.foldl (g'.visitBody (x :: busy)) acc').2 := by
      intro bodies
      induction bodies with
      | nil => exact fun _ _ _ hset hacc => ⟨hset, hacc⟩
      | cons rhs bodies ihb =>
        intro acc acc' hbodies hset hacc
        rw [List.forall_mem_cons] at hbodies
        cases rhs with
        | nil => exact ihb _ _ hbodies.2 (congrArg (SymbolSet.insert epsilon) hset) hacc
        | cons y rest =>
          have hy : g.Meets y := .of_mem hbodies.1 List.mem_cons_self
          obtain ⟨hanswer, hlast⟩ := ih acc y hacc hy (h.isNonterminal hy)
          exact ihb _ _ hbodies.2 (congrArg₂ (· ∪ ·) hset hanswer) hlast
    obtain ⟨hset, hlast⟩ := visit (g.alternatives x) (∅, memo) (∅, memo')
      (fun rhs hr => mem_alternatives.1 hr) rfl hm
    rw [firstWhile_of_unknown hn hb hl, firstWhile_of_unknown (hnt.trans hn) hb hl', visitBodies,
      visitBodies, h.alternatives hx]
    refine ⟨hset, fun y hy => ?_, hlast.strings⟩
    rw [Memo.lookup_keep, Memo.lookup_keep, hset, hlast.symbols y hy]
  | case4 busy x memo hn =>
    have hn' : ¬ g'.isNonterminal x = true := by rwa [hnt]
    rw [firstWhile_of_terminal hn, firstWhile_of_terminal hn']
    exact ⟨rfl, hm⟩

theorem alike_scanString (hm : memo.AlikeFor g memo') (hxs : ∀ x ∈ xs, g.Meets x) :
    (g'.scanString xs memo').1 = (g.scanString xs memo).1 ∧
      (g.scanString xs memo).2.AlikeFor g (g'.scanString xs memo').2 := by
  induction xs generalizing memo memo' with
  | nil => exact ⟨rfl, hm⟩
  | cons x xs ih =>
    rw [List.forall_mem_cons] at hxs
    obtain ⟨hset, hmemo⟩ : (g'.first x memo').1 = (g.first x memo).1 ∧
        (g.first x memo).2.AlikeFor g (g'.first x memo').2 := h.alike_firstWhile hm hxs.1
    obtain ⟨hrest, hlast⟩ := ih hmemo hxs.2
    rw [scanString, scanString]
    by_cases hx : epsilon ∈ (g.first x memo).1
    · simp only [hset, if_pos hx, hrest, true_and]
      exact hlast
    · simp only [hset, if_neg hx, true_and]
      exact hmemo

/-- **Further productions leave FIRST of a string alone**, and what is known afterwards. -/
theorem alike_firstOfString (hm : memo.AlikeFor g memo') (hxs : ∀ x ∈ xs, g.Meets x) :
    (g'.firstOfString xs memo').1 = (g.firstOfString xs memo).1 ∧
      (g.firstOfString xs memo).2.AlikeFor g (g'.firstOfString xs memo').2 := by
  obtain ⟨hset, hlast⟩ := h.alike_scanString hm hxs
  rw [firstOfString, firstOfString, hm.strings]
  cases memo.strings.lookup xs with
  | some set => exact ⟨rfl, hm⟩
  | none =>
    refine ⟨hset, hlast.symbols, ?_⟩
    simp only [Memo.keepString, hset, hlast.strings]

end Extends

end Grammar

end CanonicalLR
