import CanonicalLR.Proofs.Demands
import CanonicalLR.Proofs.Extension.First
import CanonicalLR.Proofs.Numbering

/-!
# The automaton under further productions

All items of an automaton are made of symbols that its grammar meets, so a grammar with further
productions predicts the same items in the same order and finds the same sets under the same numbers
(`Grammar.Extends.alike_closure`, `Grammar.Extends.alike_explore`).  It has larger bounds, but the
bounds of the smaller grammar suffice already, and what is left of a budget does nothing
(`saturate_of_le`, `explore_of_le`).  So both grammars have one automaton
(`Grammar.Extends.automaton_eq`).
-/

namespace CanonicalLR

namespace Grammar

variable {g g' : Grammar} {memo memo' : Memo} {i j item : Item} {items pending seeds : List Item}
  {x : Symbol} {budget : Nat} {c c' : Collection}

/-! ## More budget than needed -/

theorem Visiting.saturate_add (h : g.Visiting seeds items pending memo)
    (hb : (g.candidates seeds).length + pending.length < budget + items.length) (more : Nat) :
    g.saturate (budget + more) items pending memo = g.saturate budget items pending memo := by
  induction budget generalizing items pending memo with
  | zero =>
    have := h.length_le
    omega
  | succ budget ih =>
    rw [Nat.add_right_comm]
    cases pending with
    | nil => rfl
    | cons item pending =>
      rw [saturate_cons, saturate_cons]
      refine ih h.next ?_
      simp only [List.length_append, List.length_cons] at hb ⊢
      omega

theorem saturate_of_le (hm : memo.Credible g) (hb : g.closureBudget (distinct items) ≤ budget) :
    g.saturate budget (distinct items) (distinct items) memo = g.closure items memo := by
  obtain ⟨more, rfl⟩ := Nat.exists_eq_add_of_le hb
  exact (visiting_seeds hm items).saturate_add
    (Nat.add_lt_add_right (length_candidates _) _) more

theorem explore_add (budget more : Nat) (c : Collection) :
    g.explore (budget + more) c = g.explore more (g.explore budget c) := by
  induction budget generalizing c with
  | zero => rw [Nat.zero_add, explore]
  | succ budget ih =>
    rw [Nat.add_right_comm]
    cases hq : c.sets[c.rows.length]? with
    | none => rw [explore_of_none hq, explore_of_none hq, explore_of_none hq]
    | some items => rw [explore_of_some hq, explore_of_some hq, ih]

theorem explore_of_le (hm : memo.Credible g) (hb : 2 ^ g.itemCount ≤ budget) :
    g.explore budget (g.initialCollection memo) = g.fullCollection memo := by
  obtain ⟨more, rfl⟩ := Nat.exists_eq_add_of_le hb
  rw [explore_add, ← fullCollection, explore_of_none]
  rw [List.getElem?_eq_none_iff]
  exact (full_done hm).ge

/-! ## What items are made of -/

theorem IsItem.meets_of_next? (wf : g.WellFormed) (h : g.IsItem i) (hx : i.next? = some x) :
    g.Meets x := .inl (h.mem_symbols_of_next? wf hx)

/-- The symbols of which FIRST is asked. -/
theorem IsItem.meets_of_mem (h : g.IsItem i) : ∀ y ∈ i.beyond ++ [i.lookahead], g.Meets y := by
  intro y hy
  rcases List.mem_append.1 hy with hy | hy
  · exact .of_mem_bodySymbols (h.mem_bodySymbols_of_mem_beyond hy)
  · rw [List.mem_singleton.1 hy]
    rcases h.lookahead with e | ⟨hbody, -⟩
    · exact .inr e
    · exact .of_mem_bodySymbols hbody

theorem IsItem.of_mem_predictions (hm : memo.Credible g) (h : g.IsItem i)
    (hj : j ∈ (g.predictions i memo).1) : g.IsItem j := by
  have hF : g.CredibleFirst fun xs => (g.firstOfString xs memo).1 := fun xs t ht =>
    (kept_credible xs memo hm).strings xs _ t (lookup_firstOfString xs memo) ht
  exact h.predicts hF (mem_predictions.1 hj)

/-! ## Side by side -/

/-- Explorations that have come equally far. -/
structure Collection.AlikeFor (g : Grammar) (c c' : Collection) : Prop where
  sets : c'.sets = c.sets
  rows : c'.rows = c.rows
  memo : c.memo.AlikeFor g c'.memo

namespace Extends

variable (h : g.Extends g') (wf : g.WellFormed)

include h wf

theorem alike_predictions (hm : memo.AlikeFor g memo') (hi : g.IsItem item) :
    (g'.predictions item memo').1 = (g.predictions item memo).1 ∧
      (g.predictions item memo).2.AlikeFor g (g'.predictions item memo').2 := by
  cases hn : item.next? with
  | none =>
    simp only [predictions, hn, true_and]
    exact hm
  | some x =>
    have hx := hi.meets_of_next? wf hn
    obtain ⟨hset, hlast⟩ := h.alike_firstOfString hm hi.meets_of_mem
    simp only [predictions, hn, h.isNonterminal hx, h.alternatives hx]
    by_cases hB : g.isNonterminal x = true
    · simp only [if_pos hB, hset, true_and]
      exact hlast
    · simp only [if_neg hB, true_and]
      exact hm

theorem alike_saturate (budget : Nat) (items pending : List Item)
    (hm : memo.AlikeFor g memo') (hc : memo.Credible g) (hi : ∀ i ∈ pending, g.IsItem i) :
    (g'.saturate budget items pending memo').1 = (g.saturate budget items pending memo).1 ∧
      (g.saturate budget items pending memo).2.AlikeFor g
        (g'.saturate budget items pending memo').2 := by
  induction budget generalizing items pending memo memo' with
  | zero => exact ⟨rfl, hm⟩
  | succ budget ih =>
    cases pending with
    | nil => exact ⟨rfl, hm⟩
    | cons item pending =>
      rw [List.forall_mem_cons] at hi
      obtain ⟨hpredicted, hmemo⟩ := h.alike_predictions wf hm hi.1
      have hfresh : g'.freshItems items item memo' = g.freshItems items item memo := by
        rw [freshItems, hpredicted, freshItems]
      rw [saturate_cons, saturate_cons, hfresh]
      refine ih _ _ hmemo (kept_credible.predictions item hc) fun i hmem => ?_
      rcases List.mem_append.1 hmem with hmem | hmem
      · exact hi.2 i hmem
      · exact hi.1.of_mem_predictions hc (mem_freshItems.1 hmem).1

/-- **Further productions leave closures alone**, item by item. -/
theorem alike_closure (hm : memo.AlikeFor g memo') (hc : memo.Credible g)
    (hi : ∀ i ∈ items, g.IsItem i) :
    (g'.closure items memo').1 = (g.closure items memo).1 ∧
      (g.closure items memo).2.AlikeFor g (g'.closure items memo').2 := by
  have hseeds : ∀ i ∈ distinct items, g.IsItem i := fun i hm => hi i (mem_distinct.1 hm)
  have hside :=
    h.alike_saturate wf (g'.closureBudget (distinct items)) (distinct items) _ hm hc hseeds
  rwa [saturate_of_le hc (h.closureBudget_le _)] at hside

theorem alike_successors (xs : List Symbol) (sets : List (List Item))
    (hm : memo.AlikeFor g memo') (hc : memo.Credible g) (hi : ∀ i ∈ items, g.IsItem i) :
    (g'.successors items xs sets memo').1 = (g.successors items xs sets memo).1 ∧
    (g'.successors items xs sets memo').2.1 = (g.successors items xs sets memo).2.1 ∧
    (g.successors items xs sets memo).2.2.AlikeFor g (g'.successors items xs sets memo').2.2 := by
  induction xs generalizing sets memo memo' with
  | nil => exact ⟨rfl, rfl, hm⟩
  | cons x xs ih =>
    obtain ⟨htarget, hmemo⟩ : (g'.goto items x memo').1 = (g.goto items x memo).1 ∧
        (g.goto items x memo).2.AlikeFor g (g'.goto items x memo').2 :=
      h.alike_closure wf hm hc fun i hmem => .movedOver hi hmem
    obtain ⟨hrow, hlast⟩ := ih (register sets (g.goto items x memo).1).2 hmemo
      (kept_credible.goto items x hc)
    simp only [successors, htarget]
    exact ⟨congrArg _ hrow, hlast⟩

theorem alike_explore (budget : Nat) (hc : g.Exploring c) (hcc : c.AlikeFor g c') :
    (g.explore budget c).AlikeFor g (g'.explore budget c') := by
  induction budget generalizing c c' with
  | zero => exact hcc
  | succ budget ih =>
    obtain ⟨sets', rows', memo'⟩ := c'
    obtain ⟨rfl, rfl, hm⟩ := hcc
    cases hq : c.sets[c.rows.length]? with
    | none =>
      rw [explore_of_none hq, explore_of_none (c := ⟨c.sets, c.rows, memo'⟩) hq]
      exact ⟨rfl, rfl, hm⟩
    | some items =>
      obtain ⟨hrow, hsets, hlast⟩ := h.alike_successors wf (Item.nextSymbols items) c.sets hm
        hc.credible (hc.sets.isItem items (List.mem_of_getElem? hq))
      rw [explore_of_some hq, explore_of_some (c := ⟨c.sets, c.rows, memo'⟩) hq]
      exact ih (hc.next hq) ⟨hsets, congrArg (c.rows ++ [·]) hrow, hlast⟩

theorem alike_initialCollection (hm : memo.AlikeFor g memo') (hc : memo.Credible g) :
    (g.initialCollection memo).AlikeFor g (g'.initialCollection memo') := by
  have hseed : ∀ i ∈ [g.initialItem], g.IsItem i := fun i hi =>
    List.mem_singleton.1 hi ▸ isItem_initialItem
  obtain ⟨hset, hmemo⟩ := h.alike_closure wf hm hc hseed
  have hsame : g'.initialCollection memo' =
      ⟨[(g'.closure [g.initialItem] memo').1], [], (g'.closure [g.initialItem] memo').2⟩ := by
    rw [initialCollection, initialItem, h.augmentedStart, h.start, initialItem]
  rw [hsame]
  exact ⟨congrArg ([·]) hset, rfl, hmemo⟩

theorem alike_fullCollection (hm : memo.AlikeFor g memo') (hc : memo.Credible g) :
    (g.fullCollection memo).AlikeFor g (g'.fullCollection memo') := by
  have hside := h.alike_explore wf (2 ^ g'.itemCount) (exploring_initial hc)
    (h.alike_initialCollection wf hm hc)
  rwa [← initialCollection, explore_of_le hc (Nat.pow_le_pow_right (by decide) h.itemCount_le)]
    at hside

/-- **Further productions leave the automaton alone.** -/
theorem automaton_eq (strategy : FirstStrategy) : g'.automaton strategy = g.automaton strategy := by
  have hfull := h.alike_fullCollection wf (h.alike_openMemo strategy) (credible_openMemo strategy)
  show (g'.fullCollection _).toAutomaton _ = (g.fullCollection _).toAutomaton _
  rw [Collection.toAutomaton, hfull.sets, hfull.rows, h.augmentedStart, Collection.toAutomaton]

end Extends

end Grammar

end CanonicalLR
