import CanonicalLR.Automaton.Closure
import CanonicalLR.Proofs.First.Queries

/-!
# What a closure holds

`Predicts F` is one prediction step, with FIRST of strings given by a function `F`, and
`InClosure F seeds` is what such steps reach from the seeds.  `mem_closure`: a computed closure
holds exactly that, for every function that agrees with the memo after it.

The visit of pending items stops by itself: all items are among finitely many candidates, and the
budget exceeds their number.
-/

namespace CanonicalLR

namespace Grammar

variable {g : Grammar} {F : List Symbol → SymbolSet} {P : Memo → Prop} {memo : Memo}
  {i j item : Item} {items pending seeds : List Item} {x : Symbol}

/-! ## One prediction -/

/-- An item with a nonterminal after its dot predicts the alternatives of this nonterminal. -/
def Predicts (g : Grammar) (F : List Symbol → SymbolSet) (i j : Item) : Prop :=
  ∃ B rhs b, i.next? = some B ∧ (B, rhs) ∈ g.productions.pairs ∧
    b ∈ F (i.beyond ++ [i.lookahead]) ∧ b ≠ epsilon ∧ j = ⟨B, rhs, 0, b⟩

/-- What predictions reach from the seeds. -/
def InClosure (g : Grammar) (F : List Symbol → SymbolSet) (seeds : List Item) (j : Item) : Prop :=
  ∃ i ∈ seeds, Relation.ReflTransGen (g.Predicts F) i j

/-- The computed predictions of an item, with the answer that the memo gives. -/
theorem mem_predictions : j ∈ (g.predictions item memo).1 ↔
    g.Predicts (fun xs => (g.firstOfString xs memo).1) item j := by
  unfold predictions Predicts
  cases item.next? with
  | none => simp
  | some B =>
    by_cases hB : g.isNonterminal B = true
    · simp only [hB, if_true, List.mem_flatMap, mem_alternatives, List.mem_map]
      constructor
      · rintro ⟨rhs, hr, b, hb, rfl⟩
        have hb := SymbolSet.mem_erase.1 (SymbolSet.mem_def.2 hb)
        exact ⟨B, rhs, b, rfl, hr, hb.1, hb.2, rfl⟩
      · rintro ⟨C, rhs, b, hC, hr, hb, hne, rfl⟩
        cases hC
        exact ⟨rhs, hr, b, SymbolSet.mem_def.1 (SymbolSet.mem_erase.2 ⟨hb, hne⟩), rfl⟩
    · simp only [hB]
      refine iff_of_false List.not_mem_nil ?_
      rintro ⟨C, rhs, b, hC, hr, -⟩
      cases hC
      exact hB (isNonterminal_of_mem hr)

theorem Kept.predictions (hP : g.Kept P) (item : Item) (h : P memo) :
    P (g.predictions item memo).2 := by
  unfold Grammar.predictions
  split
  · exact h
  · split
    · exact hP _ _ h
    · exact h

/-- The lookaheads that an item predicts are those of a function that agrees with the memo
afterwards. -/
theorem firstOfString_of_agrees {B : Symbol} (hF : (g.predictions item memo).2.Agrees F)
    (hn : item.next? = some B) (hB : g.isNonterminal B = true) :
    (g.firstOfString (item.beyond ++ [item.lookahead]) memo).1 =
      F (item.beyond ++ [item.lookahead]) := by
  apply firstOfString_eq
  simpa only [predictions, hn, hB, if_true] using hF

/-- With a function that agrees with the memo afterwards, its answers are the ones used. -/
theorem mem_predictions_of_agrees (hF : (g.predictions item memo).2.Agrees F) :
    j ∈ (g.predictions item memo).1 ↔ g.Predicts F item j := by
  rw [mem_predictions]
  constructor
  · rintro ⟨B, rhs, b, hn, hr, hb, hj⟩
    exact ⟨B, rhs, b, hn, hr, firstOfString_of_agrees hF hn (isNonterminal_of_mem hr) ▸ hb, hj⟩
  · rintro ⟨B, rhs, b, hn, hr, hb, hj⟩
    rw [← firstOfString_of_agrees hF hn (isNonterminal_of_mem hr)] at hb
    exact ⟨B, rhs, b, hn, hr, hb, hj⟩

/-- The lookahead of a predicted item occurs in a right-hand side, or in the predicting item. -/
theorem mayBegin_of_predicts (hm : memo.Credible g)
    (h : g.Predicts (fun xs => (g.firstOfString xs memo).1) i j) :
    g.MayBegin (i.beyond ++ [i.lookahead]) j.lookahead := by
  obtain ⟨B, rhs, b, -, -, hb, -, rfl⟩ := h
  exact (kept_credible _ _ hm).strings _ _ b (lookup_firstOfString _ memo) hb

/-! ## The visit of pending items -/

theorem Kept.saturate (hP : g.Kept P) (budget : Nat) (items pending : List Item) (h : P memo) :
    P (g.saturate budget items pending memo).2 := by
  induction budget generalizing items pending memo with
  | zero => exact h
  | succ budget ih =>
    cases pending with
    | nil => exact h
    | cons item pending => exact ih _ _ (hP.predictions item h)

/-- All that the closure of some seeds can hold. -/
def candidates (g : Grammar) (seeds : List Item) : List Item :=
  seeds ++ g.productions.pairs.flatMap fun p =>
    (g.bodySymbols ++ (seeds.flatMap (·.rhs) ++ seeds.map (·.lookahead))).map fun a =>
      ⟨p.1, p.2, 0, a⟩

theorem length_candidates (seeds : List Item) :
    (g.candidates seeds).length < g.closureBudget seeds := by
  simp [candidates, closureBudget, List.length_flatMap, Function.comp_def, Nat.add_assoc]

theorem mem_of_mem_beyond (h : x ∈ i.beyond) : x ∈ i.rhs := List.mem_of_mem_drop h

theorem mem_candidates_of_predicts (hm : memo.Credible g) (hi : i ∈ g.candidates seeds)
    (h : g.Predicts (fun xs => (g.firstOfString xs memo).1) i j) : j ∈ g.candidates seeds := by
  have hl := mayBegin_of_predicts hm h
  obtain ⟨B, rhs, b, -, hr, -, hne, rfl⟩ := h
  have hb : b ∈ g.bodySymbols ++ (i.beyond ++ [i.lookahead]) := (hl.resolve_left hne).1
  refine List.mem_append_right _ (List.mem_flatMap.2 ⟨(B, rhs), hr, List.mem_map.2 ⟨b, ?_, rfl⟩⟩)
  simp only [List.mem_append, List.mem_singleton, List.mem_flatMap, List.mem_map] at hb ⊢
  rcases List.mem_append.1 hi with hi | hi
  · rcases hb with hb | hb | rfl
    · exact .inl hb
    · exact .inr (.inl ⟨i, hi, mem_of_mem_beyond hb⟩)
    · exact .inr (.inr ⟨i, hi, rfl⟩)
  · obtain ⟨⟨A, body⟩, hp, hi⟩ := List.mem_flatMap.1 hi
    obtain ⟨a, ha, rfl⟩ := List.mem_map.1 hi
    rcases hb with hb | hb | rfl
    · exact .inl hb
    · exact .inl (mem_bodySymbols.2 ⟨A, body, hp, mem_of_mem_beyond hb⟩)
    · simpa only [List.mem_append, List.mem_flatMap, List.mem_map] using ha

/-- What holds of the list of items between two visits. -/
structure Visiting (g : Grammar) (seeds items pending : List Item) (memo : Memo) : Prop where
  credible : memo.Credible g
  nodup : items.Nodup
  subset : ∀ i ∈ items, i ∈ g.candidates seeds
  pending : ∀ i ∈ pending, i ∈ items

/-- The items that a visit appends. -/
def freshItems (g : Grammar) (items : List Item) (item : Item) (memo : Memo) : List Item :=
  distinct ((g.predictions item memo).1.filter fun i => !items.contains i)

theorem mem_freshItems : j ∈ g.freshItems items item memo ↔
    j ∈ (g.predictions item memo).1 ∧ j ∉ items := by
  rw [freshItems, mem_distinct, List.mem_filter]
  simp

theorem saturate_cons (budget : Nat) : g.saturate (budget + 1) items (item :: pending) memo =
    g.saturate budget (items ++ g.freshItems items item memo)
      (pending ++ g.freshItems items item memo) (g.predictions item memo).2 := rfl

theorem Visiting.next (h : g.Visiting seeds items (item :: pending) memo) :
    g.Visiting seeds (items ++ g.freshItems items item memo)
      (pending ++ g.freshItems items item memo) (g.predictions item memo).2 where
  credible := kept_credible.predictions item h.credible
  nodup := by
    refine List.nodup_append.2 ⟨h.nodup, nodup_distinct _, ?_⟩
    rintro i hi _ hj rfl
    exact (mem_freshItems.1 hj).2 hi
  subset i hi := by
    rcases List.mem_append.1 hi with hi | hi
    · exact h.subset i hi
    · exact mem_candidates_of_predicts h.credible
        (h.subset item (h.pending item List.mem_cons_self))
        (mem_predictions.1 (mem_freshItems.1 hi).1)
  pending i hi := by
    rcases List.mem_append.1 hi with hi | hi
    · exact List.mem_append_left _ (h.pending i (List.mem_cons_of_mem _ hi))
    · exact List.mem_append_right _ hi

theorem Visiting.length_le (h : g.Visiting seeds items pending memo) :
    items.length ≤ (g.candidates seeds).length :=
  (List.subperm_of_subset h.nodup h.subset).length_le

/-- What a finished visit has done to the items it began with. -/
structure Saturated (g : Grammar) (F : List Symbol → SymbolSet) (items pending result : List Item) :
    Prop where
  kept : items <+: result
  nodup : result.Nodup
  sound : ∀ j ∈ result, j ∈ items ∨ ∃ i ∈ pending, Relation.ReflTransGen (g.Predicts F) i j
  closed : ∀ i ∈ result, (i ∈ items ∧ i ∉ pending) ∨ ∀ j, g.Predicts F i j → j ∈ result

theorem Saturated.of_next (hF : (g.predictions item memo).2.Agrees F)
    {result : List Item} (h : g.Saturated F (items ++ g.freshItems items item memo)
      (pending ++ g.freshItems items item memo) result) :
    g.Saturated F items (item :: pending) result where
  kept := (List.prefix_append _ _).trans h.kept
  nodup := h.nodup
  sound j hj := by
    have fresh : ∀ i ∈ g.freshItems items item memo, g.Predicts F item i := fun i hi =>
      (mem_predictions_of_agrees hF).1 (mem_freshItems.1 hi).1
    rcases h.sound j hj with hj | ⟨i, hi, hreach⟩
    · rcases List.mem_append.1 hj with hj | hj
      · exact .inl hj
      · exact .inr ⟨item, List.mem_cons_self, .single (fresh j hj)⟩
    · rcases List.mem_append.1 hi with hi | hi
      · exact .inr ⟨i, List.mem_cons_of_mem _ hi, hreach⟩
      · exact .inr ⟨item, List.mem_cons_self, .head (fresh i hi) hreach⟩
  closed i hi := by
    rcases h.closed i hi with ⟨hold, hdone⟩ | hclosed
    · by_cases hitem : i = item
      · right
        intro j hj
        subst hitem
        have hm := (mem_predictions_of_agrees hF).2 hj
        apply h.kept.subset
        by_cases hjold : j ∈ items
        · exact List.mem_append_left _ hjold
        · exact List.mem_append_right _ (mem_freshItems.2 ⟨hm, hjold⟩)
      · left
        rw [List.mem_append, not_or] at hdone
        have hi : i ∈ items := (List.mem_append.1 hold).resolve_right hdone.2
        refine ⟨hi, fun hmem => ?_⟩
        rcases List.mem_cons.1 hmem with e | hmem
        · exact hitem e
        · exact hdone.1 hmem
    · exact .inr hclosed

/-- With a budget for all candidates that are still to come, all pending items are visited. -/
theorem saturated_saturate {budget : Nat} (h : g.Visiting seeds items pending memo)
    (hb : (g.candidates seeds).length + pending.length < budget + items.length)
    (hF : (g.saturate budget items pending memo).2.Agrees F) :
    g.Saturated F items pending (g.saturate budget items pending memo).1 := by
  induction budget generalizing items pending memo with
  | zero =>
    have := h.length_le
    omega
  | succ budget ih =>
    cases pending with
    | nil =>
      exact ⟨List.prefix_refl _, h.nodup, fun j hj => .inl hj, fun i hi => .inl ⟨hi, by simp⟩⟩
    | cons item pending =>
      have hagree : (g.predictions item memo).2.Agrees F :=
        hF.of_extends ((kept_extends _).saturate budget _ _ (.refl _))
      refine .of_next hagree (ih h.next ?_ hF)
      simp only [List.length_append, List.length_cons] at hb ⊢
      omega

/-! ## Closure and goto -/

theorem Kept.closure (hP : g.Kept P) (items : List Item) (h : P memo) :
    P (g.closure items memo).2 := hP.saturate _ _ _ h

theorem visiting_seeds (hm : memo.Credible g) (items : List Item) :
    g.Visiting (distinct items) (distinct items) (distinct items) memo :=
  ⟨hm, nodup_distinct items, fun _ hi => List.mem_append_left _ hi, fun _ hi => hi⟩

theorem saturated_closure (hm : memo.Credible g) (hF : (g.closure items memo).2.Agrees F) :
    g.Saturated F (distinct items) (distinct items) (g.closure items memo).1 :=
  saturated_saturate (visiting_seeds hm items) (Nat.add_lt_add_right (length_candidates _) _) hF

/-- **A closure holds exactly what predictions reach from its seeds.** -/
theorem mem_closure (hm : memo.Credible g) (hF : (g.closure items memo).2.Agrees F) :
    j ∈ (g.closure items memo).1 ↔ g.InClosure F items j := by
  have h := saturated_closure hm hF
  constructor
  · intro hj
    rcases h.sound j hj with hj | ⟨i, hi, hreach⟩
    · exact ⟨j, mem_distinct.1 hj, .refl⟩
    · exact ⟨i, mem_distinct.1 hi, hreach⟩
  · rintro ⟨i, hi, hreach⟩
    induction hreach with
    | refl => exact h.kept.subset (mem_distinct.2 hi)
    | tail _ step ih =>
      rcases h.closed _ ih with ⟨hold, hnot⟩ | hclosed
      · exact absurd hold hnot
      · exact hclosed _ step

/-- The items of a list with the dot moved over a symbol. -/
def movedOver (x : Symbol) (items : List Item) : List Item :=
  (items.filter fun i => i.next? = some x).map Item.advance

theorem mem_movedOver : j ∈ movedOver x items ↔ ∃ i ∈ items, i.next? = some x ∧ j = i.advance := by
  simp only [movedOver, List.mem_map, List.mem_filter, decide_eq_true_eq]
  constructor
  · rintro ⟨i, ⟨hi, hn⟩, rfl⟩
    exact ⟨i, hi, hn, rfl⟩
  · rintro ⟨i, hi, hn, rfl⟩
    exact ⟨i, ⟨hi, hn⟩, rfl⟩

theorem Kept.goto (hP : g.Kept P) (items : List Item) (x : Symbol) (h : P memo) :
    P (g.goto items x memo).2 := hP.closure _ h

theorem mem_goto (hm : memo.Credible g) (hF : (g.goto items x memo).2.Agrees F) :
    j ∈ (g.goto items x memo).1 ↔ g.InClosure F (movedOver x items) j := mem_closure hm hF

/-- An item of a closure is a seed or a predicted item. -/
theorem InClosure.seed_or_predicted (h : g.InClosure F seeds j) :
    j ∈ seeds ∨ (j.dot = 0 ∧ (j.lhs, j.rhs) ∈ g.productions.pairs) := by
  obtain ⟨i, hi, hreach⟩ := h
  cases hreach with
  | refl => exact .inl hi
  | tail _ step =>
    obtain ⟨B, rhs, b, -, hr, -, -, rfl⟩ := step
    exact .inr ⟨rfl, hr⟩

theorem InClosure.of_mem (h : j ∈ seeds) : g.InClosure F seeds j := ⟨j, h, .refl⟩

theorem InClosure.predicts (h : g.InClosure F seeds i) (hp : g.Predicts F i j) :
    g.InClosure F seeds j := by
  obtain ⟨s, hs, hreach⟩ := h
  exact ⟨s, hs, hreach.tail hp⟩

end Grammar

end CanonicalLR
