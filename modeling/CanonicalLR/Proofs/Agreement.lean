import CanonicalLR.Proofs.Collection

/-!
# Answers that agree on FIRST are the same

What a closure, a goto set or a canonical collection holds, and in which order, depends on the memo
only through FIRST of the strings that it asks for.  So two runs whose memos in the end agree with
one function give the same lists, item by item: `closure_eq`, `goto_eq`, `canonical_eq`.  The memos
may know other strings besides, and may have come to know them in any order.

A closure of a closure is the closure itself, in its order (`IsClosure.closed`).
-/

namespace CanonicalLR

namespace Grammar

variable {g : Grammar} {F : List Symbol → SymbolSet} {P : Memo → Prop} {memo m₁ m₂ : Memo}
  {item : Item} {items seeds result : List Item} {x : Symbol}

theorem predictions_eq (h₁ : (g.predictions item m₁).2.Agrees F)
    (h₂ : (g.predictions item m₂).2.Agrees F) :
    (g.predictions item m₁).1 = (g.predictions item m₂).1 := by
  cases hn : item.next? with
  | none => simp only [predictions, hn]
  | some B =>
    by_cases hB : g.isNonterminal B = true
    · have hsame : (g.firstOfString (item.beyond ++ [item.lookahead]) m₁).1 =
          (g.firstOfString (item.beyond ++ [item.lookahead]) m₂).1 :=
        (firstOfString_of_agrees h₁ hn hB).trans (firstOfString_of_agrees h₂ hn hB).symm
      simp only [predictions, hn, hB, if_true, hsame]
    · simp only [predictions, hn, hB, if_false, Bool.false_eq_true]

theorem saturate_eq (budget : Nat) (items pending : List Item)
    (h₁ : (g.saturate budget items pending m₁).2.Agrees F)
    (h₂ : (g.saturate budget items pending m₂).2.Agrees F) :
    (g.saturate budget items pending m₁).1 = (g.saturate budget items pending m₂).1 := by
  induction budget generalizing items pending m₁ m₂ with
  | zero => rfl
  | succ budget ih =>
    cases pending with
    | nil => rfl
    | cons item pending =>
      -- what the visit of an item asked for is still known at the end
      have visit : ∀ {m}, (g.saturate (budget + 1) items (item :: pending) m).2.Agrees F →
          (g.predictions item m).2.Agrees F := fun h =>
        h.of_extends ((kept_extends _).saturate budget _ _ (.refl _))
      have hfresh : g.freshItems items item m₁ = g.freshItems items item m₂ := by
        rw [freshItems, predictions_eq (visit h₁) (visit h₂), freshItems]
      rw [saturate_cons, hfresh] at h₁
      rw [saturate_cons] at h₂
      rw [saturate_cons, saturate_cons, hfresh]
      exact ih _ _ h₁ h₂

theorem closure_eq (h₁ : (g.closure items m₁).2.Agrees F)
    (h₂ : (g.closure items m₂).2.Agrees F) :
    (g.closure items m₁).1 = (g.closure items m₂).1 := saturate_eq _ _ _ h₁ h₂

theorem closure_again {later : Memo} (h : (g.closure items memo).2.Extends later) :
    (g.closure items later).1 = (g.closure items memo).1 :=
  closure_eq (Memo.agrees_answers _)
    ((Memo.agrees_answers _).of_extends ((kept_extends _).closure items h))

theorem goto_eq (h₁ : (g.goto items x m₁).2.Agrees F) (h₂ : (g.goto items x m₂).2.Agrees F) :
    (g.goto items x m₁).1 = (g.goto items x m₂).1 := closure_eq h₁ h₂

theorem successors_eq (items : List Item) (xs : List Symbol) (sets : List (List Item))
    (h₁ : (g.successors items xs sets m₁).2.2.Agrees F)
    (h₂ : (g.successors items xs sets m₂).2.2.Agrees F) :
    (g.successors items xs sets m₁).1 = (g.successors items xs sets m₂).1 ∧
      (g.successors items xs sets m₁).2.1 = (g.successors items xs sets m₂).2.1 := by
  induction xs generalizing sets m₁ m₂ with
  | nil => exact ⟨rfl, rfl⟩
  | cons x xs ih =>
    have visit : ∀ {m}, (g.successors items (x :: xs) sets m).2.2.Agrees F →
        (g.goto items x m).2.Agrees F := fun h =>
      h.of_extends ((kept_extends _).successors items xs _ (.refl _))
    have hsame := goto_eq (visit h₁) (visit h₂)
    simp only [successors, hsame] at h₁ h₂ ⊢
    obtain ⟨hrow, hsets⟩ := ih _ h₁ h₂
    exact ⟨by rw [hrow], hsets⟩

theorem explore_eq (budget : Nat) {c₁ c₂ : Collection} (hs : c₁.sets = c₂.sets)
    (hr : c₁.rows = c₂.rows) (h₁ : (g.explore budget c₁).memo.Agrees F)
    (h₂ : (g.explore budget c₂).memo.Agrees F) :
    (g.explore budget c₁).sets = (g.explore budget c₂).sets ∧
      (g.explore budget c₁).rows = (g.explore budget c₂).rows := by
  induction budget generalizing c₁ c₂ with
  | zero => exact ⟨hs, hr⟩
  | succ budget ih =>
    cases hq : c₁.sets[c₁.rows.length]? with
    | none =>
      rw [explore_of_none hq, explore_of_none (hs ▸ hr ▸ hq)]
      exact ⟨hs, hr⟩
    | some items =>
      have hq₂ : c₂.sets[c₂.rows.length]? = some items := hs ▸ hr ▸ hq
      rw [explore_of_some hq] at h₁ ⊢
      rw [explore_of_some hq₂] at h₂ ⊢
      have visit : ∀ {c}, (g.explore budget c).memo.Agrees F → c.memo.Agrees F := fun h =>
        h.of_extends ((kept_extends _).explore budget (.refl _))
      have h₂' : (g.successors items (Item.nextSymbols items) c₂.sets c₂.memo).2.2.Agrees F :=
        visit h₂
      rw [← hs] at h₂'
      obtain ⟨hrow, hsets⟩ := successors_eq items _ c₁.sets (visit h₁) h₂'
      refine ih ?_ ?_ h₁ h₂
      · rw [Collection.expand, hsets, hs]
        rfl
      · rw [Collection.expand, hrow, hs, hr]
        rfl

theorem Kept.canonical (hP : g.Kept P) (h : P memo) : P (g.canonical memo).2 :=
  hP.explore _ (hP.closure _ h)

/-- The collection that holds the initial set alone. -/
def initialCollection (g : Grammar) (memo : Memo) : Collection :=
  ⟨[(g.closure [g.initialItem] memo).1], [], (g.closure [g.initialItem] memo).2⟩

/-- The collection of which the canonical automaton is made. -/
def fullCollection (g : Grammar) (memo : Memo) : Collection :=
  g.explore (2 ^ g.itemCount) (g.initialCollection memo)

/-- **Two canonical collections under one FIRST function are identical.** -/
theorem canonical_eq (h₁ : (g.canonical m₁).2.Agrees F) (h₂ : (g.canonical m₂).2.Agrees F) :
    (g.canonical m₁).1 = (g.canonical m₂).1 := by
  have visit : ∀ {m}, (g.canonical m).2.Agrees F → (g.closure [g.initialItem] m).2.Agrees F :=
    fun h => h.of_extends ((kept_extends _).explore _ (.refl _))
  have hinitial : (g.initialCollection m₁).sets = (g.initialCollection m₂).sets := by
    rw [initialCollection, closure_eq (visit h₁) (visit h₂), initialCollection]
  obtain ⟨hsets, hrows⟩ := explore_eq (2 ^ g.itemCount) hinitial rfl h₁ h₂
  show (g.fullCollection m₁).toAutomaton _ = (g.fullCollection m₂).toAutomaton _
  rw [Collection.toAutomaton, fullCollection, hsets, hrows]
  rfl

/-! ## Closures of closures -/

/-- Whether a list is the closure of some seeds: it begins with the seeds in their order, it repeats
nothing, and it holds what predictions reach. -/
structure IsClosure (g : Grammar) (F : List Symbol → SymbolSet) (seeds result : List Item) :
    Prop where
  begins : distinct seeds <+: result
  nodup : result.Nodup
  mem : ∀ j, j ∈ result ↔ g.InClosure F seeds j

theorem isClosure_closure (hm : memo.Credible g) (hF : (g.closure items memo).2.Agrees F) :
    g.IsClosure F items (g.closure items memo).1 where
  begins := (saturated_closure hm hF).kept
  nodup := (saturated_closure hm hF).nodup
  mem _ := mem_closure hm hF

theorem InClosure.trans (h : g.InClosure F result item)
    (hr : ∀ j ∈ result, g.InClosure F seeds j) : g.InClosure F seeds item := by
  obtain ⟨i, hi, hreach⟩ := h
  obtain ⟨s, hs, hreach'⟩ := hr i hi
  exact ⟨s, hs, hreach'.trans hreach⟩

theorem IsClosure.closed (h : g.IsClosure F seeds items) (h' : g.IsClosure F items result) :
    result = items := by
  have hprefix := h'.begins
  rw [distinct_of_nodup h.nodup] at hprefix
  obtain ⟨rest, rfl⟩ := hprefix
  -- what the second closure would add is reached already, and it repeats nothing
  have hnone : rest = [] := by
    apply List.eq_nil_iff_forall_not_mem.2
    intro j hj
    have hreach := (h'.mem j).1 (List.mem_append_right _ hj)
    have hold : j ∈ items := (h.mem j).2 (hreach.trans fun i hi => (h.mem i).1 hi)
    exact (List.nodup_append.1 h'.nodup).2.2 j hold j hj rfl
  rw [hnone, List.append_nil]

end Grammar

end CanonicalLR
