import CanonicalLR.Proofs.Collection

/-!
# Paths in a canonical automaton

A path spells the symbols of its transitions.  A path is determined by its start and its symbols
(`Path.unique`).  An item with its dot behind `n` symbols can only stand where a path has spelled
these symbols, and it stood at the beginning of its right-hand side where these symbols began
(`Path.origin`); there, its left-hand side is a symbol after a dot (`Holds.head_after_dot`).

None of this asks what FIRST is: it holds for the automata of both strategies.
-/

namespace CanonicalLR

namespace Automaton

/-- Transitions from one state to another, with the symbols on them. -/
inductive Path (a : Automaton) : Nat → List Symbol → Nat → Prop
  | refl (q : Nat) : Path a q [] q
  | tail {q p t : Nat} {γ : List Symbol} {x : Symbol} {state : State} (h : Path a q γ p)
      (hp : a.states[p]? = some state) (ht : state.target? x = some (t : Int)) :
      Path a q (γ ++ [x]) t

/-- Whether a path that spells `γ` leads from state 0 to a state with the item. -/
def Holds (a : Automaton) (γ : List Symbol) (i : Item) : Prop :=
  ∃ p state, a.Path 0 γ p ∧ a.states[p]? = some state ∧ i ∈ state.items

variable {a : Automaton} {g : Grammar} {F : List Symbol → SymbolSet} {q p p' : Nat}
  {γ δ : List Symbol} {x : Symbol} {i j : Item} {state : State}

theorem Path.nil (h : a.Path q [] p) : p = q := by
  generalize hγ : [] = γ at h
  cases h with
  | refl => rfl
  | tail => simp at hγ

theorem Path.snoc (h : a.Path q (γ ++ [x]) p) : ∃ r state, a.Path q γ r ∧
    a.states[r]? = some state ∧ state.target? x = some (p : Int) := by
  generalize hγ : γ ++ [x] = γ' at h
  cases h with
  | refl => simp at hγ
  | tail h hp ht =>
    obtain ⟨rfl, hx⟩ := List.append_inj' hγ rfl
    cases hx
    exact ⟨_, _, h, hp, ht⟩

theorem Path.unique (h : a.Path q γ p) (h' : a.Path q γ p') : p = p' := by
  induction h generalizing p' with
  | refl => exact h'.nil.symm
  | tail _ hp ht ih =>
    obtain ⟨r, state, hr, hs, hx⟩ := h'.snoc
    obtain rfl := ih hr
    obtain rfl := Option.some.inj (hp.symm.trans hs)
    exact Int.ofNat.inj (Option.some.inj (ht.symm.trans hx))

theorem Path.prefix (h : a.Path q (γ ++ δ) p) : ∃ r, a.Path q γ r ∧ a.Path r δ p := by
  induction δ using List.reverseRecOn generalizing p with
  | nil => exact ⟨p, by simpa using h, .refl p⟩
  | append_singleton δ x ih =>
    rw [← List.append_assoc] at h
    obtain ⟨r, state, hr, hs, hx⟩ := h.snoc
    obtain ⟨t, ht, htr⟩ := ih hr
    exact ⟨t, ht, htr.tail hs hx⟩

/-- All paths from state 0 lead to states. -/
theorem Canonical.exists_state (hc : a.Canonical g F) (h : a.Path 0 γ p) :
    ∃ state, a.states[p]? = some state := by
  cases h with
  | refl =>
    obtain ⟨state, h0, -⟩ := hc.initial
    exact ⟨state, h0⟩
  | tail _ hp ht =>
    obtain ⟨t, next, e, hn, -⟩ := hc.target hp ht
    exact ⟨next, Int.ofNat.inj e ▸ hn⟩

/-- Every state is reached from state 0. -/
theorem Canonical.exists_path (hc : a.Canonical g F) (h : a.states[p]? = some state) :
    ∃ γ, a.Path 0 γ p := by
  induction p using Nat.strongRecOn generalizing state with
  | _ p ih =>
    rcases Nat.eq_zero_or_pos p with rfl | hpos
    · exact ⟨[], .refl 0⟩
    · obtain ⟨q, before, x, hlt, hq, hx⟩ := hc.reached h hpos
      obtain ⟨γ, hγ⟩ := ih q hlt hq
      exact ⟨γ ++ [x], hγ.tail hq hx⟩

/-- The items where a path ends are those of the initial state, or the closure of moved items. -/
theorem Canonical.mem_target (hc : a.Canonical g F) {t : Nat} {next : State}
    (hp : a.states[p]? = some state) (ht : state.target? x = some (t : Int))
    (hn : a.states[t]? = some next) :
    i ∈ next.items ↔ g.InClosure F (Grammar.movedOver x state.items) i := by
  obtain ⟨t', next', e, hn', hm⟩ := hc.target hp ht
  obtain rfl := Int.ofNat.inj e
  obtain rfl := Option.some.inj (hn.symm.trans hn')
  exact hm i

theorem Canonical.mem_initial (hc : a.Canonical g F) (h0 : a.states[0]? = some state) :
    i ∈ state.items ↔ g.InClosure F [g.initialItem] i := by
  obtain ⟨state', h0', hm⟩ := hc.initial
  obtain rfl := Option.some.inj (h0.symm.trans h0')
  exact hm i

/-! ## Items along a path -/

theorem Holds.initial (hc : a.Canonical g F) : a.Holds [] g.initialItem := by
  obtain ⟨state, h0, hm⟩ := hc.initial
  exact ⟨0, state, .refl 0, h0, (hm _).2 (.of_mem List.mem_cons_self)⟩

theorem Holds.predicts (hc : a.Canonical g F) (h : a.Holds γ i) (hp : g.Predicts F i j) :
    a.Holds γ j := by
  obtain ⟨p, state, hpath, hs, hi⟩ := h
  refine ⟨p, state, hpath, hs, ?_⟩
  cases hpath with
  | refl => exact (hc.mem_initial hs).2 (((hc.mem_initial hs).1 hi).predicts hp)
  | tail _ hs' ht =>
    exact (hc.mem_target hs' ht hs).2 (((hc.mem_target hs' ht hs).1 hi).predicts hp)

theorem Holds.advance (hc : a.Canonical g F) (h : a.Holds γ i) (hx : i.next? = some x) :
    a.Holds (γ ++ [x]) i.advance := by
  obtain ⟨p, state, hpath, hs, hi⟩ := h
  obtain ⟨t, ht⟩ := (hc.moves hs x).2 ⟨i, hi, hx⟩
  obtain ⟨r, next, rfl, hn, hm⟩ := hc.target hs ht
  exact ⟨r, next, hpath.tail hs ht, hn,
    (hm _).2 (.of_mem (Grammar.mem_movedOver.2 ⟨i, hi, hx, rfl⟩))⟩

/-- An item at the beginning of its right-hand side can be moved through it. -/
theorem Holds.through (hc : a.Canonical g F) {A b : Symbol} {rhs : List Symbol}
    (h : a.Holds γ ⟨A, rhs, 0, b⟩) {n : Nat} (hn : n ≤ rhs.length) :
    a.Holds (γ ++ rhs.take n) ⟨A, rhs, n, b⟩ := by
  induction n with
  | zero => simpa using h
  | succ n ih =>
    have hnext : (⟨A, rhs, n, b⟩ : Item).next? = some rhs[n] := List.getElem?_eq_getElem hn
    have hmoved := (ih (Nat.le_of_succ_le hn)).advance hc hnext
    rwa [List.append_assoc, List.take_append_getElem hn] at hmoved

/-- An item at the end of a transition stands at the beginning of its right-hand side, or it was
moved over the symbol of the transition. -/
theorem Canonical.moved_of_mem (hc : a.Canonical g F) {t : Nat} {next : State}
    (hp : a.states[p]? = some state) (ht : state.target? x = some (t : Int))
    (hn : a.states[t]? = some next) (hi : i ∈ next.items) :
    (i.dot = 0 ∧ (i.lhs, i.rhs) ∈ g.productions.pairs) ∨
      ∃ j ∈ state.items, j.next? = some x ∧ i = j.advance := by
  rcases ((hc.mem_target hp ht hn).1 hi).seed_or_predicted with h | h
  · exact .inr (Grammar.mem_movedOver.1 h)
  · exact .inl h

/-- **Where an item comes from.**  A path to an item has spelled what stands before its dot, and
the item stood at the beginning of its right-hand side where this began. -/
theorem Path.origin (hc : a.Canonical g F) (h : a.Path 0 γ p) (hp : a.states[p]? = some state)
    (hi : i ∈ state.items) : ∃ δ, γ = δ ++ i.rhs.take i.dot ∧ a.Holds δ { i with dot := 0 } := by
  generalize hq : 0 = q at h
  induction h generalizing i state with
  | refl =>
    subst hq
    have hdot : i.dot = 0 := by
      rcases ((hc.mem_initial hp).1 hi).seed_or_predicted with hm | hm
      · exact List.mem_singleton.1 hm ▸ rfl
      · exact hm.1
    refine ⟨[], by simp [hdot], 0, state, .refl 0, hp, ?_⟩
    rwa [← hdot]
  | @tail r t γ x state' h hr ht ih =>
    subst hq
    rcases hc.moved_of_mem hr ht hp hi with ⟨hdot, -⟩ | ⟨j, hj, hx, rfl⟩
    · refine ⟨γ ++ [x], by simp [hdot], t, state, h.tail hr ht, hp, ?_⟩
      rwa [← hdot]
    · obtain ⟨δ, rfl, hδ⟩ := ih hr hj
      refine ⟨δ, ?_, hδ⟩
      rw [List.append_assoc, ← Item.take_succ_of_next? hx]
      rfl

/-- An item at the beginning of its right-hand side is the initial one in state 0, or its left-hand
side stands after a dot in the same state. -/
theorem Holds.head_after_dot (hc : a.Canonical g F) (h : a.Holds γ i) (hd : i.dot = 0) :
    (γ = [] ∧ i = g.initialItem) ∨ ∃ j, a.Holds γ j ∧ j.next? = some i.lhs := by
  obtain ⟨p, state, hpath, hs, hi⟩ := h
  -- in a closure, an item that is no seed was predicted by an item of the same closure
  have predicted : ∀ seeds, (∀ j, g.InClosure F seeds j → a.Holds γ j) → g.InClosure F seeds i →
      i ∈ seeds ∨ ∃ j, a.Holds γ j ∧ j.next? = some i.lhs := by
    rintro seeds hall ⟨s, hs, hreach⟩
    cases hreach with
    | refl => exact .inl hs
    | tail hsteps step =>
      obtain ⟨B, rhs, b, hn, -, -, -, rfl⟩ := step
      exact .inr ⟨_, hall _ ⟨s, hs, hsteps⟩, hn⟩
  cases hpath with
  | refl =>
    refine (predicted _ (fun j hj => ⟨0, state, .refl 0, hs, (hc.mem_initial hs).2 hj⟩)
      ((hc.mem_initial hs).1 hi)).imp_left fun hm => ⟨rfl, List.mem_singleton.1 hm⟩
  | tail hr hs' ht =>
    refine .inr ((predicted _ (fun j hj => ⟨p, state, hr.tail hs' ht, hs,
      (hc.mem_target hs' ht hs).2 hj⟩) ((hc.mem_target hs' ht hs).1 hi)).resolve_left fun hm => ?_)
    obtain ⟨j, -, -, rfl⟩ := Grammar.mem_movedOver.1 hm
    cases hd

end Automaton

end CanonicalLR
