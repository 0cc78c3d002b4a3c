import CanonicalLR.Automaton.Canonical
import CanonicalLR.Proofs.Derivation

/-!
# The augmented grammar

The augmented grammar has one more nonterminal, the augmented start, which occurs in no production
of the grammar and whose only alternative is the start symbol.  A rightmost derivation from the
augmented start is that first step followed by a rightmost derivation of the grammar itself
(`Rightmost.of_augmentedStart`), and every such derivation arises in this way
(`Rightmost.augment_start`).
-/

namespace CanonicalLR

namespace Grammar

theorem primed_not_mem (used : SymbolSet) (x : Symbol) : primed used x ∉ used := by
  fun_induction primed used x with
  | case1 x _ ih => exact ih
  | case2 x h => exact h

variable {g : Grammar} {u v w : List Symbol} {ps : List (Symbol × List Symbol)}

theorem augmentedStart_not_mem : g.augmentedStart ∉ g.symbols := primed_not_mem _ _

theorem isNonterminal_augmentedStart : g.isNonterminal g.augmentedStart = false := by
  cases h : g.isNonterminal g.augmentedStart with
  | false => rfl
  | true => exact absurd (mem_symbols.2 (.inl h)) augmentedStart_not_mem

theorem augmentedStart_not_mem_of_mem {A : Symbol} {rhs : List Symbol}
    (h : (A, rhs) ∈ g.productions.pairs) : g.augmentedStart ∉ A :: rhs := by
  intro hm
  rcases List.mem_cons.1 hm with e | hm
  · exact augmentedStart_not_mem (mem_symbols.2 (.inl (e ▸ isNonterminal_of_mem h)))
  · exact augmentedStart_not_mem (mem_symbols_of_mem h hm)

theorem WellFormed.start_ne (wf : g.WellFormed) : g.start ≠ g.augmentedStart := by
  intro e
  have h := wf.start
  rw [e, isNonterminal_augmentedStart] at h
  cases h

/-- The grammar with the augmented start in front. -/
def augment (g : Grammar) : Grammar where
  productions := (g.augmentedStart, [[g.start]]) :: g.productions
  start := g.augmentedStart
  nodup := by
    refine List.nodup_cons.2 ⟨fun h => ?_, g.nodup⟩
    exact augmentedStart_not_mem (mem_symbols.2 (.inl (isNonterminal_iff.2 h)))

theorem mem_pairs_augment {r : Symbol × List Symbol} : r ∈ g.augment.productions.pairs ↔
    r = (g.augmentedStart, [g.start]) ∨ r ∈ g.productions.pairs := by
  simp [augment, Productions.pairs]

theorem isNonterminal_augment {x : Symbol} : g.augment.isNonterminal x = true ↔
    x = g.augmentedStart ∨ g.isNonterminal x = true := by
  rw [isNonterminal_iff, isNonterminal_iff]
  exact List.mem_cons

theorem allTerminal_augment : g.augment.AllTerminal w ↔
    g.AllTerminal w ∧ g.augmentedStart ∉ w := by
  constructor
  · intro h
    have hx : ∀ x ∈ w, x ≠ g.augmentedStart ∧ g.isNonterminal x = false := by
      intro x hx
      have hf := h x hx
      rw [Bool.eq_false_iff, ne_eq, isNonterminal_augment, not_or] at hf
      exact ⟨hf.1, Bool.eq_false_iff.2 hf.2⟩
    exact ⟨fun x m => (hx x m).2, fun m => (hx _ m).1 rfl⟩
  · rintro ⟨h, hn⟩ x hx
    rw [Bool.eq_false_iff, ne_eq, isNonterminal_augment, not_or]
    exact ⟨fun e => hn (e ▸ hx), Bool.eq_false_iff.1 (h x hx)⟩

theorem allTerminal_augment_of_symbols (hw : g.AllTerminal w) (hs : ∀ x ∈ w, x ∈ g.symbols) :
    g.augment.AllTerminal w :=
  allTerminal_augment.2 ⟨hw, fun hm => augmentedStart_not_mem (hs _ hm)⟩

/-- Without the augmented start, the two grammars make the same rightmost steps. -/
theorem rightmostStep_augment {r : Symbol × List Symbol} (hu : g.augmentedStart ∉ u) :
    g.augment.RightmostStep r u v ↔ g.RightmostStep r u v := by
  constructor
  · rintro ⟨hr, p, s, hs, rfl, rfl⟩
    rcases mem_pairs_augment.1 hr with rfl | hr
    · simp at hu
    · exact ⟨hr, p, s, (allTerminal_augment.1 hs).1, rfl, rfl⟩
  · rintro ⟨hr, p, s, hs, rfl, rfl⟩
    refine ⟨mem_pairs_augment.2 (.inr hr), p, s, allTerminal_augment.2 ⟨hs, fun hm => hu ?_⟩,
      rfl, rfl⟩
    exact List.mem_append_right _ (List.mem_cons_of_mem _ hm)

theorem RightmostStep.augmentedStart_not_mem {r : Symbol × List Symbol}
    (h : g.RightmostStep r u v) (hu : g.augmentedStart ∉ u) : g.augmentedStart ∉ v := by
  obtain ⟨hr, p, s, -, rfl, rfl⟩ := h
  have := augmentedStart_not_mem_of_mem hr
  simp only [List.mem_append, List.mem_cons, not_or] at hu this ⊢
  exact ⟨⟨hu.1, this.2⟩, hu.2.2⟩

theorem Rightmost.augmentedStart_not_mem (h : g.Rightmost ps u v) (hu : g.augmentedStart ∉ u) :
    g.augmentedStart ∉ v := by
  induction h with
  | refl => exact hu
  | tail _ step ih => exact step.augmentedStart_not_mem (ih hu)

/-- Without the augmented start, the two grammars have the same rightmost derivations. -/
theorem rightmost_augment (hu : g.augmentedStart ∉ u) :
    g.augment.Rightmost ps u v ↔ g.Rightmost ps u v := by
  constructor
  · intro h
    induction h with
    | refl => exact .refl _
    | tail _ step ih =>
      have h := ih hu
      exact h.tail ((rightmostStep_augment (h.augmentedStart_not_mem hu)).1 step)
  · intro h
    induction h with
    | refl => exact .refl _
    | tail h step ih =>
      exact (ih hu).tail ((rightmostStep_augment (h.augmentedStart_not_mem hu)).2 step)

/-- The first step from the augmented start. -/
theorem rightmostStep_start : g.augment.RightmostStep (g.augmentedStart, [g.start])
    [g.augmentedStart] [g.start] :=
  ⟨mem_pairs_augment.2 (.inl rfl), [], [], by simp, rfl, rfl⟩

theorem Rightmost.augment_start (wf : g.WellFormed) (h : g.Rightmost ps [g.start] v) :
    g.augment.Rightmost ((g.augmentedStart, [g.start]) :: ps) [g.augmentedStart] v := by
  have hs : g.augmentedStart ∉ [g.start] := by simpa using wf.start_ne.symm
  exact .head rightmostStep_start ((rightmost_augment hs).2 h)

/-- Every rightmost derivation from the augmented start begins with the start symbol. -/
theorem Rightmost.of_augmentedStart (wf : g.WellFormed)
    (h : g.augment.Rightmost ps [g.augmentedStart] v) :
    (ps = [] ∧ v = [g.augmentedStart]) ∨
    ∃ qs, ps = (g.augmentedStart, [g.start]) :: qs ∧ g.Rightmost qs [g.start] v := by
  have hs : g.augmentedStart ∉ [g.start] := by simpa using wf.start_ne.symm
  generalize hu : [g.augmentedStart] = u at h
  induction h with
  | refl => exact .inl ⟨rfl, rfl⟩
  | tail _ step ih =>
    right
    rcases ih hu with ⟨rfl, rfl⟩ | ⟨qs, rfl, h⟩
    · rw [← hu] at step
      obtain ⟨hx, rfl⟩ := step.of_singleton
      rcases mem_pairs_augment.1 step.1 with rfl | hr
      · exact ⟨[], rfl, .refl _⟩
      · have := augmentedStart_not_mem_of_mem hr
        rw [hx] at this
        simp at this
    · have hn := h.augmentedStart_not_mem hs
      exact ⟨qs ++ [_], by simp, h.tail ((rightmostStep_augment hn).1 step)⟩

end Grammar

end CanonicalLR
