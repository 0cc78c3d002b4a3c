import CanonicalLR.Proofs.Productions
import Mathlib.Logic.Relation

/-!
# Derivations

A step replaces one occurrence of a nonterminal by one of its alternatives; a rightmost step
replaces an occurrence that has only terminals to its right.  `Rightmost ps u v` records the
productions of a rightmost derivation in the order of their use, so that one list of productions
and one start stand for one derivation.

`Derives.exists_rightmost`: a string of terminals that can be derived has a rightmost derivation.
`Rightmost.split`: a rightmost derivation from a concatenation comes apart into rightmost
derivations from its two parts.  `Rightmost.ancestor`: every nonterminal in a string derived from a
single symbol was introduced by an earlier step, and what stands to its right was derived from
what stood there at that time.
-/

namespace CanonicalLR

/-- A symbol inside a concatenation lies in one of the two parts. -/
theorem append_eq_append_cons {α : Type} {u v p s : List α} {a : α} (h : u ++ v = p ++ a :: s) :
    (∃ t, u = p ++ a :: t ∧ s = t ++ v) ∨ ∃ t, p = u ++ t ∧ v = t ++ a :: s := by
  rcases List.append_eq_append_iff.1 h with ⟨t, hp, hv⟩ | ⟨t, hu, hs⟩
  · exact .inr ⟨t, hp, hv⟩
  · cases t with
    | nil => exact .inr ⟨[], by simpa using hu.symm, by simpa using hs.symm⟩
    | cons b t =>
      obtain ⟨rfl, rfl⟩ := List.cons.inj hs
      exact .inl ⟨t, hu, rfl⟩

namespace Grammar

/-- Whether a string holds no nonterminal. -/
def AllTerminal (g : Grammar) (w : List Symbol) : Prop := ∀ x ∈ w, g.isNonterminal x = false

/-- One step: a nonterminal is replaced by one of its alternatives. -/
def Produces (g : Grammar) (u v : List Symbol) : Prop :=
  ∃ A rhs p s, (A, rhs) ∈ g.productions.pairs ∧ u = p ++ A :: s ∧ v = p ++ rhs ++ s

/-- Any number of steps. -/
def Derives (g : Grammar) : List Symbol → List Symbol → Prop := Relation.ReflTransGen g.Produces

/-- One step with a given production at the rightmost nonterminal. -/
def RightmostStep (g : Grammar) (production : Symbol × List Symbol) (u v : List Symbol) : Prop :=
  production ∈ g.productions.pairs ∧ ∃ p s, g.AllTerminal s ∧ u = p ++ production.1 :: s ∧
    v = p ++ production.2 ++ s

/-- A rightmost derivation with the productions it uses, in order. -/
inductive Rightmost (g : Grammar) : List (Symbol × List Symbol) → List Symbol → List Symbol → Prop
  | refl (u : List Symbol) : Rightmost g [] u u
  | tail {ps : List (Symbol × List Symbol)} {production : Symbol × List Symbol}
      {u v w : List Symbol} (h : Rightmost g ps u v) (step : g.RightmostStep production v w) :
      Rightmost g (ps ++ [production]) u w

variable {g : Grammar} {u v w p s : List Symbol} {ps qs : List (Symbol × List Symbol)}
  {r : Symbol × List Symbol}

/-! ## Strings of terminals -/

@[simp] theorem allTerminal_nil : g.AllTerminal [] := fun _ h => absurd h List.not_mem_nil

@[simp] theorem allTerminal_cons {x : Symbol} :
    g.AllTerminal (x :: u) ↔ g.isNonterminal x = false ∧ g.AllTerminal u := List.forall_mem_cons

@[simp] theorem allTerminal_append :
    g.AllTerminal (u ++ v) ↔ g.AllTerminal u ∧ g.AllTerminal v := List.forall_mem_append

/-- A production does not apply inside a string of terminals. -/
theorem not_allTerminal_of_mem (hr : r ∈ g.productions.pairs) :
    ¬ g.AllTerminal (p ++ r.1 :: s) := by
  intro h
  have hf : g.isNonterminal r.1 = false := h r.1 (by simp)
  have ht : g.isNonterminal r.1 = true := isNonterminal_of_mem hr
  rw [ht] at hf
  cases hf

/-- The rightmost nonterminal of a string is at one place. -/
theorem append_cons_inj {A B : Symbol} (hA : g.isNonterminal A = true)
    (hB : g.isNonterminal B = true) (hs : g.AllTerminal s) (hv : g.AllTerminal v)
    (h : p ++ A :: s = u ++ B :: v) : p = u ∧ A = B ∧ s = v := by
  rcases append_eq_append_cons h with ⟨t, rfl, rfl⟩ | ⟨t, rfl, e⟩
  · have hf := hv A (by simp)
    rw [hA] at hf
    cases hf
  · cases t with
    | nil => exact ⟨by simp, List.cons.inj e⟩
    | cons y t =>
      obtain ⟨-, rfl⟩ := List.cons.inj e
      have hf := hs B (by simp)
      rw [hB] at hf
      cases hf

/-! ## Derivations in a context -/

theorem Derives.append (hu : g.Derives u p) (hv : g.Derives v s) : g.Derives (u ++ v) (p ++ s) := by
  have left : g.Derives (u ++ v) (p ++ v) := by
    refine Relation.ReflTransGen.lift (· ++ v) ?_ _ _ hu
    rintro a b ⟨A, rhs, q, t, hr, rfl, rfl⟩
    exact ⟨A, rhs, q, t ++ v, hr, by simp, by simp⟩
  have right : g.Derives (p ++ v) (p ++ s) := by
    refine Relation.ReflTransGen.lift (p ++ ·) ?_ _ _ hv
    rintro a b ⟨A, rhs, q, t, hr, rfl, rfl⟩
    exact ⟨A, rhs, p ++ q, t, hr, by simp, by simp⟩
  exact left.trans right

theorem Derives.of_mem {A : Symbol} {rhs : List Symbol} (h : (A, rhs) ∈ g.productions.pairs) :
    g.Derives [A] rhs :=
  .single ⟨A, rhs, [], [], h, rfl, by simp⟩

/-- A string of terminals derives only itself. -/
theorem Derives.eq_of_allTerminal (h : g.Derives u v) (hu : g.AllTerminal u) : v = u := by
  induction h with
  | refl => rfl
  | tail _ step ih =>
    subst ih
    obtain ⟨A, rhs, p, s, hr, rfl, -⟩ := step
    exact absurd hu (not_allTerminal_of_mem (r := (A, rhs)) hr)

/-- If every symbol of a string derives a string of terminals, so does the string. -/
theorem exists_derives_allTerminal (h : ∀ x ∈ u, ∃ w, g.AllTerminal w ∧ g.Derives [x] w) :
    ∃ w, g.AllTerminal w ∧ g.Derives u w := by
  induction u with
  | nil => exact ⟨[], by simp, .refl⟩
  | cons x u ih =>
    obtain ⟨w₁, t₁, d₁⟩ := h x List.mem_cons_self
    obtain ⟨w₂, t₂, d₂⟩ := ih fun y hy => h y (List.mem_cons_of_mem _ hy)
    exact ⟨w₁ ++ w₂, by simp [t₁, t₂], d₁.append d₂⟩

theorem RightmostStep.append_left (h : g.RightmostStep r u v) (q : List Symbol) :
    g.RightmostStep r (q ++ u) (q ++ v) := by
  obtain ⟨hr, p, s, hs, rfl, rfl⟩ := h
  exact ⟨hr, q ++ p, s, hs, by simp, by simp⟩

theorem RightmostStep.append_right (h : g.RightmostStep r u v) (hw : g.AllTerminal w) :
    g.RightmostStep r (u ++ w) (v ++ w) := by
  obtain ⟨hr, p, s, hs, rfl, rfl⟩ := h
  exact ⟨hr, p, s ++ w, by simp [hs, hw], by simp, by simp⟩

/-- A step from a single symbol replaces this symbol. -/
theorem RightmostStep.of_singleton {x : Symbol} (h : g.RightmostStep r [x] v) :
    r.1 = x ∧ v = r.2 := by
  obtain ⟨-, p, s, -, e, rfl⟩ := h
  cases p with
  | nil =>
    obtain ⟨hx, rfl⟩ := List.cons.inj e
    exact ⟨hx.symm, by simp⟩
  | cons => simp at e

theorem RightmostStep.produces (h : g.RightmostStep r u v) : g.Produces u v := by
  obtain ⟨hr, p, s, -, hu, hv⟩ := h
  exact ⟨r.1, r.2, p, s, hr, hu, hv⟩

namespace Rightmost

theorem derives (h : g.Rightmost ps u v) : g.Derives u v := by
  induction h with
  | refl => exact .refl
  | tail _ step ih => exact ih.tail step.produces

theorem trans (h : g.Rightmost ps u v) (h' : g.Rightmost qs v w) : g.Rightmost (ps ++ qs) u w := by
  induction h' with
  | refl => rwa [List.append_nil]
  | tail _ step ih =>
    rw [← List.append_assoc]
    exact .tail (ih h) step

theorem head (step : g.RightmostStep r u v) (h : g.Rightmost ps v w) :
    g.Rightmost (r :: ps) u w := by
  have h₁ : g.Rightmost [r] u v := .tail (.refl u) step
  exact h₁.trans h

theorem append_left (h : g.Rightmost ps u v) (q : List Symbol) :
    g.Rightmost ps (q ++ u) (q ++ v) := by
  induction h with
  | refl => exact .refl _
  | tail _ step ih => exact .tail ih (step.append_left q)

theorem append_right (h : g.Rightmost ps u v) (hw : g.AllTerminal w) :
    g.Rightmost ps (u ++ w) (v ++ w) := by
  induction h with
  | refl => exact .refl _
  | tail _ step ih => exact .tail ih (step.append_right hw)

/-- A rightmost derivation from a concatenation comes apart.  The right part is finished before the
left part is touched, so either the left part is still as it was, or the right part has become a
string of terminals. -/
theorem split (h : g.Rightmost ps (u ++ v) w) :
    ∃ u' v' qs rs, w = u' ++ v' ∧ g.Rightmost qs u u' ∧ g.Rightmost rs v v' ∧
      (u' = u ∨ g.AllTerminal v') := by
  generalize hx : u ++ v = x at h
  induction h with
  | refl => exact ⟨u, v, [], [], hx.symm, .refl u, .refl v, .inl rfl⟩
  | tail _ step ih =>
    obtain ⟨u', v', qs, rs, rfl, hu, hv, hdone⟩ := ih hx
    obtain ⟨hr, p, s, hs, e, rfl⟩ := step
    rcases append_eq_append_cons e with ⟨t, rfl, rfl⟩ | ⟨t, rfl, rfl⟩
    · have ht := allTerminal_append.1 hs
      refine ⟨p ++ _ ++ t, v', _, rs, by simp, hu.tail ⟨hr, p, t, ht.1, rfl, rfl⟩, hv, .inr ht.2⟩
    · rcases hdone with rfl | hdone
      · exact ⟨u', t ++ _ ++ s, qs, _, by simp, hu, hv.tail ⟨hr, t, s, hs, rfl, rfl⟩, .inl rfl⟩
      · exact absurd hdone (not_allTerminal_of_mem hr)

/-- Where a nonterminal of a derived string comes from.  It is the start itself, or an earlier
step put it between `α` and `β`, and what follows it was derived from what followed it then. -/
theorem ancestor {S A : Symbol} {δ σ : List Symbol} (h : g.Rightmost ps [S] (δ ++ A :: σ))
    (hA : g.isNonterminal A = true) :
    (ps = [] ∧ δ = [] ∧ A = S ∧ σ = []) ∨
    ∃ qs B α β δ' x rs, qs.length < ps.length ∧ g.Rightmost qs [S] (δ' ++ B :: x) ∧
      (B, α ++ A :: β) ∈ g.productions.pairs ∧ g.AllTerminal x ∧ δ = δ' ++ α ∧
      g.Rightmost rs (β ++ x) σ := by
  generalize hu : [S] = u at h
  generalize hy : δ ++ A :: σ = y at h
  induction h generalizing δ σ with
  | refl =>
    left
    rw [← hu] at hy
    cases δ with
    | nil => simpa using hy
    | cons d δ => simp at hy
  | @tail ps r u z w hz step ih =>
    right
    subst hu
    obtain ⟨hr, p, s, hs, rfl, rfl⟩ := step
    have later : ∀ {σ'}, δ ++ A :: σ' = p ++ r.1 :: s → g.RightmostStep r σ' σ →
        ∃ qs B α β δ' x rs, qs.length < (ps ++ [r]).length ∧ g.Rightmost qs [S] (δ' ++ B :: x) ∧
          (B, α ++ A :: β) ∈ g.productions.pairs ∧ g.AllTerminal x ∧ δ = δ' ++ α ∧
          g.Rightmost rs (β ++ x) σ := by
      intro σ' e hstep
      rcases ih rfl e with ⟨rfl, rfl, rfl, rfl⟩ | ⟨qs, B, α, β, δ', x, rs, hlt, hq, hB, hx, hδ, hσ⟩
      · obtain ⟨-, p', s', -, e', -⟩ := hstep
        simp at e'
      · exact ⟨qs, B, α, β, δ', x, _, by simp; omega, hq, hB, hx, hδ, hσ.tail hstep⟩
    rw [List.append_assoc] at hy
    rcases append_eq_append_cons hy.symm with ⟨t, rfl, e⟩ | ⟨t, rfl, e⟩
    · -- `A` stands before the replaced nonterminal
      subst e
      exact later (by simp) ⟨hr, t, s, hs, rfl, by simp⟩
    · rcases append_eq_append_cons e with ⟨t', ht', rfl⟩ | ⟨t', -, rfl⟩
      · -- `A` was put there by this very step
        refine ⟨ps, r.1, t, t', p, s, [], by simp, hz, ?_, hs, rfl, .refl _⟩
        rw [← ht']
        exact hr
      · -- `A` would stand among the terminals on the right
        have hf : g.isNonterminal A = false := hs A (by simp)
        rw [hA] at hf
        cases hf

end Rightmost

/-- A string of terminals that can be derived has a rightmost derivation. -/
theorem Derives.exists_rightmost (h : g.Derives u w) (hw : g.AllTerminal w) :
    ∃ ps, g.Rightmost ps u w := by
  induction h using Relation.ReflTransGen.head_induction_on with
  | refl => exact ⟨[], .refl w⟩
  | head step _ ih =>
    obtain ⟨A, rhs, p, s, hr, rfl, rfl⟩ := step
    obtain ⟨ps, h⟩ := ih
    obtain ⟨w₁, w₃, qs₁, qs₃, rfl, h₁, h₃, -⟩ := h.split
    have hw₃ : g.AllTerminal w₃ := (allTerminal_append.1 hw).2
    -- first the right context, then the step itself, then the rest
    have right : g.Rightmost qs₃ (p ++ A :: s) (p ++ A :: w₃) := by
      simpa using h₃.append_left (p ++ [A])
    have step : g.RightmostStep (A, rhs) (p ++ A :: w₃) (p ++ rhs ++ w₃) :=
      ⟨hr, p, w₃, hw₃, rfl, rfl⟩
    exact ⟨_, (right.tail step).trans (h₁.append_right hw₃)⟩

end Grammar

end CanonicalLR
