/-!
# Grammar symbols and sets of them

A symbol is any string.  Two strings are reserved in grammar text: `$` stands for the end of the
input and `ε` for the empty string.  A `SymbolSet` is kept as a strictly ascending list in code
point order, so two sets are equal exactly when they have the same members, and listing a set
gives its members sorted.
-/

namespace CanonicalLR

/-- A terminal or nonterminal of a grammar. -/
abbrev Symbol := String

/-- The symbol that follows the last token of an input. -/
def endMarker : Symbol := "$"

/-- The symbol that stands for the empty string. -/
def epsilon : Symbol := "ε"

/-- A finite set of symbols, listed in ascending code point order. -/
structure SymbolSet where
  toList : List Symbol
  ascending : toList.Pairwise (· < ·)
deriving DecidableEq

namespace SymbolSet

instance : Membership Symbol SymbolSet := ⟨fun s x => x ∈ s.toList⟩

instance (x : Symbol) (s : SymbolSet) : Decidable (x ∈ s) :=
  inferInstanceAs (Decidable (x ∈ s.toList))

theorem mem_def {x : Symbol} {s : SymbolSet} : x ∈ s ↔ x ∈ s.toList := Iff.rfl

/-- The set without members. -/
def empty : SymbolSet := ⟨[], List.Pairwise.nil⟩

instance : EmptyCollection SymbolSet := ⟨empty⟩

instance : Inhabited SymbolSet := ⟨empty⟩

/-- Puts a symbol at its place in an ascending list, once. -/
def place (x : Symbol) : List Symbol → List Symbol
  | [] => [x]
  | y :: ys => if x < y then x :: y :: ys else if x = y then y :: ys else y :: place x ys

theorem mem_place {x z : Symbol} {ys : List Symbol} : z ∈ place x ys ↔ z = x ∨ z ∈ ys := by
  induction ys with
  | nil => simp [place]
  | cons y ys ih =>
    unfold place
    split
    · simp
    · split
      · next h => subst h; simp
      · simp only [List.mem_cons, ih]
        exact or_left_comm

theorem place_ascending {x : Symbol} {ys : List Symbol} (h : ys.Pairwise (· < ·)) :
    (place x ys).Pairwise (· < ·) := by
  induction ys with
  | nil => simp [place]
  | cons y ys ih =>
    have hy := List.pairwise_cons.1 h
    unfold place
    split
    · next hlt =>
      refine List.pairwise_cons.2 ⟨fun z hz => ?_, h⟩
      rcases List.mem_cons.1 hz with rfl | hz
      · exact hlt
      · exact String.lt_trans hlt (hy.1 z hz)
    · next hlt =>
      split
      · exact h
      · next hne =>
        refine List.pairwise_cons.2 ⟨fun z hz => ?_, ih hy.2⟩
        rcases mem_place.1 hz with rfl | hz
        · exact Decidable.byContradiction fun hzy =>
            hne (String.le_antisymm (String.not_lt.1 hzy) (String.not_lt.1 hlt))
        · exact hy.1 z hz

/-- The set with one more member. -/
def insert (x : Symbol) (s : SymbolSet) : SymbolSet :=
  ⟨place x s.toList, place_ascending s.ascending⟩

/-- The set with one member. -/
def singleton (x : Symbol) : SymbolSet := ⟨[x], List.pairwise_singleton _ _⟩

/-- The members of either set. -/
def union (s t : SymbolSet) : SymbolSet := s.toList.foldr insert t

instance : Union SymbolSet := ⟨union⟩

/-- The set without one symbol. -/
def erase (s : SymbolSet) (x : Symbol) : SymbolSet :=
  ⟨s.toList.filter (· ≠ x), s.ascending.filter _⟩

/-- The members of a list. -/
def ofList (xs : List Symbol) : SymbolSet := xs.foldr insert empty

/-- The number of members. -/
def size (s : SymbolSet) : Nat := s.toList.length

@[simp] theorem not_mem_empty {x : Symbol} : ¬ x ∈ (∅ : SymbolSet) := by
  intro h; exact List.not_mem_nil h

@[simp] theorem mem_insert {x y : Symbol} {s : SymbolSet} : x ∈ s.insert y ↔ x = y ∨ x ∈ s :=
  mem_place

@[simp] theorem mem_singleton {x y : Symbol} : x ∈ singleton y ↔ x = y := List.mem_singleton

@[simp] theorem mem_union {x : Symbol} {s t : SymbolSet} : x ∈ s ∪ t ↔ x ∈ s ∨ x ∈ t := by
  have fold : ∀ xs : List Symbol, x ∈ xs.foldr insert t ↔ x ∈ xs ∨ x ∈ t := by
    intro xs
    induction xs with
    | nil => simp
    | cons y ys ih => rw [List.foldr_cons, mem_insert, ih, List.mem_cons, or_assoc]
  exact fold s.toList

@[simp] theorem mem_erase {x y : Symbol} {s : SymbolSet} : x ∈ s.erase y ↔ x ∈ s ∧ x ≠ y := by
  simp [mem_def, erase]

@[simp] theorem mem_ofList {x : Symbol} {xs : List Symbol} : x ∈ ofList xs ↔ x ∈ xs := by
  induction xs with
  | nil => exact iff_of_false not_mem_empty List.not_mem_nil
  | cons y ys ih =>
    show x ∈ insert y (ofList ys) ↔ _
    rw [mem_insert, ih, List.mem_cons]

/-- Strictly ascending lists with the same members are the same list. -/
theorem eq_of_mem_iff_of_ascending : ∀ {xs ys : List Symbol}, xs.Pairwise (· < ·) →
    ys.Pairwise (· < ·) → (∀ x, x ∈ xs ↔ x ∈ ys) → xs = ys
  | [], [], _, _, _ => rfl
  | [], y :: _, _, _, h => absurd ((h y).2 (by simp)) List.not_mem_nil
  | x :: _, [], _, _, h => absurd ((h x).1 (by simp)) List.not_mem_nil
  | x :: xs, y :: ys, hx, hy, h => by
    rw [List.pairwise_cons] at hx hy
    have hxy : x = y := by
      rcases List.mem_cons.1 ((h x).1 (by simp)) with e | hxy
      · exact e
      · rcases List.mem_cons.1 ((h y).2 (by simp)) with e | hyx
        · exact e.symm
        · exact absurd (hx.1 y hyx) (String.lt_asymm (hy.1 x hxy))
    subst hxy
    congr 1
    refine eq_of_mem_iff_of_ascending hx.2 hy.2 fun z => ⟨fun hz => ?_, fun hz => ?_⟩
    · rcases List.mem_cons.1 ((h z).1 (List.mem_cons_of_mem _ hz)) with e | hz'
      · exact absurd (e ▸ hx.1 z hz) (String.lt_irrefl x)
      · exact hz'
    · rcases List.mem_cons.1 ((h z).2 (List.mem_cons_of_mem _ hz)) with e | hz'
      · exact absurd (e ▸ hy.1 z hz) (String.lt_irrefl x)
      · exact hz'

/-- Sets with the same members are equal. -/
theorem ext {s t : SymbolSet} (h : ∀ x, x ∈ s ↔ x ∈ t) : s = t := by
  have e : s.toList = t.toList := eq_of_mem_iff_of_ascending s.ascending t.ascending h
  cases s; cases t; simp only at e; subst e; rfl

end SymbolSet

end CanonicalLR
