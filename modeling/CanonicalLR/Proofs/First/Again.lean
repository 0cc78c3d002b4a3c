import CanonicalLR.Proofs.Session

/-!
# Questions that are asked again

A question about a string asks its symbols from left to right, and what it asks becomes known.  So
the same question asked again finds everything that it needs, has the same answer and adds nothing
to the nonterminals that are known (`scanString_again`), whatever was asked in between.

A memo in which every known string could be asked again in this way is `Grounded`.  Then it does not
matter that answers about strings are kept: they can as well be computed again from the nonterminals
(`symbols_firstOfString`).
-/

namespace CanonicalLR

/-- A later table knows every nonterminal that an earlier one knows, with the same set. -/
def FirstTable.Extends (table later : FirstTable) : Prop :=
  ∀ x set, table.lookup x = some set → later.lookup x = some set

theorem FirstTable.Extends.refl (table : FirstTable) : table.Extends table := fun _ _ h => h

theorem FirstTable.Extends.trans {table later last : FirstTable} (h : table.Extends later)
    (h' : later.Extends last) : table.Extends last := fun x set hl => h' x set (h x set hl)

/-- Every string that the memo knows is answered again in the same way from the nonterminals that it
knows, and nothing more becomes known. -/
def Memo.Grounded (g : Grammar) (memo : Memo) : Prop :=
  ∀ xs set, memo.strings.lookup xs = some set → ∀ later : Memo,
    FirstTable.Extends memo.symbols later.symbols → g.scanString xs later = (set, later)

theorem Memo.Grounded.agrees {g : Grammar} {memo : Memo} (h : memo.Grounded g) :
    memo.Agrees fun xs => (g.scanString xs memo).1 := by
  intro xs set hl
  simp only [h xs set hl memo (.refl _)]

namespace Grammar

variable {g : Grammar} {x a : Symbol} {xs : List Symbol} {memo later : Memo}

/-! ## Strings -/

theorem extends_scanString (xs : List Symbol) (memo : Memo) :
    FirstTable.Extends memo.symbols (g.scanString xs memo).2.symbols :=
  fun _ _ h => lookup_scanString xs memo h

theorem first_again (h : FirstTable.Extends (g.first x memo).2.symbols later.symbols) :
    g.first x later = ((g.first x memo).1, later) := by
  by_cases hx : g.isNonterminal x = true
  · exact firstWhile_of_known hx (by simp) (h x _ (lookup_first hx memo))
  · rw [first, firstWhile_of_terminal hx, first, firstWhile_of_terminal hx]

/-- **What is asked again is answered again in the same way**, and nothing more becomes known. -/
theorem scanString_again
    (h : FirstTable.Extends (g.scanString xs memo).2.symbols later.symbols) :
    g.scanString xs later = ((g.scanString xs memo).1, later) := by
  induction xs generalizing memo with
  | nil => rfl
  | cons x xs ih =>
    rw [scanString] at h ⊢
    by_cases hx : epsilon ∈ (g.first x memo).1
    · simp only [if_pos hx] at h
      have hhead := first_again ((extends_scanString xs _).trans h)
      simp only [hhead, scanString, if_pos hx, ih h]
    · simp only [if_neg hx] at h
      have hhead := first_again h
      simp only [hhead, scanString, if_neg hx]

/-- A terminal at the end of a string stands in for `ε`; nothing has to be known of it. -/
theorem scanString_concat (ha : ¬ g.isNonterminal a = true) (hne : a ≠ epsilon)
    (xs : List Symbol) (memo : Memo) : g.scanString (xs ++ [a]) memo =
      if epsilon ∈ (g.scanString xs memo).1 then
        ((g.scanString xs memo).1.erase epsilon ∪ .singleton a, (g.scanString xs memo).2)
      else g.scanString xs memo := by
  induction xs generalizing memo with
  | nil =>
    have hhead : g.first a memo = (.singleton a, memo) := firstWhile_of_terminal ha
    have herase : (SymbolSet.singleton epsilon).erase epsilon ∪ .singleton a = .singleton a := by
      refine SymbolSet.ext fun t => ?_
      simp
    simp only [List.nil_append, scanString, hhead, SymbolSet.mem_singleton, if_neg hne.symm,
      if_true, herase]
  | cons x xs ih =>
    rw [List.cons_append, scanString, scanString]
    by_cases hx : epsilon ∈ (g.first x memo).1
    · simp only [if_pos hx, ih]
      by_cases hxs : epsilon ∈ (g.scanString xs (g.first x memo).2).1
      · rw [if_pos hxs, if_pos (SymbolSet.mem_union.2 (.inr hxs))]
        refine Prod.ext (SymbolSet.ext fun t => ?_) rfl
        simp only [SymbolSet.mem_union, SymbolSet.mem_erase]
        tauto
      · have hnone : ¬ epsilon ∈ (g.first x memo).1.erase epsilon ∪
            (g.scanString xs (g.first x memo).2).1 := by
          simp [hxs]
        rw [if_neg hxs, if_neg hnone]
    · simp only [if_neg hx]

/-- Whether something can stand at the beginning does not depend on the terminal at the end. -/
theorem erase_scanString_concat (ha : ¬ g.isNonterminal a = true) (hne : a ≠ epsilon)
    (xs : List Symbol) (memo : Memo) :
    (g.scanString (xs ++ [a]) memo).1.erase epsilon = ∅ ↔ (g.scanString xs memo).1 = ∅ := by
  rw [scanString_concat ha hne]
  split
  · next h =>
    refine iff_of_false (fun e => ?_) (fun e => ?_)
    · have hmem : a ∈ (∅ : SymbolSet) := e ▸ SymbolSet.mem_erase.2
        ⟨SymbolSet.mem_union.2 (.inr (SymbolSet.mem_singleton.2 rfl)), hne⟩
      exact SymbolSet.not_mem_empty hmem
    · rw [e] at h
      exact SymbolSet.not_mem_empty h
  · next h =>
    have herase : (g.scanString xs memo).1.erase epsilon = (g.scanString xs memo).1 := by
      refine SymbolSet.ext fun t => ?_
      rw [SymbolSet.mem_erase, and_iff_left_iff_imp]
      rintro ht rfl
      exact h ht
    rw [herase]

/-! ## Memos -/

theorem grounded_openMemo (strategy : FirstStrategy) : (g.openMemo strategy).Grounded g := by
  intro xs set hl
  cases strategy <;> cases hl

/-- **An answer that was kept is the one that would be computed**, and leaves as much to be
known. -/
theorem symbols_firstOfString (hm : memo.Grounded g) (xs : List Symbol) :
    (g.firstOfString xs memo).1 = (g.scanString xs memo).1 ∧
    (g.firstOfString xs memo).2.symbols = (g.scanString xs memo).2.symbols := by
  rw [firstOfString]
  cases hl : memo.strings.lookup xs with
  | none => exact ⟨rfl, rfl⟩
  | some set =>
    rw [hm xs set hl memo (.refl _)]
    exact ⟨rfl, rfl⟩

theorem kept_grounded : g.Kept (Memo.Grounded g) := by
  intro xs memo hm
  rw [firstOfString]
  cases hl : memo.strings.lookup xs with
  | some set => exact hm
  | none =>
    intro ys set hys later hext
    rw [Memo.lookup_keepString] at hys
    split at hys
    · next e =>
      cases hys
      rw [e]
      exact scanString_again hext
    · rw [strings_scanString] at hys
      exact hm ys set hys later ((extends_scanString xs memo).trans hext)

end Grammar

end CanonicalLR
