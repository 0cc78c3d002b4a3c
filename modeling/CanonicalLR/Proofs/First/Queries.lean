import CanonicalLR.First.Memo
import CanonicalLR.Proofs.First.Solution

/-!
# Queries and their memo

Whatever is asked, answers that were given stay as they are (`Memo.Extends`), so one function on
symbol strings gives every answer of a session: any function that agrees with the last memo
(`Memo.Agrees`).  A property of memos that a query keeps is `Kept`; what later modules need of the
memo is proved kept here.

Under the fixed point strategy that function is FIRST (`kept_settled`), and under both strategies
every answer is made of symbols that may be there by their form (`kept_credible`).
-/

namespace CanonicalLR

namespace Memo

/-- A later memo knows every string that an earlier one knows, with the same set. -/
def Extends (memo later : Memo) : Prop :=
  ∀ xs set, memo.strings.lookup xs = some set → later.strings.lookup xs = some set

/-- Every string that the memo knows has its set from the function. -/
def Agrees (F : List Symbol → SymbolSet) (memo : Memo) : Prop :=
  ∀ xs set, memo.strings.lookup xs = some set → set = F xs

theorem Extends.refl (memo : Memo) : memo.Extends memo := fun _ _ h => h

theorem Agrees.of_extends {F : List Symbol → SymbolSet} {memo later : Memo} (h : later.Agrees F)
    (he : memo.Extends later) : memo.Agrees F := fun xs set hl => h xs set (he xs set hl)

theorem lookup_keepString (memo : Memo) (xs ys : List Symbol) (set : SymbolSet) :
    (memo.keepString xs set).strings.lookup ys =
      if ys = xs then some set else memo.strings.lookup ys := by
  show List.lookup ys ((xs, set) :: memo.strings) = _
  rw [List.lookup_cons]
  by_cases h : ys = xs
  · simp [h]
  · rw [if_neg h, beq_eq_false_iff_ne.2 h]

theorem lookup_keep (memo : Memo) (x y : Symbol) (set : SymbolSet) :
    (memo.keep x set).symbols.lookup y = if y = x then some set else memo.symbols.lookup y :=
  Entries.lookup_cons y (x, set) memo.symbols

/-- The sets known are made of symbols that may be there. -/
structure Credible (g : Grammar) (memo : Memo) : Prop where
  symbols : ∀ x set t, memo.symbols.lookup x = some set → t ∈ set → g.MayBegin [x] t
  strings : ∀ xs set t, memo.strings.lookup xs = some set → t ∈ set → g.MayBegin xs t

/-- The least solution of the FIRST equations is known, and all answers follow from it. -/
structure Settled (g : Grammar) (memo : Memo) : Prop where
  symbols : memo.symbols = g.solveFirst
  strings : memo.Agrees g.firstOf

end Memo

namespace Grammar

variable {g : Grammar} {x : Symbol} {xs busy : List Symbol} {memo : Memo}

/-! ## FIRST of a symbol -/

theorem firstWhile_of_terminal (hx : ¬ g.isNonterminal x = true) :
    g.firstWhile busy x memo = (.singleton x, memo) := by
  rw [firstWhile, dif_neg hx]

theorem firstWhile_of_busy (hx : g.isNonterminal x = true) (hb : busy.contains x = true) :
    g.firstWhile busy x memo = (∅, memo) := by
  rw [firstWhile, dif_pos hx, dif_pos hb]

theorem firstWhile_of_known {set : SymbolSet} (hx : g.isNonterminal x = true)
    (hb : ¬ busy.contains x = true) (hl : memo.symbols.lookup x = some set) :
    g.firstWhile busy x memo = (set, memo) := by
  rw [firstWhile, dif_pos hx, dif_neg hb, hl]

/-- The visit of one alternative: its first symbol is asked, and the answer is added. -/
def visitBody (g : Grammar) (busy : List Symbol) (acc : SymbolSet × Memo) :
    List Symbol → SymbolSet × Memo
  | [] => (acc.1.insert epsilon, acc.2)
  | y :: _ => (acc.1 ∪ (g.firstWhile busy y acc.2).1, (g.firstWhile busy y acc.2).2)

/-- The visit of all alternatives of a nonterminal. -/
def visitBodies (g : Grammar) (busy : List Symbol) (x : Symbol) (memo : Memo) : SymbolSet × Memo :=
  (g.alternatives x).foldl (g.visitBody busy) (∅, memo)

theorem firstWhile_of_unknown (hx : g.isNonterminal x = true) (hb : ¬ busy.contains x = true)
    (hl : memo.symbols.lookup x = none) : g.firstWhile busy x memo =
      ((g.visitBodies (x :: busy) x memo).1,
        (g.visitBodies (x :: busy) x memo).2.keep x (g.visitBodies (x :: busy) x memo).1) := by
  have hstep : ∀ acc : SymbolSet × Memo, (fun rhs => match rhs with
      | [] => (acc.1.insert epsilon, acc.2)
      | y :: _ => (acc.1 ∪ (g.firstWhile (x :: busy) y acc.2).1,
          (g.firstWhile (x :: busy) y acc.2).2)) = g.visitBody (x :: busy) acc := by
    intro acc
    funext rhs
    cases rhs <;> rfl
  rw [firstWhile, dif_pos hx, dif_neg hb, hl]
  show _ = (((g.alternatives x).foldl (fun acc => g.visitBody (x :: busy) acc) (∅, memo)).1, _)
  simp only [← hstep, visitBodies]
  rfl

/-- What a visit of alternatives keeps, if a visit of one alternative keeps it. -/
theorem visitBodies_induction {P : SymbolSet × Memo → Prop} (h : P (∅, memo))
    (step : ∀ acc rhs, P acc → rhs ∈ g.alternatives x → P (g.visitBody busy acc rhs)) :
    P (g.visitBodies busy x memo) :=
  List.foldlRecOn _ _ h fun acc ha rhs hr => step acc rhs ha hr

/-- A question about a symbol adds no string. -/
theorem strings_firstWhile (busy : List Symbol) (x : Symbol) (memo : Memo) :
    (g.firstWhile busy x memo).2.strings = memo.strings := by
  induction busy, x, memo using firstWhile.induct g with
  | case1 busy x memo hx hb => rw [firstWhile_of_busy hx hb]
  | case2 busy x memo hx hb set hl => rw [firstWhile_of_known hx hb hl]
  | case3 busy x memo hx hb hl ih =>
    rw [firstWhile_of_unknown hx hb hl]
    show (g.visitBodies (x :: busy) x memo).2.strings = memo.strings
    refine visitBodies_induction (P := fun acc => acc.2.strings = memo.strings) rfl ?_
    intro acc rhs ha _
    cases rhs with
    | nil => exact ha
    | cons y rest => exact (ih acc y).trans ha
  | case4 busy x memo hx => rw [firstWhile_of_terminal hx]

theorem credible_firstWhile (busy : List Symbol) (x : Symbol) (memo : Memo)
    (h : memo.Credible g) : (g.firstWhile busy x memo).2.Credible g ∧
      ∀ t ∈ (g.firstWhile busy x memo).1, g.MayBegin [x] t := by
  induction busy, x, memo using firstWhile.induct g with
  | case1 busy x memo hx hb =>
    rw [firstWhile_of_busy hx hb]
    exact ⟨h, fun t ht => absurd ht SymbolSet.not_mem_empty⟩
  | case2 busy x memo hx hb set hl =>
    rw [firstWhile_of_known hx hb hl]
    exact ⟨h, fun t ht => h.symbols x set t hl ht⟩
  | case3 busy x memo hx hb hl ih =>
    rw [firstWhile_of_unknown hx hb hl]
    have visited : (g.visitBodies (x :: busy) x memo).2.Credible g ∧
        ∀ t ∈ (g.visitBodies (x :: busy) x memo).1, g.MayBegin [x] t := by
      refine visitBodies_induction (P := fun acc => acc.2.Credible g ∧
        ∀ t ∈ acc.1, g.MayBegin [x] t) ⟨h, fun t ht => absurd ht SymbolSet.not_mem_empty⟩ ?_
      rintro acc rhs ⟨hm, hs⟩ hr
      cases rhs with
      | nil =>
        refine ⟨hm, fun t ht => ?_⟩
        rcases SymbolSet.mem_insert.1 ht with rfl | ht
        · exact .inl rfl
        · exact hs t ht
      | cons y rest =>
        obtain ⟨hm', hy⟩ := ih acc y hm
        refine ⟨hm', fun t ht => ?_⟩
        rcases SymbolSet.mem_union.1 ht with ht | ht
        · exact hs t ht
        · exact .of_body (mem_alternatives.1 hr) ((hy t ht).mono (by simp))
    refine ⟨⟨fun z set t hz ht => ?_, visited.1.strings⟩, visited.2⟩
    rw [Memo.lookup_keep] at hz
    split at hz
    · next e =>
      cases hz
      exact e ▸ visited.2 t ht
    · exact visited.1.symbols z set t hz ht
  | case4 busy x memo hx =>
    rw [firstWhile_of_terminal hx]
    refine ⟨h, fun t ht => ?_⟩
    rw [SymbolSet.mem_singleton.1 ht]
    exact mayBegin_self (Bool.eq_false_iff.2 hx)

theorem first_settled (h : memo.Settled g) (x : Symbol) :
    g.first x memo = (g.solveFirst.look x, memo) := by
  rw [first, firstWhile]
  cases hx : g.isNonterminal x with
  | true =>
    have hk : g.solveFirst.lookup x ≠ none := by
      rw [ne_eq, Entries.lookup_eq_none_iff, firstStage_solveFirst.keys, not_not]
      exact isNonterminal_iff.1 hx
    obtain ⟨set, hl⟩ := Option.ne_none_iff_exists'.1 hk
    have hb : ¬ ([] : List Symbol).contains x = true := by simp
    rw [dif_pos rfl, dif_neg hb, h.symbols, hl, FirstTable.look, hl]
    rfl
  | false =>
    rw [dif_neg Bool.false_ne_true, look_of_not_isNonterminal firstStage_solveFirst.keys hx]

/-! ## FIRST of a string -/

theorem strings_scanString (xs : List Symbol) (memo : Memo) :
    (g.scanString xs memo).2.strings = memo.strings := by
  induction xs generalizing memo with
  | nil => rfl
  | cons x xs ih =>
    rw [scanString]
    split
    · exact (ih _).trans (strings_firstWhile [] x memo)
    · exact strings_firstWhile [] x memo

theorem credible_scanString (xs : List Symbol) (memo : Memo) (h : memo.Credible g) :
    (g.scanString xs memo).2.Credible g ∧ ∀ t ∈ (g.scanString xs memo).1, g.MayBegin xs t := by
  induction xs generalizing memo with
  | nil => exact ⟨h, fun t ht => .inl (SymbolSet.mem_singleton.1 ht)⟩
  | cons x xs ih =>
    obtain ⟨hm, hx⟩ := credible_firstWhile [] x memo h
    have head : ∀ t ∈ (g.first x memo).1, g.MayBegin (x :: xs) t :=
      fun t ht => (hx t ht).mono (by simp)
    rw [scanString]
    split
    · obtain ⟨hm', hxs⟩ := ih _ hm
      refine ⟨hm', fun t ht => ?_⟩
      rcases SymbolSet.mem_union.1 ht with ht | ht
      · exact head t (SymbolSet.mem_erase.1 ht).1
      · exact (hxs t ht).mono fun y hy => by simp [hy]
    · exact ⟨hm, head⟩

theorem scanString_settled (h : memo.Settled g) (xs : List Symbol) :
    g.scanString xs memo = (g.firstOf xs, memo) := by
  induction xs with
  | nil => rfl
  | cons x xs ih =>
    rw [scanString, first_settled h, firstOf, firstUnder]
    simp only [ih]
    split <;> rfl

/-- The answer to a question is known afterwards. -/
theorem lookup_firstOfString (xs : List Symbol) (memo : Memo) :
    (g.firstOfString xs memo).2.strings.lookup xs = some (g.firstOfString xs memo).1 := by
  rw [firstOfString]
  cases hl : memo.strings.lookup xs with
  | some set => exact hl
  | none => exact (Memo.lookup_keepString _ _ _ _).trans (if_pos rfl)

/-- A property of memos that no question destroys. -/
def Kept (g : Grammar) (P : Memo → Prop) : Prop :=
  ∀ xs memo, P memo → P (g.firstOfString xs memo).2

theorem kept_extends (first : Memo) : g.Kept first.Extends := by
  intro xs memo h ys set hl
  have hys := h ys set hl
  rw [firstOfString]
  cases hxs : memo.strings.lookup xs with
  | some _ => exact hys
  | none =>
    refine (Memo.lookup_keepString _ _ _ _).trans ?_
    split
    · next e =>
      rw [e, hxs] at hys
      cases hys
    · rwa [strings_scanString]

theorem kept_credible : g.Kept (Memo.Credible g) := by
  intro xs memo h
  rw [firstOfString]
  cases hxs : memo.strings.lookup xs with
  | some _ => exact h
  | none =>
    obtain ⟨hm, hset⟩ := credible_scanString xs memo h
    refine ⟨hm.symbols, fun ys set t hl ht => ?_⟩
    rw [Memo.lookup_keepString] at hl
    split at hl
    · next e =>
      cases hl
      exact e ▸ hset t ht
    · exact hm.strings ys set t hl ht

theorem kept_settled : g.Kept (Memo.Settled g) := by
  intro xs memo h
  rw [firstOfString]
  cases hxs : memo.strings.lookup xs with
  | some _ => exact h
  | none =>
    simp only [scanString_settled h]
    refine ⟨h.symbols, fun ys set hl => ?_⟩
    rw [Memo.lookup_keepString] at hl
    split at hl
    · next e =>
      cases hl
      rw [e]
    · exact h.strings ys set hl

theorem firstOfString_eq {F : List Symbol → SymbolSet}
    (h : (g.firstOfString xs memo).2.Agrees F) : (g.firstOfString xs memo).1 = F xs :=
  h xs _ (lookup_firstOfString xs memo)

/-! ## The first memo -/

theorem credible_openMemo (strategy : FirstStrategy) : (g.openMemo strategy).Credible g := by
  cases strategy with
  | guarded =>
    constructor
    · intro x set t hl
      cases hl
    · intro xs set t hl
      cases hl
  | fixedPoint =>
    constructor
    · intro x set t hl ht
      have hl : g.solveFirst.lookup x = some set := hl
      refine firstStage_solveFirst.bound x t ?_
      rwa [FirstTable.look, hl]
    · intro xs set t hl
      cases hl

theorem settled_openMemo : (g.openMemo .fixedPoint).Settled g :=
  ⟨rfl, fun _ _ hl => nomatch hl⟩

end Grammar

end CanonicalLR
