import CanonicalLR.Proofs.First.Queries

/-!
# What the guarded strategy computes

The guarded strategy follows first symbols only.  `HeadOf x t` says that `t` is found in this way:
a chain of first symbols leads from `x` to `t`, or to an empty alternative and then `t` is `ε`.

An expansion that comes back to a symbol under way learns nothing there, and a set that is computed
meanwhile is kept as it is.  This does no harm where a chain of first symbols can come back to a
nonterminal only at once (`LeftApart`): then the symbol is the one being expanded, and its own
alternatives still give all of its set.  So every answer is the set of `HeadOf`
(`heads_firstWhile`), whatever was asked before.

If moreover only alternatives of one symbol begin with what can vanish (`HeadsStay`), nothing
behind a first symbol matters and that set is FIRST (`headOf_iff`).  Under both conditions a memo
never holds anything but FIRST (`kept_exact`).
-/

namespace CanonicalLR

namespace Grammar

/-- What a symbol begins with when only first symbols are followed. -/
inductive HeadOf (g : Grammar) : Symbol → Symbol → Prop
  | self {x : Symbol} (hx : g.isNonterminal x = false) : HeadOf g x x
  | empty {A : Symbol} (h : (A, []) ∈ g.productions.pairs) : HeadOf g A epsilon
  | first {A y t : Symbol} {rest : List Symbol} (h : (A, y :: rest) ∈ g.productions.pairs)
      (hy : HeadOf g y t) : HeadOf g A t

/-- A symbol begins an alternative of a nonterminal. -/
def LeftStep (g : Grammar) (A y : Symbol) : Prop := ∃ rest, (A, y :: rest) ∈ g.productions.pairs

/-- A chain of first symbols, possibly without a step. -/
def LeftReaches (g : Grammar) : Symbol → Symbol → Prop := Relation.ReflTransGen g.LeftStep

/-- No two different symbols are mutually left-recursive. -/
def LeftApart (g : Grammar) : Prop := ∀ A B, g.LeftReaches A B → g.LeftReaches B A → A = B

/-- No alternative of two or more symbols begins with one that can vanish. -/
def HeadsStay (g : Grammar) : Prop :=
  ∀ A B rest, (A, B :: rest) ∈ g.productions.pairs → rest ≠ [] → ¬ g.Derives [B] []

end Grammar

/-- Every set that is known holds what first symbols lead to. -/
def Memo.Heads (g : Grammar) (memo : Memo) : Prop :=
  ∀ x set, memo.symbols.lookup x = some set → ∀ t, t ∈ set ↔ g.HeadOf x t

theorem Memo.Heads.keep {g : Grammar} {memo : Memo} {x : Symbol} {set : SymbolSet}
    (h : memo.Heads g) (hs : ∀ t, t ∈ set ↔ g.HeadOf x t) : (memo.keep x set).Heads g := by
  intro z found hz
  rw [Memo.lookup_keep] at hz
  by_cases hzx : z = x
  · subst hzx
    rw [if_pos rfl] at hz
    cases hz
    exact hs
  · rw [if_neg hzx] at hz
    exact h z found hz

/-- Every set that is known is FIRST. -/
structure Memo.Exact (g : Grammar) (memo : Memo) : Prop where
  symbols : ∀ x set, memo.symbols.lookup x = some set → set = g.solveFirst.look x
  strings : memo.Agrees g.firstOf

namespace Grammar

variable {g : Grammar} {A x y t : Symbol} {xs busy rhs rest : List Symbol} {memo : Memo}

theorem headOf_of_not_isNonterminal (hx : g.isNonterminal x = false) :
    g.HeadOf x t ↔ t = x := by
  constructor
  · intro h
    cases h with
    | self => rfl
    | empty h | first h =>
      rw [isNonterminal_of_mem h] at hx
      cases hx
  · rintro rfl
    exact .self hx

/-- It is enough that every step to another symbol leads down in some order. -/
theorem leftApart_of_rank (rank : Symbol → Nat)
    (h : ∀ A y, g.LeftStep A y → y = A ∨ rank y < rank A) : g.LeftApart := by
  have chain : ∀ {A B}, g.LeftReaches A B → B = A ∨ rank B < rank A := by
    intro A B hreach
    induction hreach with
    | refl => exact .inl rfl
    | @tail B C _ step ih =>
      rcases h B C step with rfl | hlt
      · exact ih
      · rcases ih with rfl | hlt'
        · exact .inr hlt
        · exact .inr (Nat.lt_trans hlt hlt')
  intro A B hAB hBA
  rcases chain hAB with e | hlt
  · exact e.symm
  · rcases chain hBA with e | hlt'
    · exact e
    · omega

/-! ## The expansion of a nonterminal -/

/-- What one alternative of `A` gives while `A` is being expanded. -/
def Offers (g : Grammar) (A : Symbol) (rhs : List Symbol) (t : Symbol) : Prop :=
  (rhs = [] ∧ t = epsilon) ∨ ∃ y rest, rhs = y :: rest ∧ y ≠ A ∧ g.HeadOf y t

/-- Alternatives that begin with the expanded nonterminal itself are not missed. -/
theorem headOf_iff_offers (hA : g.isNonterminal A = true) :
    g.HeadOf A t ↔ ∃ rhs ∈ g.alternatives A, g.Offers A rhs t := by
  simp only [mem_alternatives]
  constructor
  · intro h
    induction h with
    | self hx =>
      rw [hA] at hx
      cases hx
    | empty h => exact ⟨[], h, .inl ⟨rfl, rfl⟩⟩
    | @first A y t rest h hy ih =>
      by_cases hyA : y = A
      · subst hyA
        exact ih hA
      · exact ⟨y :: rest, h, .inr ⟨y, rest, rfl, hyA, hy⟩⟩
  · rintro ⟨rhs, hr, ⟨rfl, rfl⟩ | ⟨y, rest, rfl, -, hy⟩⟩
    · exact .empty hr
    · exact .first hr hy

/-- Whether a symbol is answered by what first symbols lead to, under every memo of such sets. -/
def AnsweredByHeads (g : Grammar) (busy : List Symbol) (y : Symbol) : Prop :=
  ∀ memo : Memo, memo.Heads g → (g.firstWhile busy y memo).2.Heads g ∧
    ∀ t, t ∈ (g.firstWhile busy y memo).1 ↔ g.HeadOf y t

section Expansion

variable (hx : g.isNonterminal x = true)
  (ask : ∀ y, y ≠ x → g.LeftStep x y → g.AnsweredByHeads (x :: busy) y)

include hx ask in
theorem heads_visitBody {acc : SymbolSet × Memo} (hm : acc.2.Heads g)
    (hr : rhs ∈ g.alternatives x) :
    (g.visitBody (x :: busy) acc rhs).2.Heads g ∧
      ∀ t, t ∈ (g.visitBody (x :: busy) acc rhs).1 ↔ t ∈ acc.1 ∨ g.Offers x rhs t := by
  unfold Offers
  cases rhs with
  | nil =>
    refine ⟨hm, fun t => ?_⟩
    simp [visitBody, or_comm]
  | cons y rest =>
    by_cases hyx : y = x
    · subst hyx
      have hbusy : (y :: busy).contains y = true := by simp
      simp only [visitBody, firstWhile_of_busy hx hbusy]
      refine ⟨hm, fun t => ?_⟩
      simp
    · obtain ⟨hm', hy⟩ := ask y hyx ⟨rest, mem_alternatives.1 hr⟩ acc.2 hm
      refine ⟨hm', fun t => ?_⟩
      simp [visitBody, hy, hyx]

include hx ask in
theorem heads_visit (bodies : List (List Symbol)) (hb : ∀ rhs ∈ bodies, rhs ∈ g.alternatives x)
    (acc : SymbolSet × Memo) (hm : acc.2.Heads g) :
    (bodies.foldl (g.visitBody (x :: busy)) acc).2.Heads g ∧
      ∀ t, t ∈ (bodies.foldl (g.visitBody (x :: busy)) acc).1 ↔
        t ∈ acc.1 ∨ ∃ rhs ∈ bodies, g.Offers x rhs t := by
  induction bodies generalizing acc with
  | nil => exact ⟨hm, fun t => by simp⟩
  | cons rhs bodies ih =>
    obtain ⟨hm', hset⟩ := heads_visitBody hx ask hm (hb rhs List.mem_cons_self)
    obtain ⟨hlast, hall⟩ := ih (fun r hr => hb r (List.mem_cons_of_mem _ hr)) _ hm'
    refine ⟨hlast, fun t => ?_⟩
    rw [List.foldl_cons, hall, hset]
    simp only [List.mem_cons, or_and_right, exists_or, exists_eq_left, or_assoc]

include hx ask in
theorem heads_visitBodies (hm : memo.Heads g) : (g.visitBodies (x :: busy) x memo).2.Heads g ∧
    ∀ t, t ∈ (g.visitBodies (x :: busy) x memo).1 ↔ g.HeadOf x t := by
  obtain ⟨hlast, hset⟩ := heads_visit hx ask (g.alternatives x) (fun _ h => h) (∅, memo) hm
  refine ⟨hlast, fun t => ?_⟩
  rw [visitBodies, hset, headOf_iff_offers hx]
  simp

end Expansion

/-- **Guarded answers.**  If no two symbols are mutually left-recursive, a symbol that is not under
way is answered by what first symbols lead to.  Those under way all lead to the one asked for. -/
theorem heads_firstWhile (apart : g.LeftApart) (busy : List Symbol) (x : Symbol) (memo : Memo)
    (hm : memo.Heads g) (hb : ∀ b ∈ busy, g.LeftReaches b x) :
    (g.firstWhile busy x memo).2.Heads g ∧
      (x ∉ busy → ∀ t, t ∈ (g.firstWhile busy x memo).1 ↔ g.HeadOf x t) := by
  induction busy, x, memo using firstWhile.induct g with
  | case1 busy x memo hx hbusy =>
    rw [firstWhile_of_busy hx hbusy]
    exact ⟨hm, fun hn => absurd (List.contains_iff_mem.1 hbusy) hn⟩
  | case2 busy x memo hx hbusy set hl =>
    rw [firstWhile_of_known hx hbusy hl]
    exact ⟨hm, fun _ => hm x set hl⟩
  | case3 busy x memo hx hbusy hl ih =>
    have ask : ∀ y, y ≠ x → g.LeftStep x y → g.AnsweredByHeads (x :: busy) y := by
      intro y hyx step m hm'
      have lead : ∀ b ∈ x :: busy, g.LeftReaches b y := by
        intro b hmem
        rcases List.mem_cons.1 hmem with rfl | hmem
        · exact .single step
        · exact (hb b hmem).tail step
      -- a symbol under way that begins an alternative leads back, so it is the one expanded
      have hfree : y ∉ x :: busy := by
        intro hmem
        rcases List.mem_cons.1 hmem with e | hmem
        · exact hyx e
        · exact hyx (apart y x (hb y hmem) (.single step))
      obtain ⟨hm'', hset⟩ := ih (∅, m) y hm' lead
      exact ⟨hm'', hset hfree⟩
    obtain ⟨hlast, hset⟩ := heads_visitBodies hx ask hm
    rw [firstWhile_of_unknown hx hbusy hl]
    exact ⟨hlast.keep hset, fun _ => hset⟩
  | case4 busy x memo hx =>
    rw [firstWhile_of_terminal hx]
    refine ⟨hm, fun _ t => ?_⟩
    rw [SymbolSet.mem_singleton, headOf_of_not_isNonterminal (Bool.eq_false_iff.2 hx)]

/-! ## First symbols and FIRST -/

theorem ne_epsilon_of_mem (he : epsilon ∉ g.symbols)
    (h : (A, y :: rest) ∈ g.productions.pairs) : y ≠ epsilon := by
  rintro rfl
  exact he (mem_symbols_of_mem h List.mem_cons_self)

/-- First symbols lead to an empty alternative only from what can vanish. -/
theorem HeadOf.vanishes (he : epsilon ∉ g.symbols) (stay : g.HeadsStay) (h : g.HeadOf x t)
    (ht : t = epsilon) (hx : x ≠ epsilon) : g.Derives [x] [] := by
  induction h with
  | self => exact absurd ht hx
  | empty h => exact .of_mem h
  | @first A y t rest h hy ih =>
    have hvanish := ih ht (ne_epsilon_of_mem he h)
    have hrest : rest = [] := by
      by_contra hr
      exact stay A y rest h hr hvanish
    subst hrest
    exact (Derives.of_mem h).trans hvanish

/-- Nothing stands behind a first symbol that leads to an empty alternative. -/
theorem HeadOf.alone (he : epsilon ∉ g.symbols) (stay : g.HeadsStay)
    (h : (A, y :: rest) ∈ g.productions.pairs) (hy : g.HeadOf y epsilon) : rest = [] := by
  by_contra hr
  exact stay A y rest h hr (hy.vanishes he stay rfl (ne_epsilon_of_mem he h))

theorem mem_look_of_headOf (he : epsilon ∉ g.symbols) (stay : g.HeadsStay) (h : g.HeadOf x t) :
    t ∈ g.solveFirst.look x := by
  induction h with
  | self hx =>
    rw [look_of_not_isNonterminal firstStage_solveFirst.keys hx]
    exact SymbolSet.mem_singleton.2 rfl
  | empty h =>
    exact (mem_solveFirst_iff (isNonterminal_of_mem h)).2 ⟨[], h, SymbolSet.mem_singleton.2 rfl⟩
  | @first A y t rest h hy ih =>
    refine (mem_solveFirst_iff (isNonterminal_of_mem h)).2 ⟨y :: rest, h, ?_⟩
    rw [firstOf, mem_firstUnder_cons]
    by_cases ht : t = epsilon
    · subst ht
      obtain rfl := HeadOf.alone he stay h hy
      exact .inr ⟨ih, SymbolSet.mem_singleton.2 rfl⟩
    · exact .inl ⟨ih, ht⟩

theorem headOf_of_mem_look (he : epsilon ∉ g.symbols) (stay : g.HeadsStay)
    (hA : g.isNonterminal A = true) (ht : t ∈ g.solveFirst.look A) : g.HeadOf A t := by
  -- the sets of every round hold only what first symbols lead to
  let Led (table : FirstTable) : Prop := table.keys = g.nonterminals ∧
    ∀ A t, g.isNonterminal A = true → t ∈ table.look A → g.HeadOf A t
  have led : Led g.solveFirst := by
    refine settleFirst_induction (P := Led) ?_ _
      ⟨keys_noFirst, fun A t hA ht => absurd ht (not_mem_look_noFirst hA)⟩
    rintro table ⟨hk, hs⟩
    refine ⟨keys_firstRound table, fun A t hA ht => ?_⟩
    have symbol : ∀ y t, t ∈ table.look y → g.HeadOf y t := by
      intro y t ht
      cases hy : g.isNonterminal y with
      | true => exact hs y t hy ht
      | false =>
        rw [look_of_not_isNonterminal hk hy, SymbolSet.mem_singleton] at ht
        exact (headOf_of_not_isNonterminal hy).2 ht
    obtain ⟨rhs, hr, ht⟩ := (mem_look_firstRound hA).1 ht
    cases rhs with
    | nil =>
      obtain rfl := SymbolSet.mem_singleton.1 ht
      exact .empty hr
    | cons y rest =>
      rcases mem_firstUnder_cons.1 ht with ⟨hy, -⟩ | ⟨hy, hrest⟩
      · exact .first hr (symbol y t hy)
      · obtain rfl := HeadOf.alone he stay hr (symbol y epsilon hy)
        obtain rfl := SymbolSet.mem_singleton.1 hrest
        exact .first hr (symbol y epsilon hy)
  exact led.2 A t hA ht

theorem headOf_iff (he : epsilon ∉ g.symbols) (stay : g.HeadsStay) :
    g.HeadOf x t ↔ t ∈ g.solveFirst.look x := by
  refine ⟨mem_look_of_headOf he stay, fun ht => ?_⟩
  cases hx : g.isNonterminal x with
  | true => exact headOf_of_mem_look he stay hx ht
  | false =>
    rw [look_of_not_isNonterminal firstStage_solveFirst.keys hx, SymbolSet.mem_singleton] at ht
    exact (headOf_of_not_isNonterminal hx).2 ht

/-! ## Memos that hold FIRST -/

theorem exact_openMemo : (g.openMemo .guarded).Exact g where
  symbols _ _ hl := nomatch hl
  strings _ _ hl := nomatch hl

section Exact

variable (he : epsilon ∉ g.symbols) (stay : g.HeadsStay) (apart : g.LeftApart)

include he stay apart

theorem first_exact (hm : memo.Exact g) (x : Symbol) :
    (g.first x memo).1 = g.solveFirst.look x ∧ (g.first x memo).2.Exact g := by
  have heads : memo.Heads g := by
    intro y set hl t
    rw [hm.symbols y set hl, headOf_iff he stay]
  obtain ⟨hlast, hset⟩ := heads_firstWhile apart [] x memo heads (by simp)
  refine ⟨SymbolSet.ext fun t => ?_, fun y set hl => SymbolSet.ext fun t => ?_, ?_⟩
  · rw [first, hset List.not_mem_nil, headOf_iff he stay]
  · rw [hlast y set hl, headOf_iff he stay]
  · rw [first, Memo.Agrees, strings_firstWhile]
    exact hm.strings

theorem scanString_exact (xs : List Symbol) (hm : memo.Exact g) :
    (g.scanString xs memo).1 = g.firstOf xs ∧ (g.scanString xs memo).2.Exact g := by
  induction xs generalizing memo with
  | nil => exact ⟨rfl, hm⟩
  | cons x xs ih =>
    obtain ⟨hx, hm'⟩ := first_exact he stay apart hm x
    obtain ⟨hxs, hm''⟩ := ih hm'
    rw [scanString, firstOf, firstUnder]
    simp only [hx]
    split
    · exact ⟨congrArg ((g.solveFirst.look x).erase epsilon ∪ ·) hxs, hm''⟩
    · exact ⟨hx, hm'⟩

/-- What a memo holds is FIRST, whatever is asked. -/
theorem kept_exact : g.Kept (Memo.Exact g) := by
  intro xs memo hm
  obtain ⟨hset, hm'⟩ := scanString_exact he stay apart xs hm
  unfold firstOfString
  cases hl : memo.strings.lookup xs with
  | some _ => exact hm
  | none =>
    refine ⟨hm'.symbols, fun ys set hys => ?_⟩
    rw [Memo.lookup_keepString] at hys
    by_cases e : ys = xs
    · rw [if_pos e] at hys
      cases hys
      rw [hset, e]
    · rw [if_neg e] at hys
      exact hm'.strings ys set hys

end Exact

end Grammar

end CanonicalLR
