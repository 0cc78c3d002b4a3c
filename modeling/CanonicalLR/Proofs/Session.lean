import CanonicalLR.Proofs.Agreement

/-!
# Sessions

One calculator and one builder serve any number of questions, and each question leaves more in the
memo than it found.  Under the guarded strategy FIRST of a nonterminal can depend on what was asked
before it.  Still, all answers of a session follow from a single function on symbol strings
(`session_follows_first`): entries of the memo are added and never changed, so every answer can be
read off the last memo (`exists_asked`, `ask_eq`), also by a question that was asked when much less
was known.
-/

namespace CanonicalLR

/-- What can be asked of a calculator of FIRST sets and of the builder that uses it. -/
inductive Query where
  | first (x : Symbol)
  | firstString (xs : List Symbol)
  | closure (items : List Item)
  | goto (items : List Item) (x : Symbol)
  | canonical
deriving DecidableEq

/-- What is answered to a question: a set of symbols, a list of items or an automaton. -/
inductive Answer where
  | symbols (set : SymbolSet)
  | items (items : List Item)
  | automaton (automaton : Automaton)
deriving DecidableEq

/-- Everything that a memo knows is known to a later one, and is the same. -/
structure Memo.Retained (memo later : Memo) : Prop where
  strings : memo.Extends later
  symbols : ∀ x set, memo.symbols.lookup x = some set → later.symbols.lookup x = some set

theorem Memo.Retained.refl (memo : Memo) : memo.Retained memo :=
  ⟨Extends.refl memo, fun _ _ h => h⟩

theorem Memo.Retained.agrees {memo last : Memo} (h : memo.Retained last) :
    memo.Agrees last.answers := last.agrees_answers.of_extends h.strings

namespace Grammar

/-- Asks a question, with what the calculator remembers: the answer, and what it remembers next. -/
def ask (g : Grammar) (memo : Memo) : Query → Answer × Memo
  | .first x => (g.first x memo).map .symbols id
  | .firstString xs => (g.firstOfString xs memo).map .symbols id
  | .closure items => (g.closure items memo).map .items id
  | .goto items x => (g.goto items x memo).map .items id
  | .canonical => (g.canonical memo).map .automaton id

/-- Asks some questions one after the other.  Every answer comes with its question, and the memo is
the one after the last question. -/
def session (g : Grammar) : List Query → Memo → List (Query × Answer) × Memo
  | [], memo => ([], memo)
  | query :: rest, memo =>
    let given := g.ask memo query
    let others := g.session rest given.2
    ((query, given.1) :: others.1, others.2)

variable {g : Grammar} {F : List Symbol → SymbolSet} {P : Memo → Prop} {memo m₁ m₂ last : Memo}
  {x : Symbol} {query : Query} {queries : List Query} {answer : Answer}

/-! ## What no question destroys -/

/-- A property of memos that neither a question about a symbol nor one about a string destroys. -/
structure Stable (g : Grammar) (P : Memo → Prop) : Prop where
  first : ∀ x memo, P memo → P (g.first x memo).2
  string : g.Kept P

theorem Stable.ask (hP : g.Stable P) (query : Query) (h : P memo) : P (g.ask memo query).2 := by
  cases query with
  | first x => exact hP.first x memo h
  | firstString xs => exact hP.string xs memo h
  | closure items => exact hP.string.closure items h
  | goto items x => exact hP.string.goto items x h
  | canonical => exact hP.string.canonical h

theorem Stable.session (hP : g.Stable P) (queries : List Query) (h : P memo) :
    P (g.session queries memo).2 := by
  induction queries generalizing memo with
  | nil => exact h
  | cons query rest ih => exact ih (hP.ask query h)

theorem stable_credible : g.Stable (Memo.Credible g) where
  first x memo h := (credible_firstWhile [] x memo h).1
  string := kept_credible

theorem lookup_firstWhile (busy : List Symbol) (x : Symbol) (memo : Memo) {y : Symbol}
    {set : SymbolSet} (h : memo.symbols.lookup y = some set) :
    (g.firstWhile busy x memo).2.symbols.lookup y = some set := by
  induction busy, x, memo using firstWhile.induct g with
  | case1 busy x memo hx hb => rwa [firstWhile_of_busy hx hb]
  | case2 busy x memo hx hb found hl => rwa [firstWhile_of_known hx hb hl]
  | case3 busy x memo hx hb hl ih =>
    have visited : (g.visitBodies (x :: busy) x memo).2.symbols.lookup y = some set := by
      apply visitBodies_induction (P := fun acc => acc.2.symbols.lookup y = some set) h
      intro acc rhs ha _
      cases rhs with
      | nil => exact ha
      | cons z rest => exact ih acc z ha
    -- only what is unknown is expanded and kept, so the entry for `y` is not replaced
    have hne : y ≠ x := by
      rintro rfl
      rw [hl] at h
      cases h
    rwa [firstWhile_of_unknown hx hb hl, Memo.lookup_keep, if_neg hne]
  | case4 busy x memo hx => rwa [firstWhile_of_terminal hx]

theorem lookup_scanString (xs : List Symbol) (memo : Memo) {y : Symbol} {set : SymbolSet}
    (h : memo.symbols.lookup y = some set) :
    (g.scanString xs memo).2.symbols.lookup y = some set := by
  induction xs generalizing memo with
  | nil => exact h
  | cons x xs ih =>
    have hx : (g.first x memo).2.symbols.lookup y = some set := lookup_firstWhile [] x memo h
    rw [scanString]
    split
    · exact ih _ hx
    · exact hx

theorem stable_retained (memo : Memo) : g.Stable memo.Retained where
  first x later h := by
    refine ⟨fun xs set hl => ?_, fun y set hl => lookup_firstWhile [] x later (h.symbols y set hl)⟩
    rw [first, strings_firstWhile]
    exact h.strings xs set hl
  string xs later h := by
    refine ⟨kept_extends memo xs later h.strings, fun y set hl => ?_⟩
    have hold := h.symbols y set hl
    unfold firstOfString
    cases later.strings.lookup xs with
    | some _ => exact hold
    | none => exact lookup_scanString xs later hold

/-! ## Answers and the last memo -/

theorem lookup_first (hx : g.isNonterminal x = true) (memo : Memo) :
    (g.first x memo).2.symbols.lookup x = some (g.first x memo).1 := by
  have hb : ¬ ([] : List Symbol).contains x = true := by simp
  rw [first]
  cases hl : memo.symbols.lookup x with
  | some set =>
    rw [firstWhile_of_known hx hb hl]
    exact hl
  | none =>
    rw [firstWhile_of_unknown hx hb hl]
    exact (Memo.lookup_keep _ _ _ _).trans (if_pos rfl)

theorem first_eq (h₁ : (g.first x m₁).2.Retained last) (h₂ : (g.first x m₂).2.Retained last) :
    (g.first x m₁).1 = (g.first x m₂).1 := by
  by_cases hx : g.isNonterminal x = true
  · have e₁ := h₁.symbols x _ (lookup_first hx m₁)
    have e₂ := h₂.symbols x _ (lookup_first hx m₂)
    exact Option.some.inj (e₁.symm.trans e₂)
  · rw [first, firstWhile_of_terminal hx, first, firstWhile_of_terminal hx]

/-- The same question has the same answer, if nothing of what the two answers left in the memo was
lost later. -/
theorem ask_eq (h₁ : (g.ask m₁ query).2.Retained last) (h₂ : (g.ask m₂ query).2.Retained last) :
    (g.ask m₁ query).1 = (g.ask m₂ query).1 := by
  cases query with
  | first x => exact congrArg Answer.symbols (first_eq h₁ h₂)
  | firstString xs =>
    have e₁ := firstOfString_eq h₁.agrees
    have e₂ := firstOfString_eq h₂.agrees
    exact congrArg Answer.symbols (e₁.trans e₂.symm)
  | closure items => exact congrArg Answer.items (closure_eq h₁.agrees h₂.agrees)
  | goto items x => exact congrArg Answer.items (goto_eq h₁.agrees h₂.agrees)
  | canonical => exact congrArg Answer.automaton (canonical_eq h₁.agrees h₂.agrees)

/-- Every answer of a session was given at some time, and nothing that was known then was lost. -/
theorem exists_asked (hP : g.Stable P) (h : P memo)
    (hq : (query, answer) ∈ (g.session queries memo).1) : ∃ m, P m ∧
      (g.ask m query).1 = answer ∧ (g.ask m query).2.Retained (g.session queries memo).2 := by
  induction queries generalizing memo with
  | nil => exact absurd hq List.not_mem_nil
  | cons first rest ih =>
    rcases List.mem_cons.1 hq with e | hq
    · obtain ⟨rfl, rfl⟩ := Prod.mk.inj e
      exact ⟨memo, h, rfl, (stable_retained _).session rest (.refl _)⟩
    · exact ih (hP.ask first h) hq

/-! ## One function for all answers -/

/-- Whether the answers to some questions are what one function says that FIRST of a string is. -/
structure Follows (g : Grammar) (F : List Symbol → SymbolSet) (answered : List (Query × Answer)) :
    Prop where
  string : ∀ {xs a}, (.firstString xs, a) ∈ answered → a = .symbols (F xs)
  closure : ∀ {items a}, (.closure items, a) ∈ answered →
    ∃ result, a = .items result ∧ g.IsClosure F items result
  goto : ∀ {items x a}, (.goto items x, a) ∈ answered →
    ∃ result, a = .items result ∧ g.IsClosure F (movedOver x items) result
  canonical : ∀ {a}, (.canonical, a) ∈ answered →
    ∃ automaton, a = .automaton automaton ∧ automaton.Canonical g F

/-- Whether the answers to some questions fit each other, wherever they stand among the answers. -/
structure Coherent (answered : List (Query × Answer)) : Prop where
  repeated : ∀ {q a a'}, (q, a) ∈ answered → (q, a') ∈ answered → a = a'
  closed : ∀ {items result a}, (.closure items, .items result) ∈ answered →
    (.closure result, a) ∈ answered → a = .items result
  closure_congr : ∀ {items items' result result'}, (∀ j, j ∈ items ↔ j ∈ items') →
    (.closure items, .items result) ∈ answered → (.closure items', .items result') ∈ answered →
    ∀ j, j ∈ result ↔ j ∈ result'
  goto_congr : ∀ {items items' x result result'}, (∀ j, j ∈ items ↔ j ∈ items') →
    (.goto items x, .items result) ∈ answered → (.goto items' x, .items result') ∈ answered →
    ∀ j, j ∈ result ↔ j ∈ result'
  union : ∀ {left right both resultLeft resultRight resultBoth},
    (∀ j, j ∈ both ↔ j ∈ left ∨ j ∈ right) → (.closure left, .items resultLeft) ∈ answered →
    (.closure right, .items resultRight) ∈ answered →
    (.closure both, .items resultBoth) ∈ answered →
    ∀ j, j ∈ resultBoth ↔ j ∈ resultLeft ∨ j ∈ resultRight

theorem follows_session (hm : memo.Credible g) (queries : List Query) :
    g.Follows (g.session queries memo).2.answers (g.session queries memo).1 := by
  constructor
  case string =>
    intro xs a hq
    obtain ⟨m, -, rfl, hlast⟩ := exists_asked stable_credible hm hq
    exact congrArg Answer.symbols (firstOfString_eq hlast.agrees)
  case closure =>
    intro items a hq
    obtain ⟨m, hcred, rfl, hlast⟩ := exists_asked stable_credible hm hq
    exact ⟨_, rfl, isClosure_closure hcred hlast.agrees⟩
  case goto =>
    intro items x a hq
    obtain ⟨m, hcred, rfl, hlast⟩ := exists_asked stable_credible hm hq
    exact ⟨_, rfl, isClosure_closure hcred hlast.agrees⟩
  case canonical =>
    intro a hq
    obtain ⟨m, hcred, rfl, hlast⟩ := exists_asked stable_credible hm hq
    exact ⟨_, rfl, canonical_automaton hcred hlast.agrees⟩

theorem InClosure.congr {seeds seeds' : List Item} (h : ∀ j, j ∈ seeds ↔ j ∈ seeds') {j : Item} :
    g.InClosure F seeds j ↔ g.InClosure F seeds' j :=
  exists_congr fun i => and_congr_left' (h i)

theorem inClosure_union {left right both : List Item}
    (h : ∀ j, j ∈ both ↔ j ∈ left ∨ j ∈ right) {j : Item} :
    g.InClosure F both j ↔ g.InClosure F left j ∨ g.InClosure F right j := by
  simp only [InClosure, h, or_and_right, exists_or]

theorem mem_movedOver_congr {items items' : List Item} (h : ∀ j, j ∈ items ↔ j ∈ items')
    (j : Item) :
    j ∈ movedOver x items ↔ j ∈ movedOver x items' := by
  simp only [mem_movedOver, h]

namespace Follows

variable {answered : List (Query × Answer)} {items result : List Item}

theorem isClosure (h : g.Follows F answered) (hq : (.closure items, .items result) ∈ answered) :
    g.IsClosure F items result := by
  obtain ⟨found, e, hc⟩ := h.closure hq
  cases e
  exact hc

theorem isClosure_movedOver (h : g.Follows F answered)
    (hq : (.goto items x, .items result) ∈ answered) :
    g.IsClosure F (movedOver x items) result := by
  obtain ⟨found, e, hc⟩ := h.goto hq
  cases e
  exact hc

theorem coherent (h : g.Follows F answered)
    (hr : ∀ {q a a'}, (q, a) ∈ answered → (q, a') ∈ answered → a = a') : Coherent answered := by
  constructor
  case repeated => exact hr
  case closed =>
    intro items result a hq hq'
    obtain ⟨again, rfl, hc⟩ := h.closure hq'
    rw [(h.isClosure hq).closed hc]
  case closure_congr =>
    intro items items' result result' hsame hq hq' j
    rw [(h.isClosure hq).mem, (h.isClosure hq').mem]
    exact InClosure.congr hsame
  case goto_congr =>
    intro items items' x result result' hsame hq hq' j
    rw [(h.isClosure_movedOver hq).mem, (h.isClosure_movedOver hq').mem]
    exact InClosure.congr (mem_movedOver_congr hsame)
  case union =>
    intro left right both resultLeft resultRight resultBoth hboth hl hr' hb j
    rw [(h.isClosure hb).mem, (h.isClosure hl).mem, (h.isClosure hr').mem]
    exact inClosure_union hboth

end Follows

/-- **One FIRST function for a whole session.**  For every grammar, either strategy and every
sequence of questions there is a function on symbol strings that gives FIRST of every string that
was asked for, and every closure, goto set and canonical automaton.  Therefore the answers fit each
other, whatever is asked between them: a question that is repeated has the identical answer, the
closure of a closure is that closure, closures and goto sets depend on the set of items only, and
the closure of a union is the union of the closures. -/
theorem session_follows_first (g : Grammar) (strategy : FirstStrategy) (queries : List Query) :
    (∃ F, g.Follows F (g.session queries (g.openMemo strategy)).1) ∧
      Coherent (g.session queries (g.openMemo strategy)).1 := by
  have credible : (g.openMemo strategy).Credible g := credible_openMemo strategy
  have follows := follows_session credible queries
  refine ⟨⟨_, follows⟩, follows.coherent fun hq hq' => ?_⟩
  obtain ⟨m₁, -, rfl, h₁⟩ := exists_asked stable_credible credible hq
  obtain ⟨m₂, -, rfl, h₂⟩ := exists_asked stable_credible credible hq'
  exact ask_eq h₁ h₂

/-- Which function it is depends on the order: asked after `A`, the guarded FIRST of `B` lacks what
it has by way of `A`, whose expansion was under way. -/
example :
    let g : Grammar := ⟨[("A", [["B", "x"], ["a"]]), ("B", [["A", "y"], ["b"]])], "A", by decide⟩
    let setB : List String → Answer := fun xs => .symbols (.ofList xs)
    (g.session [.first "B"] (g.openMemo .guarded)).1 = [(.first "B", setB ["a", "b"])] ∧
      (g.session [.first "A", .first "B"] (g.openMemo .guarded)).1 =
        [(.first "A", setB ["a", "b"]), (.first "B", setB ["b"])] := by
  decide +kernel

end Grammar

end CanonicalLR
