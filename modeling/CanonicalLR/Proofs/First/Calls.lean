import CanonicalLR.Proofs.First.Exact
import CanonicalLR.Proofs.First.Guarded

/-!
# Calls of the guarded strategy

The functions on memos pass along which symbols are being expanded.  A calculator marks them in a
store of its own instead, and takes the mark off when the expansion ends.  `Expands` is what one
call does to that store, step by step.  It is what the functions compute, and it leaves the marks as
they were (`expands_iff`), so between two calls nothing is marked (`calls_iff`).

`LeftHead` is what first symbols lead to, said without the calculator.  No answer exceeds it
(`led_firstWhile`).  An expansion with nothing known beforehand gives all of it, though it keeps
sets on its way that lack something: every nonterminal that is reached is expanded exactly once, and
what its own alternatives begin with is handed up to the first call (`Explored`).  Where no two
symbols are mutually left-recursive, every answer is all of it.
-/

namespace CanonicalLR

/-- The store of a calculator: the symbols that are being expanded, and what is known. -/
structure Calculator where
  marked : List Symbol
  memo : Memo
deriving DecidableEq

namespace Calculator

/-- Marks a symbol. -/
def mark (c : Calculator) (x : Symbol) : Calculator := { c with marked := x :: c.marked }

/-- Takes the mark off a symbol. -/
def unmark (c : Calculator) (x : Symbol) : Calculator := { c with marked := c.marked.erase x }

/-- Keeps the set of a nonterminal. -/
def keep (c : Calculator) (x : Symbol) (set : SymbolSet) : Calculator :=
  { c with memo := c.memo.keep x set }

/-- Keeps the set of a symbol string. -/
def keepString (c : Calculator) (xs : List Symbol) (set : SymbolSet) : Calculator :=
  { c with memo := c.memo.keepString xs set }

end Calculator

namespace Memo

/-- Whether the set of a nonterminal is known. -/
def Knows (memo : Memo) (x : Symbol) : Prop := (memo.symbols.lookup x).isSome = true

/-- Every set that is known holds only what first symbols lead to. -/
def Led (g : Grammar) (memo : Memo) : Prop :=
  ∀ x set, memo.symbols.lookup x = some set → ∀ t ∈ set, g.HeadOf x t

variable {memo : Memo} {x y : Symbol} {set : SymbolSet}

theorem knows_keep : (memo.keep x set).Knows y ↔ y = x ∨ memo.Knows y := by
  unfold Knows
  rw [lookup_keep]
  by_cases h : y = x <;> simp [h]

theorem knows_keep_self : (memo.keep x set).Knows x := knows_keep.2 (.inl rfl)

theorem Knows.keep (h : memo.Knows y) (x : Symbol) (set : SymbolSet) :
    (memo.keep x set).Knows y := knows_keep.2 (.inr h)

end Memo

/-- Whether a question is one about FIRST, of a symbol or of a string. -/
def Query.AsksFirst : Query → Prop
  | .first _ | .firstString _ => True
  | .closure _ | .goto _ _ | .canonical => False

instance : (query : Query) → Decidable query.AsksFirst
  | .first _ | .firstString _ => .isTrue trivial
  | .closure _ | .goto _ _ | .canonical => .isFalse id

namespace Grammar

/-! ## What a call does -/

mutual

/-- A call for one symbol. -/
inductive Expands (g : Grammar) : Calculator → Symbol → SymbolSet → Calculator → Prop
  | terminal {c : Calculator} {x : Symbol} (hx : g.isNonterminal x = false) :
      Expands g c x (.singleton x) c
  | busy {c : Calculator} {x : Symbol} (hx : g.isNonterminal x = true) (hm : x ∈ c.marked) :
      Expands g c x ∅ c
  | known {c : Calculator} {x : Symbol} {set : SymbolSet} (hx : g.isNonterminal x = true)
      (hm : x ∉ c.marked) (hl : c.memo.symbols.lookup x = some set) : Expands g c x set c
  | visit {c c' : Calculator} {x : Symbol} {set : SymbolSet} (hx : g.isNonterminal x = true)
      (hm : x ∉ c.marked) (hl : c.memo.symbols.lookup x = none)
      (h : Visits g (c.mark x) (g.alternatives x) ∅ set c') :
      Expands g c x set ((c'.unmark x).keep x set)

/-- The visit of some alternatives, which add to a set. -/
inductive Visits (g : Grammar) :
    Calculator → List (List Symbol) → SymbolSet → SymbolSet → Calculator → Prop
  | done {c : Calculator} {set : SymbolSet} : Visits g c [] set set c
  | empty {c c' : Calculator} {bodies : List (List Symbol)} {set last : SymbolSet}
      (h : Visits g c bodies (set.insert epsilon) last c') : Visits g c ([] :: bodies) set last c'
  | first {c c' c'' : Calculator} {y : Symbol} {rest : List Symbol} {bodies : List (List Symbol)}
      {set found last : SymbolSet} (h : Expands g c y found c')
      (hrest : Visits g c' bodies (set ∪ found) last c'') :
      Visits g c ((y :: rest) :: bodies) set last c''

end

/-- A scan of a symbol string. -/
inductive Scans (g : Grammar) : Calculator → List Symbol → SymbolSet → Calculator → Prop
  | done {c : Calculator} : Scans g c [] (.singleton epsilon) c
  | stop {c c' : Calculator} {x : Symbol} {rest : List Symbol} {set : SymbolSet}
      (h : g.Expands c x set c') (he : epsilon ∉ set) : Scans g c (x :: rest) set c'
  | next {c c' c'' : Calculator} {x : Symbol} {rest : List Symbol} {set more : SymbolSet}
      (h : g.Expands c x set c') (he : epsilon ∈ set) (hrest : Scans g c' rest more c'') :
      Scans g c (x :: rest) (set.erase epsilon ∪ more) c''

/-- A call for a symbol or for a string. -/
inductive Call (g : Grammar) : Calculator → Query → Answer → Calculator → Prop
  | symbol {c c' : Calculator} {x : Symbol} {set : SymbolSet} (h : g.Expands c x set c') :
      Call g c (.first x) (.symbols set) c'
  | known {c : Calculator} {xs : List Symbol} {set : SymbolSet}
      (hl : c.memo.strings.lookup xs = some set) : Call g c (.firstString xs) (.symbols set) c
  | scan {c c' : Calculator} {xs : List Symbol} {set : SymbolSet}
      (hl : c.memo.strings.lookup xs = none) (h : g.Scans c xs set c') :
      Call g c (.firstString xs) (.symbols set) (c'.keepString xs set)

/-- Calls one after the other, each with its answer. -/
inductive Calls (g : Grammar) :
    Calculator → List Query → List (Query × Answer) → Calculator → Prop
  | done {c : Calculator} : Calls g c [] [] c
  | next {c c' c'' : Calculator} {query : Query} {rest : List Query} {answer : Answer}
      {others : List (Query × Answer)} (h : g.Call c query answer c')
      (hrest : Calls g c' rest others c'') :
      Calls g c (query :: rest) ((query, answer) :: others) c''

variable {g : Grammar}

mutual

theorem Expands.eq {c c' : Calculator} {x : Symbol} {set : SymbolSet} (h : g.Expands c x set c') :
    set = (g.firstWhile c.marked x c.memo).1 ∧
      c' = ⟨c.marked, (g.firstWhile c.marked x c.memo).2⟩ := by
  match h with
  | .terminal hx =>
    rw [firstWhile_of_terminal (Bool.eq_false_iff.1 hx)]
    exact ⟨rfl, rfl⟩
  | .busy hx hm =>
    rw [firstWhile_of_busy hx (List.contains_iff_mem.2 hm)]
    exact ⟨rfl, rfl⟩
  | .known hx hm hl =>
    have hb : ¬ c.marked.contains x = true := fun h => hm (List.contains_iff_mem.1 h)
    rw [firstWhile_of_known hx hb hl]
    exact ⟨rfl, rfl⟩
  | .visit hx hm hl hv =>
    have hb : ¬ c.marked.contains x = true := fun h => hm (List.contains_iff_mem.1 h)
    obtain ⟨hset, hc⟩ := Visits.eq hv
    rw [hset, hc, firstWhile_of_unknown hx hb hl]
    simp [Calculator.unmark, Calculator.keep, Calculator.mark, visitBodies]

theorem Visits.eq {c c' : Calculator} {bodies : List (List Symbol)} {set last : SymbolSet}
    (h : g.Visits c bodies set last c') :
    last = (bodies.foldl (g.visitBody c.marked) (set, c.memo)).1 ∧
      c' = ⟨c.marked, (bodies.foldl (g.visitBody c.marked) (set, c.memo)).2⟩ := by
  match h with
  | .done => exact ⟨rfl, rfl⟩
  | .empty hv =>
    have hrest := Visits.eq hv
    exact hrest
  | .first he hv =>
    obtain ⟨hset, hc⟩ := Expands.eq he
    have hrest := Visits.eq hv
    rw [hset, hc] at hrest
    exact hrest

end

variable {x : Symbol} {xs busy : List Symbol} {memo : Memo} {c c' : Calculator} {set : SymbolSet}

theorem visits_foldl (ask : ∀ y m, g.Expands ⟨busy, m⟩ y (g.firstWhile busy y m).1
      ⟨busy, (g.firstWhile busy y m).2⟩) (bodies : List (List Symbol)) (acc : SymbolSet × Memo) :
    g.Visits ⟨busy, acc.2⟩ bodies acc.1 (bodies.foldl (g.visitBody busy) acc).1
      ⟨busy, (bodies.foldl (g.visitBody busy) acc).2⟩ := by
  induction bodies generalizing acc with
  | nil => exact .done
  | cons rhs bodies ih =>
    have rest := ih (g.visitBody busy acc rhs)
    cases rhs with
    | nil => exact .empty rest
    | cons y _ => exact .first (ask y acc.2) rest

theorem expands_firstWhile (busy : List Symbol) (x : Symbol) (memo : Memo) :
    g.Expands ⟨busy, memo⟩ x (g.firstWhile busy x memo).1
      ⟨busy, (g.firstWhile busy x memo).2⟩ := by
  induction busy, x, memo using firstWhile.induct g with
  | case1 busy x memo hx hb =>
    rw [firstWhile_of_busy hx hb]
    exact .busy hx (List.contains_iff_mem.1 hb)
  | case2 busy x memo hx hb set hl =>
    rw [firstWhile_of_known hx hb hl]
    exact .known hx (fun h => hb (List.contains_iff_mem.2 h)) hl
  | case3 busy x memo hx hb hl ih =>
    have visited := visits_foldl (fun y m => ih (∅, m) y) (g.alternatives x) (∅, memo)
    have hlast := Expands.visit (c := ⟨busy, memo⟩) hx (fun h => hb (List.contains_iff_mem.2 h)) hl
      visited
    rw [firstWhile_of_unknown hx hb hl]
    simpa [Calculator.unmark, Calculator.keep, visitBodies] using hlast
  | case4 busy x memo hx =>
    rw [firstWhile_of_terminal hx]
    exact .terminal (Bool.eq_false_iff.2 hx)

/-- **A call ends in exactly one way, and leaves the marks as they were.** -/
theorem expands_iff : g.Expands c x set c' ↔ set = (g.firstWhile c.marked x c.memo).1 ∧
    c' = ⟨c.marked, (g.firstWhile c.marked x c.memo).2⟩ := by
  refine ⟨Expands.eq, ?_⟩
  rintro ⟨rfl, rfl⟩
  exact expands_firstWhile c.marked x c.memo

theorem scans_iff : g.Scans ⟨[], memo⟩ xs set c ↔ set = (g.scanString xs memo).1 ∧
    c = ⟨[], (g.scanString xs memo).2⟩ := by
  constructor
  · intro h
    generalize hc : (⟨[], memo⟩ : Calculator) = start at h
    induction h generalizing memo with
    | done =>
      subst hc
      exact ⟨rfl, rfl⟩
    | stop h he =>
      subst hc
      obtain ⟨rfl, rfl⟩ := expands_iff.1 h
      rw [scanString, first]
      exact ⟨by rw [if_neg he], by rw [if_neg he]⟩
    | next h he _ ih =>
      subst hc
      obtain ⟨rfl, rfl⟩ := expands_iff.1 h
      obtain ⟨rfl, rfl⟩ := ih rfl
      rw [scanString, first]
      exact ⟨by rw [if_pos he], by rw [if_pos he]⟩
  · rintro ⟨rfl, rfl⟩
    induction xs generalizing memo with
    | nil => exact .done
    | cons x xs ih =>
      have head : g.Expands ⟨[], memo⟩ x (g.first x memo).1 ⟨[], (g.first x memo).2⟩ :=
        expands_firstWhile [] x memo
      rw [scanString]
      split
      · next he => exact .next head he ih
      · next he => exact .stop head he

theorem call_iff {query : Query} {answer : Answer} (hq : query.AsksFirst) :
    g.Call ⟨[], memo⟩ query answer c ↔
      answer = (g.ask memo query).1 ∧ c = ⟨[], (g.ask memo query).2⟩ := by
  constructor
  · intro h
    cases h with
    | symbol h =>
      obtain ⟨rfl, rfl⟩ := expands_iff.1 h
      exact ⟨rfl, rfl⟩
    | known hl =>
      simp only [ask, firstOfString, hl]
      exact ⟨rfl, rfl⟩
    | scan hl h =>
      obtain ⟨rfl, rfl⟩ := scans_iff.1 h
      simp only [ask, firstOfString, hl]
      exact ⟨rfl, rfl⟩
  · rintro ⟨rfl, rfl⟩
    cases query with
    | first x => exact .symbol (expands_firstWhile [] x memo)
    | firstString xs =>
      simp only [ask, firstOfString]
      cases hl : memo.strings.lookup xs with
      | some set => exact .known hl
      | none => exact .scan hl (scans_iff.2 ⟨rfl, rfl⟩)
    | closure | goto | canonical => exact hq.elim

theorem calls_iff {queries : List Query} {answered : List (Query × Answer)}
    (hq : ∀ query ∈ queries, query.AsksFirst) : g.Calls ⟨[], memo⟩ queries answered c ↔
      answered = (g.session queries memo).1 ∧ c = ⟨[], (g.session queries memo).2⟩ := by
  induction queries generalizing memo answered with
  | nil =>
    constructor
    · intro h
      cases h
      exact ⟨rfl, rfl⟩
    · rintro ⟨rfl, rfl⟩
      exact .done
  | cons query rest ih =>
    have hfirst := hq query List.mem_cons_self
    have hrest := fun q h => hq q (List.mem_cons_of_mem _ h)
    constructor
    · intro h
      cases h with
      | next h h' =>
        obtain ⟨rfl, rfl⟩ := (call_iff hfirst).1 h
        obtain ⟨rfl, rfl⟩ := (ih hrest).1 h'
        exact ⟨rfl, rfl⟩
    · rintro ⟨rfl, rfl⟩
      exact .next ((call_iff hfirst).2 ⟨rfl, rfl⟩) ((ih hrest).2 ⟨rfl, rfl⟩)

/-! ## What first symbols lead to -/

/-- What the alternatives of a nonterminal itself begin with. -/
def DirectHead (g : Grammar) (M t : Symbol) : Prop :=
  (g.isNonterminal t = false ∧ ∃ rest, (M, t :: rest) ∈ g.productions.pairs) ∨
    (t = epsilon ∧ (M, []) ∈ g.productions.pairs)

/-- What the nonterminals begin with that a chain of first symbols leads to.  All symbols of such a
chain are nonterminals, since there is an alternative of the last one and a step from the others. -/
def LeftHead (g : Grammar) (N t : Symbol) : Prop := ∃ M, g.LeftReaches N M ∧ g.DirectHead M t

variable {y t A B : Symbol} {m₁ m₂ m₃ : Memo} {rhs : List Symbol} {set₁ set₂ set₃ : SymbolSet}

theorem headOf_iff_leftHead (hA : g.isNonterminal A = true) : g.HeadOf A t ↔ g.LeftHead A t := by
  constructor
  · intro h
    induction h with
    | self hx =>
      rw [hA] at hx
      cases hx
    | @empty A h => exact ⟨A, .refl, .inr ⟨rfl, h⟩⟩
    | @first A y t rest h hy ih =>
      cases hn : g.isNonterminal y with
      | true =>
        obtain ⟨M, hreach, hdirect⟩ := ih hn
        exact ⟨M, hreach.head ⟨rest, h⟩, hdirect⟩
      | false =>
        obtain rfl := (headOf_of_not_isNonterminal hn).1 hy
        exact ⟨A, .refl, .inl ⟨hn, rest, h⟩⟩
  · rintro ⟨M, hreach, hdirect⟩
    induction hreach using Relation.ReflTransGen.head_induction_on with
    | refl =>
      rcases hdirect with ⟨hn, rest, h⟩ | ⟨rfl, h⟩
      · exact .first h (.self hn)
      · exact .empty h
    | head step reach ih =>
      obtain ⟨rest, h⟩ := step
      refine .first h (ih ?_)
      -- what leads on has an alternative, and so has the last symbol
      rcases reach.cases_head with rfl | ⟨_, ⟨_, h'⟩, _⟩
      · rcases hdirect with ⟨_, _, h'⟩ | ⟨_, h'⟩ <;> exact isNonterminal_of_mem h'
      · exact isNonterminal_of_mem h'

/-- FIRST has every symbol that first symbols lead to, though perhaps not `ε`. -/
theorem HeadOf.mem_firstOf (h : g.HeadOf x t) (ht : t ≠ epsilon) : t ∈ g.firstOf [x] := by
  rw [firstOf, mem_firstUnder_singleton]
  induction h with
  | self hx =>
    rw [look_of_not_isNonterminal firstStage_solveFirst.keys hx]
    exact SymbolSet.mem_singleton.2 rfl
  | empty => exact absurd rfl ht
  | first h _ ih =>
    exact (mem_solveFirst_iff (isNonterminal_of_mem h)).2
      ⟨_, h, mem_firstUnder_cons.2 (.inl ⟨ih ht, ht⟩)⟩

/-- Nothing else is ever answered. -/
theorem led_firstWhile (busy : List Symbol) (x : Symbol) (memo : Memo) (h : memo.Led g) :
    (g.firstWhile busy x memo).2.Led g ∧ ∀ t ∈ (g.firstWhile busy x memo).1, g.HeadOf x t := by
  induction busy, x, memo using firstWhile.induct g with
  | case1 busy x memo hx hb =>
    rw [firstWhile_of_busy hx hb]
    exact ⟨h, fun t ht => absurd ht SymbolSet.not_mem_empty⟩
  | case2 busy x memo hx hb set hl =>
    rw [firstWhile_of_known hx hb hl]
    exact ⟨h, h x set hl⟩
  | case3 busy x memo hx hb hl ih =>
    have visited : (g.visitBodies (x :: busy) x memo).2.Led g ∧
        ∀ t ∈ (g.visitBodies (x :: busy) x memo).1, g.HeadOf x t := by
      refine visitBodies_induction (P := fun acc => acc.2.Led g ∧ ∀ t ∈ acc.1, g.HeadOf x t)
        ⟨h, fun t ht => absurd ht SymbolSet.not_mem_empty⟩ ?_
      rintro acc rhs ⟨hm, hs⟩ hr
      cases rhs with
      | nil =>
        refine ⟨hm, fun t ht => ?_⟩
        rcases SymbolSet.mem_insert.1 ht with rfl | ht
        · exact .empty (mem_alternatives.1 hr)
        · exact hs t ht
      | cons y rest =>
        obtain ⟨hm', hy⟩ := ih acc y hm
        refine ⟨hm', fun t ht => ?_⟩
        rcases SymbolSet.mem_union.1 ht with ht | ht
        · exact hs t ht
        · exact .first (mem_alternatives.1 hr) (hy t ht)
    rw [firstWhile_of_unknown hx hb hl]
    refine ⟨fun z set hz => ?_, visited.2⟩
    rw [Memo.lookup_keep] at hz
    split at hz
    · next e =>
      cases hz
      exact e ▸ visited.2
    · exact visited.1 z set hz
  | case4 busy x memo hx =>
    rw [firstWhile_of_terminal hx]
    refine ⟨h, fun t ht => ?_⟩
    obtain rfl := SymbolSet.mem_singleton.1 ht
    exact .self (Bool.eq_false_iff.2 hx)

/-! ## The first expansion -/

/-- What has become known from one memo to another, with what was found meanwhile: the set has what
the alternatives of the new nonterminals begin with, and nonterminals that begin one of them are
known as well or under way. -/
structure Explored (g : Grammar) (busy : List Symbol) (memo later : Memo) (found : SymbolSet) :
    Prop where
  keeps : ∀ y, memo.Knows y → later.Knows y
  heads : ∀ y, ¬ memo.Knows y → later.Knows y → ∀ t, g.DirectHead y t → t ∈ found
  steps : ∀ y, ¬ memo.Knows y → later.Knows y → ∀ z, g.LeftStep y z → g.isNonterminal z = true →
    z ∈ busy ∨ later.Knows z

/-- What the visit of an alternative ensures. -/
def Visited (g : Grammar) (busy : List Symbol) (later : Memo) (found : SymbolSet) :
    List Symbol → Prop
  | [] => epsilon ∈ found
  | y :: _ => if g.isNonterminal y then y ∈ busy ∨ later.Knows y else y ∈ found

namespace Explored

theorem refl (memo : Memo) (found : SymbolSet) : g.Explored busy memo memo found where
  keeps _ h := h
  heads _ h h' := absurd h' h
  steps _ h h' := absurd h' h

theorem trans (h : g.Explored busy m₁ m₂ set₁) (h' : g.Explored busy m₂ m₃ set₂)
    (hsub : ∀ t ∈ set₁, t ∈ set₃) (hsub' : ∀ t ∈ set₂, t ∈ set₃) :
    g.Explored busy m₁ m₃ set₃ where
  keeps y hy := h'.keeps y (h.keeps y hy)
  heads y hy hy' t ht := by
    by_cases hmid : m₂.Knows y
    · exact hsub t (h.heads y hy hmid t ht)
    · exact hsub' t (h'.heads y hmid hy' t ht)
  steps y hy hy' z hz hn := by
    by_cases hmid : m₂.Knows y
    · exact (h.steps y hy hmid z hz hn).imp_right (h'.keeps z)
    · exact h'.steps y hmid hy' z hz hn

end Explored

theorem Visited.mono (h : g.Visited busy m₁ set₁ rhs) (hkeeps : ∀ y, m₁.Knows y → m₂.Knows y)
    (hsub : ∀ t ∈ set₁, t ∈ set₂) : g.Visited busy m₂ set₂ rhs := by
  cases rhs with
  | nil => exact hsub _ h
  | cons y rest =>
    by_cases hn : g.isNonterminal y = true
    · rw [Visited, if_pos hn] at h ⊢
      exact h.imp_right (hkeeps y)
    · rw [Visited, if_neg hn] at h ⊢
      exact hsub y h

/-- A visit of some alternatives, each of whose first symbols is explored. -/
theorem explored_visit (ask : ∀ y m, g.Explored busy m (g.firstWhile busy y m).2
      (g.firstWhile busy y m).1 ∧
      g.Visited busy (g.firstWhile busy y m).2 (g.firstWhile busy y m).1 [y])
    (bodies : List (List Symbol)) (acc : SymbolSet × Memo) :
    g.Explored busy acc.2 (bodies.foldl (g.visitBody busy) acc).2
        (bodies.foldl (g.visitBody busy) acc).1 ∧
      (∀ t ∈ acc.1, t ∈ (bodies.foldl (g.visitBody busy) acc).1) ∧
      ∀ rhs ∈ bodies, g.Visited busy (bodies.foldl (g.visitBody busy) acc).2
        (bodies.foldl (g.visitBody busy) acc).1 rhs := by
  induction bodies generalizing acc with
  | nil => exact ⟨.refl _ _, fun _ ht => ht, by simp⟩
  | cons rhs bodies ih =>
    have body : g.Explored busy acc.2 (g.visitBody busy acc rhs).2 (g.visitBody busy acc rhs).1 ∧
        (∀ t ∈ acc.1, t ∈ (g.visitBody busy acc rhs).1) ∧
        g.Visited busy (g.visitBody busy acc rhs).2 (g.visitBody busy acc rhs).1 rhs := by
      cases rhs with
      | nil =>
        exact ⟨.refl _ _, fun t ht => SymbolSet.mem_insert.2 (.inr ht),
          SymbolSet.mem_insert.2 (.inl rfl)⟩
      | cons y rest =>
        obtain ⟨hy, hvisited⟩ := ask y acc.2
        have hsub : ∀ t ∈ (g.firstWhile busy y acc.2).1,
            t ∈ acc.1 ∪ (g.firstWhile busy y acc.2).1 := fun t ht => SymbolSet.mem_union.2 (.inr ht)
        exact ⟨hy.trans (.refl _ ∅) hsub (fun t ht => absurd ht SymbolSet.not_mem_empty),
          fun t ht => SymbolSet.mem_union.2 (.inl ht), hvisited.mono (fun _ h => h) hsub⟩
    obtain ⟨hfirst, hsub, hvisited⟩ := body
    obtain ⟨hrest, hsub', hall⟩ := ih (g.visitBody busy acc rhs)
    refine ⟨hfirst.trans hrest hsub' fun _ ht => ht, fun t ht => hsub' t (hsub t ht), ?_⟩
    intro rhs' hr
    rcases List.mem_cons.1 hr with rfl | hr
    · exact hvisited.mono hrest.keeps hsub'
    · exact hall rhs' hr

/-- **An expansion hands up what it finds.**  Whatever is kept on the way, the alternatives of every
nonterminal that becomes known have been visited, and the answer has what they begin with. -/
theorem explored_firstWhile (busy : List Symbol) (x : Symbol) (memo : Memo) :
    g.Explored busy memo (g.firstWhile busy x memo).2 (g.firstWhile busy x memo).1 ∧
      g.Visited busy (g.firstWhile busy x memo).2 (g.firstWhile busy x memo).1 [x] := by
  induction busy, x, memo using firstWhile.induct g with
  | case1 busy x memo hx hb =>
    rw [firstWhile_of_busy hx hb]
    refine ⟨.refl _ _, ?_⟩
    rw [Visited, if_pos hx]
    exact .inl (List.contains_iff_mem.1 hb)
  | case2 busy x memo hx hb set hl =>
    rw [firstWhile_of_known hx hb hl]
    refine ⟨.refl _ _, ?_⟩
    rw [Visited, if_pos hx]
    exact .inr (by simp [Memo.Knows, hl])
  | case3 busy x memo hx hb hl ih =>
    obtain ⟨hinner, -, hvisited⟩ := explored_visit (fun y m => ih (∅, m) y) (g.alternatives x)
      (∅, memo)
    rw [firstWhile_of_unknown hx hb hl]
    change g.Explored (x :: busy) memo (g.visitBodies (x :: busy) x memo).2
      (g.visitBodies (x :: busy) x memo).1 at hinner
    change ∀ rhs ∈ _, g.Visited (x :: busy) (g.visitBodies (x :: busy) x memo).2
      (g.visitBodies (x :: busy) x memo).1 rhs at hvisited
    generalize g.visitBodies (x :: busy) x memo = found at hinner hvisited ⊢
    -- what was under way inside is under way outside, or it is `x` and now known
    have outside : ∀ z, z ∈ x :: busy ∨ found.2.Knows z →
        z ∈ busy ∨ (found.2.keep x found.1).Knows z := by
      rintro z (hz | hz)
      · rcases List.mem_cons.1 hz with rfl | hz
        · exact .inr Memo.knows_keep_self
        · exact .inl hz
      · exact .inr (hz.keep x found.1)
    refine ⟨⟨fun y hy => (hinner.keeps y hy).keep x found.1, fun y hy hy' t ht => ?_,
      fun y hy hy' z hz hn => ?_⟩, ?_⟩
    · rcases Memo.knows_keep.1 hy' with rfl | hy'
      · rcases ht with ⟨hn, rest, hr⟩ | ⟨rfl, hr⟩
        · have := hvisited _ (mem_alternatives.2 hr)
          rwa [Visited, if_neg (by simp [hn])] at this
        · exact hvisited _ (mem_alternatives.2 hr)
      · exact hinner.heads y hy hy' t ht
    · refine outside z ?_
      rcases Memo.knows_keep.1 hy' with rfl | hy'
      · obtain ⟨rest, hr⟩ := hz
        have := hvisited _ (mem_alternatives.2 hr)
        rwa [Visited, if_pos hn] at this
      · exact hinner.steps y hy hy' z hz hn
    · rw [Visited, if_pos hx]
      exact .inr Memo.knows_keep_self
  | case4 busy x memo hx =>
    rw [firstWhile_of_terminal hx]
    refine ⟨.refl _ _, ?_⟩
    rw [Visited, if_neg hx]
    exact SymbolSet.mem_singleton.2 rfl

/-- The first answer has all that first symbols lead to. -/
theorem mem_first_of_leftHead (hA : g.isNonterminal A = true) (h : g.LeftHead A t) :
    t ∈ (g.first A .blank).1 := by
  obtain ⟨hall, hvisited⟩ := explored_firstWhile (g := g) [] A .blank
  rw [Visited, if_pos hA] at hvisited
  have fresh : ∀ y, ¬ Memo.blank.Knows y := by
    intro y hy
    cases hy
  obtain ⟨M, hreach, hdirect⟩ := h
  have hM : g.isNonterminal M = true := by
    rcases hdirect with ⟨_, _, h⟩ | ⟨_, h⟩ <;> exact isNonterminal_of_mem h
  have known : g.isNonterminal M = true → (g.first A .blank).2.Knows M := by
    clear hdirect hM
    induction hreach with
    | refl => exact fun _ => hvisited.resolve_left List.not_mem_nil
    | @tail M M' _ step ih =>
      obtain ⟨rest, hr⟩ := step
      have hM := ih (isNonterminal_of_mem hr)
      exact fun hn => (hall.steps M (fresh M) hM M' ⟨rest, hr⟩ hn).resolve_left List.not_mem_nil
  exact hall.heads M (fresh M) (known hM) t hdirect

/-! ## Answers after any calls -/

/-- What no call for a symbol destroys, if it does not depend on the strings that are known. -/
theorem stable_of_first {P : Memo → Prop} (first : ∀ x memo, P memo → P (g.first x memo).2)
    (string : ∀ xs set memo, P memo → P (memo.keepString xs set)) : g.Stable P where
  first := first
  string xs memo h := by
    have scanned : P (g.scanString xs memo).2 := by
      induction xs generalizing memo with
      | nil => exact h
      | cons x xs ih =>
        rw [scanString]
        split
        · exact ih _ (first x memo h)
        · exact first x memo h
    unfold firstOfString
    cases memo.strings.lookup xs with
    | some _ => exact h
    | none => exact string _ _ _ scanned

theorem stable_led : g.Stable (Memo.Led g) :=
  stable_of_first (fun x memo h => (led_firstWhile [] x memo h).1) fun _ _ _ h => h

theorem stable_heads (apart : g.LeftApart) : g.Stable (Memo.Heads g) :=
  stable_of_first (fun x memo h => (heads_firstWhile apart [] x memo h (by simp)).1)
    fun _ _ _ h => h

variable {queries : List Query}

/-- A call for a symbol has one answer, wherever it stands among the calls. -/
theorem exists_set_of_answer {strategy : FirstStrategy} {a : Answer}
    (ha : (.first x, a) ∈ (g.session queries (g.openMemo strategy)).1) :
    ∃ set, a = .symbols set ∧
      ∀ a', (.first x, a') ∈ (g.session queries (g.openMemo strategy)).1 → a' = .symbols set := by
  have credible : (g.openMemo strategy).Credible g := credible_openMemo strategy
  obtain ⟨m, -, rfl, h⟩ := exists_asked stable_credible credible ha
  refine ⟨(g.first x m).1, rfl, fun a' ha' => ?_⟩
  obtain ⟨m', -, rfl, h'⟩ := exists_asked stable_credible credible ha'
  exact ask_eq h' h

end Grammar

/-- **What the guarded strategy computes.**  Take any calls for FIRST of symbols and of strings, on
a calculator that knows nothing.  They end, in exactly one way and with nothing marked.  FIRST of a
nonterminal is answered with the same set every time.  The set has nothing but what first symbols
lead to; it has all of that if the call is the first one, and also after any other calls if no two
symbols are mutually left-recursive.  Apart from `ε` the fixed point strategy answers with at least
as much. -/
theorem Grammar.guarded_answers (g : Grammar) {queries : List Query}
    (hq : ∀ query ∈ queries, query.AsksFirst) :
    (∃ answered last, g.Calls ⟨[], g.openMemo .guarded⟩ queries answered last) ∧
    ∀ {answered : List (Query × Answer)} {last : Calculator},
      g.Calls ⟨[], g.openMemo .guarded⟩ queries answered last →
        answered = (g.session queries (g.openMemo .guarded)).1 ∧
        last = ⟨[], (g.session queries (g.openMemo .guarded)).2⟩ ∧
        ∀ N a, g.isNonterminal N = true → (.first N, a) ∈ answered → ∃ set, a = .symbols set ∧
          (∀ a', (.first N, a') ∈ answered → a' = .symbols set) ∧
          (∀ t ∈ set, g.LeftHead N t) ∧
          (answered.head? = some (.first N, a) → ∀ t, t ∈ set ↔ g.LeftHead N t) ∧
          (g.LeftApart → ∀ t, t ∈ set ↔ g.LeftHead N t) ∧
          ∀ queries', ∀ t ∈ set, t ≠ epsilon → t ∈ g.firstSymbolAfter queries' N := by
  refine ⟨⟨_, _, (calls_iff hq).2 ⟨rfl, rfl⟩⟩, fun {answered last} hcalls => ?_⟩
  obtain ⟨rfl, rfl⟩ := (calls_iff hq).1 hcalls
  refine ⟨rfl, rfl, fun N a hN ha => ?_⟩
  obtain ⟨set, rfl, hsame⟩ := exists_set_of_answer ha
  have led : ∀ t ∈ set, g.HeadOf N t := by
    have blank : (g.openMemo .guarded).Led g := fun _ _ hl => nomatch hl
    obtain ⟨m, hm, e, -⟩ := exists_asked stable_led blank ha
    obtain rfl : (g.first N m).1 = set := Answer.symbols.inj e
    exact (led_firstWhile [] N m hm).2
  refine ⟨set, rfl, hsame, fun t ht => (headOf_iff_leftHead hN).1 (led t ht), ?_, ?_, ?_⟩
  · intro hfirst t
    refine ⟨fun ht => (headOf_iff_leftHead hN).1 (led t ht), fun ht => ?_⟩
    cases queries with
    | nil => cases hfirst
    | cons query rest =>
      obtain ⟨rfl, e⟩ := Prod.mk.inj (Option.some.inj hfirst)
      obtain rfl : (g.first N (g.openMemo .guarded)).1 = set := Answer.symbols.inj e
      exact mem_first_of_leftHead hN ht
  · intro apart t
    have blank : (g.openMemo .guarded).Heads g := fun _ _ hl => nomatch hl
    obtain ⟨m, hm, e, -⟩ := exists_asked (stable_heads apart) blank ha
    obtain rfl : (g.first N m).1 = set := Answer.symbols.inj e
    rw [← headOf_iff_leftHead hN]
    exact (heads_firstWhile apart [] N m hm (by simp)).2 List.not_mem_nil t
  · intro queries' t ht hne
    rw [mem_firstSymbolAfter]
    exact (led t ht).mem_firstOf hne

/-- Two nonterminals that lead to each other.  FIRST of `A` is complete, since it is asked for
first; FIRST of `B` lacks `a`, which it has only by way of `A`. -/
theorem Grammar.guarded_answers_mutual :
    let g : Grammar := ⟨[("A", [["B", "x"], ["a"]]), ("B", [["A", "y"], ["b"]])], "A", by decide⟩
    let queries : List Query := [.first "A", .firstString ["x", "A"], .first "B"]
    (∀ query ∈ queries, query.AsksFirst) ∧
      ∃ answered last, g.Calls ⟨[], g.openMemo .guarded⟩ queries answered last ∧
        last.marked = [] ∧ (∀ t, t ∈ SymbolSet.ofList ["a", "b"] ↔ g.LeftHead "A" t) ∧
        (.first "B", .symbols (.ofList ["b"])) ∈ answered ∧ g.LeftHead "B" "a" := by
  intro g queries
  have hq : ∀ query ∈ queries, query.AsksFirst := by decide
  obtain ⟨⟨answered, last, hcalls⟩, hall⟩ := Grammar.guarded_answers g hq
  obtain ⟨hanswered, hlast, hsets⟩ := hall hcalls
  have hrun : (g.session queries (g.openMemo .guarded)).1 =
      [(.first "A", .symbols (.ofList ["a", "b"])),
        (.firstString ["x", "A"], .symbols (.ofList ["x"])),
        (.first "B", .symbols (.ofList ["b"]))] := by decide +kernel
  rw [hrun] at hanswered
  subst hanswered
  obtain ⟨set, e, -, -, hfirst, -⟩ := hsets "A" _ (by decide) List.mem_cons_self
  cases e
  refine ⟨hq, _, last, hcalls, hlast ▸ rfl, hfirst rfl, by simp, "A", ?_, .inl ⟨by decide, [], ?_⟩⟩
  · exact .single ⟨["y"], by decide⟩
  · decide

end CanonicalLR
