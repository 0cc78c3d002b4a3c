import CanonicalLR.Build
import CanonicalLR.Proofs.Augmentation
import CanonicalLR.Proofs.Closure
import Mathlib.Data.Finset.Powerset

/-!
# The canonical collection

`Automaton.Canonical g F a` says, without any order or numbering, what the canonical automaton of a
grammar is: state 0 holds the closure of the initial item, a state has a transition on exactly the
symbols after a dot, and the target of a transition holds the closure of the moved items.
`canonical_automaton`: the computed automaton is canonical, for any function that agrees with the
memo at the end.

All items are of a form that leaves finitely many (`IsItem`), and registered sets differ, so the
exploration ends before its budget.
-/

namespace CanonicalLR

theorem Item.sameSet_iff {a b : List Item} : sameSet a b = true ↔ ∀ j, j ∈ a ↔ j ∈ b := by
  simp only [sameSet, Bool.and_eq_true, List.all_eq_true, List.contains_iff_mem]
  exact ⟨fun h j => ⟨h.1 j, h.2 j⟩, fun h => ⟨fun j => (h j).1, fun j => (h j).2⟩⟩

theorem Item.mem_nextSymbols {items : List Item} {x : Symbol} :
    x ∈ nextSymbols items ↔ ∃ i ∈ items, i.next? = some x := by
  rw [nextSymbols, mem_distinct, List.mem_filterMap]

theorem Item.lt_of_next? {i : Item} {x : Symbol} (h : i.next? = some x) : i.dot < i.rhs.length :=
  (List.getElem?_eq_some_iff.1 h).1

/-- Before the dot of a complete item stands its whole right-hand side. -/
theorem Item.take_dot {i : Item} (h : i.next? = none) : i.rhs.take i.dot = i.rhs :=
  List.take_of_length_le (List.getElem?_eq_none_iff.1 h)

/-- The symbol after the dot stands between what is before the dot and what is beyond. -/
theorem Item.rhs_eq_of_next? {i : Item} {x : Symbol} (h : i.next? = some x) :
    i.rhs = i.rhs.take i.dot ++ x :: i.beyond := by
  obtain ⟨hlt, hget⟩ := List.getElem?_eq_some_iff.1 h
  rw [beyond, ← hget, List.getElem_cons_drop hlt, List.take_append_drop]

theorem Item.take_succ_of_next? {i : Item} {x : Symbol} (h : i.next? = some x) :
    i.rhs.take (i.dot + 1) = i.rhs.take i.dot ++ [x] := by
  obtain ⟨hlt, hget⟩ := List.getElem?_eq_some_iff.1 h
  rw [← hget, List.take_append_getElem hlt]

/-- A function under which FIRST of a string is made of symbols that may be there. -/
def Grammar.CredibleFirst (g : Grammar) (F : List Symbol → SymbolSet) : Prop :=
  ∀ xs t, t ∈ F xs → g.MayBegin xs t

/-- The answers that a memo knows; other strings have no set. -/
def Memo.answers (memo : Memo) (xs : List Symbol) : SymbolSet := (memo.strings.lookup xs).getD ∅

theorem Memo.agrees_answers (memo : Memo) : memo.Agrees memo.answers := by
  intro xs set h
  rw [answers, h, Option.getD_some]

theorem Memo.Credible.answers {g : Grammar} {memo : Memo} (h : memo.Credible g) :
    g.CredibleFirst memo.answers := by
  intro xs t ht
  rw [Memo.answers] at ht
  cases hl : memo.strings.lookup xs with
  | none =>
    rw [hl] at ht
    exact absurd ht SymbolSet.not_mem_empty
  | some set =>
    rw [hl] at ht
    exact h.strings xs set t hl ht

namespace Grammar

variable {g : Grammar} {F : List Symbol → SymbolSet} {memo : Memo} {i j : Item}
  {items : List Item} {sets : List (List Item)} {x : Symbol}

/-! ## The form of all items -/

/-- What every item of the automaton is like. -/
structure IsItem (g : Grammar) (i : Item) : Prop where
  rule : (i.lhs, i.rhs) ∈ g.augment.productions.pairs
  dot : i.dot ≤ i.rhs.length
  lookahead : i.lookahead = endMarker ∨
    (i.lookahead ∈ g.bodySymbols ∧ g.isNonterminal i.lookahead = false)
  start : i.lhs = g.augmentedStart → i.lookahead = endMarker

theorem isItem_initialItem : g.IsItem g.initialItem where
  rule := mem_pairs_augment.2 (.inl rfl)
  dot := Nat.zero_le _
  lookahead := .inl rfl
  start _ := rfl

theorem IsItem.advance (h : g.IsItem i) (hx : i.next? = some x) : g.IsItem i.advance where
  rule := h.rule
  dot := Item.lt_of_next? hx
  lookahead := h.lookahead
  start := h.start

/-- Behind the symbol after the dot there are only symbols of right-hand sides. -/
theorem IsItem.mem_bodySymbols_of_mem_beyond (h : g.IsItem i) {y : Symbol} (hy : y ∈ i.beyond) :
    y ∈ g.bodySymbols := by
  rcases mem_pairs_augment.1 h.rule with e | hr
  · have hlen : i.rhs.length = 1 := congrArg (fun p => p.2.length) e
    rw [Item.beyond, List.drop_eq_nil_iff.2 (by omega)] at hy
    cases hy
  · exact mem_bodySymbols.2 ⟨i.lhs, i.rhs, hr, mem_of_mem_beyond hy⟩

theorem IsItem.predicts (hF : g.CredibleFirst F) (h : g.IsItem i) (hp : g.Predicts F i j) :
    g.IsItem j := by
  obtain ⟨B, rhs, b, -, hr, hb, hne, rfl⟩ := hp
  refine ⟨mem_pairs_augment.2 (.inr hr), Nat.zero_le _, ?_, ?_⟩
  · obtain ⟨hm, hn⟩ := (hF _ b hb).resolve_left hne
    simp only [List.mem_append, List.mem_singleton] at hm
    rcases hm with hm | hm | rfl
    · exact .inr ⟨hm, hn⟩
    · exact .inr ⟨h.mem_bodySymbols_of_mem_beyond hm, hn⟩
    · exact h.lookahead
  · rintro rfl
    exact absurd List.mem_cons_self (augmentedStart_not_mem_of_mem hr)

theorem IsItem.closure {seeds : List Item} (hF : g.CredibleFirst F) (hs : ∀ i ∈ seeds, g.IsItem i)
    (h : g.InClosure F seeds j) : g.IsItem j := by
  obtain ⟨i, hi, hreach⟩ := h
  induction hreach with
  | refl => exact hs i hi
  | tail _ step ih => exact ih.predicts hF step

theorem IsItem.movedOver (hs : ∀ i ∈ items, g.IsItem i) (hj : j ∈ movedOver x items) :
    g.IsItem j := by
  obtain ⟨i, hi, hn, rfl⟩ := mem_movedOver.1 hj
  exact (hs i hi).advance hn

/-- All items of that form. -/
def allItems (g : Grammar) : List Item :=
  g.augment.productions.pairs.flatMap fun p => (List.range (p.2.length + 1)).flatMap fun dot =>
    (endMarker :: g.bodySymbols).map fun a => ⟨p.1, p.2, dot, a⟩

theorem IsItem.mem_allItems (h : g.IsItem i) : i ∈ g.allItems := by
  refine List.mem_flatMap.2 ⟨_, h.rule, List.mem_flatMap.2 ⟨i.dot, ?_, List.mem_map.2
    ⟨i.lookahead, ?_, rfl⟩⟩⟩
  · exact List.mem_range.2 (Nat.lt_succ_of_le h.dot)
  · exact List.mem_cons.2 (h.lookahead.imp_right And.left)

theorem length_allItems : g.allItems.length = g.itemCount := by
  have count : ∀ ps : List (Symbol × List Symbol),
      (ps.flatMap fun p => (List.range (p.2.length + 1)).flatMap fun dot =>
        (endMarker :: g.bodySymbols).map fun a => (⟨p.1, p.2, dot, a⟩ : Item)).length =
      (ps.map (·.2)).foldr (fun rhs count => rhs.length + 1 + count) 0 *
        (g.bodySymbols.length + 1) := by
    intro ps
    induction ps with
    | nil => simp
    | cons p ps ih =>
      rw [List.flatMap_cons, List.length_append, ih, List.map_cons, List.foldr_cons, Nat.add_mul]
      simp [List.length_flatMap]
  have hp : g.augment.productions.pairs = (g.augmentedStart, [g.start]) :: g.productions.pairs := by
    simp [augment, Productions.pairs]
  rw [allItems, count, hp]
  rfl

/-! ## Registration of one item set -/

/-- Sets that differ are not more than the parts of a space that has their items. -/
theorem length_le_two_pow {space : Finset Item} (hi : ∀ set ∈ sets, ∀ j ∈ set, j ∈ space)
    (ha : sets.Pairwise fun a b => ¬ Item.sameSet a b = true) : sets.length ≤ 2 ^ space.card := by
  have hnodup : (sets.map List.toFinset).Nodup := by
    refine List.pairwise_map.2 (ha.imp fun {a b} hab e => hab (Item.sameSet_iff.2 fun j => ?_))
    rw [← List.mem_toFinset, e, List.mem_toFinset]
  have hsub : (sets.map List.toFinset).toFinset ⊆ space.powerset := by
    intro s hs
    obtain ⟨set, hset, rfl⟩ := List.mem_map.1 (List.mem_toFinset.1 hs)
    exact Finset.mem_powerset.2 fun j hj => hi set hset j (List.mem_toFinset.1 hj)
  have hcard := Finset.card_le_card hsub
  rwa [List.toFinset_card_of_nodup hnodup, List.length_map, Finset.card_powerset] at hcard

theorem sets_length_le (hi : ∀ set ∈ sets, ∀ j ∈ set, g.IsItem j)
    (ha : sets.Pairwise fun a b => ¬ Item.sameSet a b = true) : sets.length ≤ 2 ^ g.itemCount := by
  have hle : sets.length ≤ 2 ^ g.allItems.toFinset.card :=
    length_le_two_pow (fun set hs j hj => List.mem_toFinset.2 (hi set hs j hj).mem_allItems) ha
  refine hle.trans (Nat.pow_le_pow_right (by decide) ?_)
  exact (List.toFinset_card_le _).trans length_allItems.le

/-- What registration of a set does. -/
structure Registered (sets : List (List Item)) (items : List Item)
    (entry : Nat × List (List Item)) : Prop where
  grown : sets <+: entry.2
  found : ∃ set, entry.2[entry.1]? = some set ∧ ∀ j, j ∈ set ↔ j ∈ items
  old_or_new : ∀ set ∈ entry.2, set ∈ sets ∨ set = items
  new : ∀ t, sets.length ≤ t → t < entry.2.length → t = entry.1
  apart : sets.Pairwise (fun a b => ¬ Item.sameSet a b = true) →
    entry.2.Pairwise fun a b => ¬ Item.sameSet a b = true

theorem registered_register (sets : List (List Item)) (items : List Item) :
    Registered sets items (register sets items) := by
  unfold register
  cases hf : sets.findIdx? (Item.sameSet items) with
  | some t =>
    obtain ⟨hlt, hsame, -⟩ := List.findIdx?_eq_some_iff_getElem.1 hf
    exact ⟨List.prefix_refl _, ⟨sets[t], List.getElem?_eq_getElem hlt,
      fun j => (Item.sameSet_iff.1 hsame j).symm⟩, fun set hs => .inl hs,
      fun t hle hlt => absurd hlt (Nat.not_lt.2 hle), fun ha => ha⟩
  | none =>
    have hnew := List.findIdx?_eq_none_iff.1 hf
    refine ⟨List.prefix_append _ _, ⟨items, List.getElem?_concat_length, fun j => .rfl⟩, ?_, ?_, ?_⟩
    · intro set hs
      rcases List.mem_append.1 hs with hs | hs
      · exact .inl hs
      · exact .inr (List.mem_singleton.1 hs)
    · intro t hle hlt
      rw [List.length_append, List.length_singleton] at hlt
      exact Nat.le_antisymm (Nat.le_of_lt_succ hlt) hle
    · intro ha
      refine List.pairwise_append.2 ⟨ha, List.pairwise_singleton _ _, ?_⟩
      intro a hm b hb hab
      rw [List.mem_singleton.1 hb, Item.sameSet_iff] at hab
      have hback : Item.sameSet items a = true := Item.sameSet_iff.2 fun j => (hab j).symm
      rw [hnew a hm] at hback
      cases hback

/-! ## Expansion of one item set -/

/-- A registered set that holds the closure of given seeds. -/
def Registers (g : Grammar) (F : List Symbol → SymbolSet) (sets : List (List Item)) (t : Nat)
    (seeds : List Item) : Prop :=
  ∃ set, sets[t]? = some set ∧ ∀ j, j ∈ set ↔ g.InClosure F seeds j

theorem Registers.mono {later : List (List Item)} {t : Nat} {seeds : List Item}
    (h : g.Registers F sets t seeds) (hg : sets <+: later) : g.Registers F later t seeds := by
  obtain ⟨set, hs, hm⟩ := h
  refine ⟨set, ?_, hm⟩
  obtain ⟨rest, rfl⟩ := hg
  rwa [List.getElem?_append_left (List.getElem?_eq_some_iff.1 hs).1]

/-- The sets registered so far: they consist of items of the grammar and differ. -/
structure Sets (g : Grammar) (sets : List (List Item)) : Prop where
  isItem : ∀ set ∈ sets, ∀ j ∈ set, g.IsItem j
  apart : sets.Pairwise fun a b => ¬ Item.sameSet a b = true

theorem Sets.register (h : g.Sets sets) (hi : ∀ j ∈ items, g.IsItem j) :
    g.Sets (register sets items).2 where
  isItem set hs := by
    rcases (registered_register sets items).old_or_new set hs with hs | rfl
    · exact h.isItem set hs
    · exact hi
  apart := (registered_register sets items).apart h.apart

theorem Kept.successors {P : Memo → Prop} (hP : g.Kept P) (items : List Item) (xs : List Symbol)
    (sets : List (List Item)) (h : P memo) : P (g.successors items xs sets memo).2.2 := by
  induction xs generalizing sets memo with
  | nil => exact h
  | cons x xs ih => exact ih _ (hP.goto items x h)

/-- What the transitions of one item set are. -/
structure Expanded (g : Grammar) (F : List Symbol → SymbolSet) (items : List Item)
    (xs : List Symbol) (sets : List (List Item))
    (found : Entries Symbol Nat × List (List Item) × Memo) : Prop where
  keys : found.1.keys = xs
  grown : sets <+: found.2.1
  known : g.Sets found.2.1
  targets : ∀ x t, (x, t) ∈ found.1 → g.Registers F found.2.1 t (movedOver x items)
  new : ∀ t, sets.length ≤ t → t < found.2.1.length → ∃ x, (x, t) ∈ found.1

theorem isItem_goto (hm : memo.Credible g) (hi : ∀ i ∈ items, g.IsItem i)
    (hj : j ∈ (g.goto items x memo).1) : g.IsItem j := by
  have hF := Memo.agrees_answers (g.goto items x memo).2
  have hpl : g.CredibleFirst (g.goto items x memo).2.answers :=
    (kept_credible.goto items x hm).answers
  exact .closure hpl (fun i hi' => .movedOver hi hi') ((mem_goto hm hF).1 hj)

theorem expanded_successors (xs : List Symbol) (hm : memo.Credible g) (hs : g.Sets sets)
    (hi : ∀ i ∈ items, g.IsItem i) (hF : (g.successors items xs sets memo).2.2.Agrees F) :
    g.Expanded F items xs sets (g.successors items xs sets memo) := by
  induction xs generalizing sets memo with
  | nil => exact ⟨rfl, List.prefix_refl _, hs, fun x t h => absurd h List.not_mem_nil,
      fun t hle hlt => absurd hlt (Nat.not_lt.2 hle)⟩
  | cons x xs ih =>
    have hgoto : (g.goto items x memo).2.Agrees F :=
      hF.of_extends ((kept_extends _).successors items xs _ (.refl _))
    have hreg := registered_register sets (g.goto items x memo).1
    have hsets := hs.register fun j hj => isItem_goto (x := x) hm hi hj
    have hrest := ih (kept_credible.goto items x hm) hsets hF
    refine ⟨congrArg (x :: ·) hrest.keys, hreg.grown.trans hrest.grown, hrest.known, ?_, ?_⟩
    · intro y t hyt
      rcases List.mem_cons.1 hyt with e | hyt
      · cases e
        obtain ⟨set, hset, hsame⟩ := hreg.found
        refine Registers.mono ⟨set, hset, fun j => ?_⟩ hrest.grown
        rw [hsame, mem_goto hm hgoto]
      · exact hrest.targets y t hyt
    · intro t hle hlt
      rcases Nat.lt_or_ge t (register sets (g.goto items x memo).1).2.length with hold | hnew
      · obtain rfl := hreg.new t hle hold
        exact ⟨x, List.mem_cons_self⟩
      · obtain ⟨y, hy⟩ := hrest.new t hnew hlt
        exact ⟨y, List.mem_cons_of_mem _ hy⟩

/-! ## The exploration -/

/-- What holds between two expansions.  The description of the initial set and of the rows is
that of any function that agrees with the memo, so it outlasts the growth of the memo. -/
structure Exploring (g : Grammar) (c : Collection) : Prop where
  credible : c.memo.Credible g
  sets : g.Sets c.sets
  rows_le : c.rows.length ≤ c.sets.length
  initial : ∀ F, c.memo.Agrees F → g.Registers F c.sets 0 [g.initialItem]
  rows : ∀ F, c.memo.Agrees F → ∀ (q : Nat) (row : Entries Symbol Nat), c.rows[q]? = some row →
    ∃ items, c.sets[q]? = some items ∧ row.keys = Item.nextSymbols items ∧
    ∀ x t, (x, t) ∈ row → g.Registers F c.sets t (movedOver x items)
  reached : ∀ t, 0 < t → t < c.sets.length → ∃ (q : Nat) (row : Entries Symbol Nat) (x : Symbol),
    q < t ∧ c.rows[q]? = some row ∧ (x, t) ∈ row

/-- The collection after one more item set is expanded. -/
def Collection.expand (g : Grammar) (c : Collection) (items : List Item) : Collection :=
  let found := g.successors items (Item.nextSymbols items) c.sets c.memo
  ⟨found.2.1, c.rows ++ [found.1], found.2.2⟩

theorem explore_of_some {budget : Nat} {c : Collection}
    (hq : c.sets[c.rows.length]? = some items) :
    g.explore (budget + 1) c = g.explore budget (c.expand g items) := by
  rw [explore, hq]
  rfl

theorem explore_of_none {budget : Nat} {c : Collection} (hq : c.sets[c.rows.length]? = none) :
    g.explore budget c = c := by
  cases budget with
  | zero => rfl
  | succ budget => rw [explore, hq]

theorem Exploring.expanded {c : Collection} (h : g.Exploring c)
    (hq : c.sets[c.rows.length]? = some items) (hF : (c.expand g items).memo.Agrees F) :
    g.Expanded F items (Item.nextSymbols items) c.sets
      (g.successors items (Item.nextSymbols items) c.sets c.memo) :=
  expanded_successors _ h.credible h.sets (h.sets.isItem items (List.mem_of_getElem? hq)) hF

theorem Exploring.next {c : Collection} (h : g.Exploring c)
    (hq : c.sets[c.rows.length]? = some items) : g.Exploring (c.expand g items) := by
  have hlt : c.rows.length < c.sets.length := (List.getElem?_eq_some_iff.1 hq).1
  have hext : c.memo.Extends (c.expand g items).memo := (kept_extends _).successors _ _ _ (.refl _)
  have known := h.expanded hq (Memo.agrees_answers _)
  have stays : ∀ {q : Nat} {old},
      c.sets[q]? = some old → (c.expand g items).sets[q]? = some old := by
    intro q old hold
    obtain ⟨rest, e⟩ := known.grown
    show (g.successors items (Item.nextSymbols items) c.sets c.memo).2.1[q]? = some old
    rw [← e, List.getElem?_append_left (List.getElem?_eq_some_iff.1 hold).1, hold]
  constructor
  case credible => exact kept_credible.successors _ _ _ h.credible
  case sets => exact known.known
  case rows_le =>
    have hgrown := known.grown.length_le
    simp only [Collection.expand, List.length_append, List.length_singleton]
    omega
  case initial =>
    intro F hF
    exact (h.initial F (hF.of_extends hext)).mono known.grown
  case rows =>
    intro F hF q row hrow
    simp only [Collection.expand] at hrow
    rcases Nat.lt_trichotomy q c.rows.length with hold | rfl | hbeyond
    · rw [List.getElem?_append_left hold] at hrow
      obtain ⟨old, hset, hkeys, htargets⟩ := h.rows F (hF.of_extends hext) q row hrow
      exact ⟨old, stays hset, hkeys, fun x t hx => (htargets x t hx).mono known.grown⟩
    · rw [List.getElem?_concat_length] at hrow
      cases hrow
      exact ⟨items, stays hq, (h.expanded hq hF).keys, (h.expanded hq hF).targets⟩
    · rw [List.getElem?_eq_none (by simp; omega)] at hrow
      cases hrow
  case reached =>
    intro t h0 ht
    rcases Nat.lt_or_ge t c.sets.length with hold | hnew
    · obtain ⟨q, row, x, hqt, hrow, hx⟩ := h.reached t h0 hold
      refine ⟨q, row, x, hqt, ?_, hx⟩
      show (c.rows ++ [_])[q]? = some row
      rw [List.getElem?_append_left (List.getElem?_eq_some_iff.1 hrow).1, hrow]
    · -- a set is registered while an earlier one is expanded
      obtain ⟨x, hx⟩ := known.new t hnew ht
      exact ⟨c.rows.length, _, x, hlt.trans_le hnew, List.getElem?_concat_length, hx⟩

theorem exploring_explore (budget : Nat) {c : Collection} (h : g.Exploring c) :
    g.Exploring (g.explore budget c) := by
  induction budget generalizing c with
  | zero => exact h
  | succ budget ih =>
    rw [explore]
    split
    · exact h
    · next items hq => exact ih (h.next hq)

theorem Kept.explore {P : Memo → Prop} (hP : g.Kept P) (budget : Nat) {c : Collection}
    (h : P c.memo) : P (g.explore budget c).memo := by
  induction budget generalizing c with
  | zero => exact h
  | succ budget ih =>
    rw [Grammar.explore]
    split
    · exact h
    · next items hq => exact ih (hP.successors _ _ _ h)

/-- With a budget for all sets that there can be, every registered set is expanded. -/
theorem Exploring.finished {budget : Nat} {c : Collection} (h : g.Exploring c)
    (hb : 2 ^ g.itemCount ≤ budget + c.rows.length) :
    (g.explore budget c).rows.length = (g.explore budget c).sets.length := by
  have hle := sets_length_le h.sets.isItem h.sets.apart
  have hrows := h.rows_le
  induction budget generalizing c with
  | zero =>
    rw [explore]
    omega
  | succ budget ih =>
    rw [explore]
    split
    · next hq =>
      rw [List.getElem?_eq_none_iff] at hq
      omega
    · next items hq =>
      have hnext := h.next hq
      refine ih hnext ?_ (sets_length_le hnext.sets.isItem hnext.sets.apart) hnext.rows_le
      simp only [List.length_append, List.length_singleton]
      omega

/-! ## The automaton -/

end Grammar

theorem Automaton.getElem?_toAutomaton {c : Grammar.Collection} {s : Symbol} {q : Nat}
    {state : State} :
    (c.toAutomaton s).states[q]? = some state ↔ ∃ items row, c.sets[q]? = some items ∧
      c.rows[q]? = some row ∧
      state = ⟨q, items, row.map fun move => (move.1, (move.2 : Int))⟩ := by
  simp only [Grammar.Collection.toAutomaton, List.getElem?_map, List.getElem?_zipIdx,
    Option.map_map, List.getElem?_zip_eq_some, Option.map_eq_some_iff, Nat.zero_add]
  constructor
  · rintro ⟨⟨items, row⟩, ⟨hs, hr⟩, rfl⟩
    exact ⟨items, row, hs, hr, rfl⟩
  · rintro ⟨items, row, hs, hr, rfl⟩
    exact ⟨(items, row), ⟨hs, hr⟩, rfl⟩

/-- The canonical automaton of a grammar, up to the order of items and the numbers of states. -/
structure Automaton.Canonical (g : Grammar) (F : List Symbol → SymbolSet) (a : Automaton) :
    Prop where
  start : a.augmentedStart = g.augmentedStart
  index : ∀ {q : Nat} {state : State}, a.states[q]? = some state → state.index = q
  isItem : ∀ {q : Nat} {state : State}, a.states[q]? = some state → ∀ i ∈ state.items, g.IsItem i
  initial : ∃ state, a.states[0]? = some state ∧
    ∀ j, j ∈ state.items ↔ g.InClosure F [g.initialItem] j
  moves : ∀ {q : Nat} {state : State}, a.states[q]? = some state → ∀ x,
    (∃ t, state.target? x = some t) ↔ ∃ i ∈ state.items, i.next? = some x
  target : ∀ {q : Nat} {state : State}, a.states[q]? = some state →
    ∀ {x t}, state.target? x = some t → ∃ (p : Nat) (next : State), t = p ∧
      a.states[p]? = some next ∧
      ∀ j, j ∈ next.items ↔ g.InClosure F (Grammar.movedOver x state.items) j
  reached : ∀ {t : Nat} {next : State}, a.states[t]? = some next → 0 < t →
    ∃ (q : Nat) (state : State) (x : Symbol), q < t ∧ a.states[q]? = some state ∧
      state.target? x = some (t : Int)

namespace Grammar

variable {g : Grammar} {memo : Memo}

theorem exploring_initial (hm : memo.Credible g) : g.Exploring
    ⟨[(g.closure [g.initialItem] memo).1], [], (g.closure [g.initialItem] memo).2⟩ where
  credible := kept_credible.closure _ hm
  sets := by
    refine ⟨fun set hs j hj => ?_, List.pairwise_singleton _ _⟩
    rw [List.mem_singleton.1 hs] at hj
    refine .closure (kept_credible.closure _ hm).answers ?_
      ((mem_closure hm (Memo.agrees_answers _)).1 hj)
    intro i hi
    exact List.mem_singleton.1 hi ▸ isItem_initialItem
  rows_le := Nat.zero_le _
  initial F hF := ⟨_, rfl, fun _ => mem_closure hm hF⟩
  rows F hF q row hrow := by simp at hrow
  reached t h0 ht := absurd ht (Nat.not_lt.2 h0)

theorem target?_row {q : Int} {items : List Item} {row : Entries Symbol Nat} {x : Symbol} :
    (⟨q, items, row.map fun move => (move.1, (move.2 : Int))⟩ : State).target? x =
      (row.lookup x).map Nat.cast :=
  Entries.lookup_map

/-- When all sets are expanded, each is the item set of a state. -/
theorem exists_state_of_set {c : Collection} (hdone : c.rows.length = c.sets.length) {q : Nat}
    {items : List Item} (hs : c.sets[q]? = some items) : ∃ state,
      (c.toAutomaton g.augmentedStart).states[q]? = some state ∧ state.items = items := by
  have hlt : q < c.rows.length := hdone ▸ (List.getElem?_eq_some_iff.1 hs).1
  exact ⟨_, Automaton.getElem?_toAutomaton.2 ⟨items, _, hs, List.getElem?_eq_getElem hlt, rfl⟩, rfl⟩

/-- When all sets are expanded, the collection makes a canonical automaton. -/
theorem Exploring.canonical {c : Collection} {F : List Symbol → SymbolSet} (h : g.Exploring c)
    (hdone : c.rows.length = c.sets.length) (hF : c.memo.Agrees F) :
    (c.toAutomaton g.augmentedStart).Canonical g F := by
  constructor
  case start => rfl
  case index =>
    intro q s hq
    obtain ⟨items, row, -, -, rfl⟩ := Automaton.getElem?_toAutomaton.1 hq
    rfl
  case isItem =>
    intro q s hq
    obtain ⟨items, row, hs, -, rfl⟩ := Automaton.getElem?_toAutomaton.1 hq
    exact h.sets.isItem items (List.mem_of_getElem? hs)
  case initial =>
    obtain ⟨items, hs, hmem⟩ := h.initial F hF
    obtain ⟨s, hq, rfl⟩ := exists_state_of_set hdone hs
    exact ⟨s, hq, hmem⟩
  case moves =>
    intro q s hq x
    obtain ⟨items, row, hs, hr, rfl⟩ := Automaton.getElem?_toAutomaton.1 hq
    obtain ⟨items', hs', hkeys, -⟩ := h.rows F hF q row hr
    obtain rfl : items' = items := Option.some.inj (hs'.symm.trans hs)
    rw [← Item.mem_nextSymbols, ← hkeys, ← Entries.exists_lookup_iff]
    simp only [target?_row, Option.map_eq_some_iff]
    exact ⟨fun ⟨_, t, ht, _⟩ => ⟨t, ht⟩, fun ⟨t, ht⟩ => ⟨t, t, ht, rfl⟩⟩
  case target =>
    intro q s hq x t ht
    obtain ⟨items, row, hs, hr, rfl⟩ := Automaton.getElem?_toAutomaton.1 hq
    obtain ⟨items', hs', -, htargets⟩ := h.rows F hF q row hr
    obtain rfl : items' = items := Option.some.inj (hs'.symm.trans hs)
    rw [target?_row] at ht
    obtain ⟨p, hp, rfl⟩ := Option.map_eq_some_iff.1 ht
    obtain ⟨set, hset, hmem⟩ := htargets x p (Entries.mem_of_lookup hp)
    obtain ⟨next, hnext, rfl⟩ := exists_state_of_set hdone hset
    exact ⟨p, next, rfl, hnext, hmem⟩
  case reached =>
    intro t next ht h0
    obtain ⟨set, -, hset, -, -⟩ := Automaton.getElem?_toAutomaton.1 ht
    obtain ⟨q, row, x, hqt, hrow, hx⟩ := h.reached t h0 (List.getElem?_eq_some_iff.1 hset).1
    obtain ⟨items, hs, hkeys, -⟩ := h.rows F hF q row hrow
    have hnodup : row.keys.Nodup := hkeys ▸ nodup_distinct _
    refine ⟨q, _, x, hqt, Automaton.getElem?_toAutomaton.2 ⟨items, row, hs, hrow, rfl⟩, ?_⟩
    rw [target?_row, Entries.lookup_of_mem hnodup hx, Option.map_some]

/-- **The computed automaton is canonical**, under FIRST as the memo has it in the end. -/
theorem canonical_automaton {F : List Symbol → SymbolSet} (hm : memo.Credible g)
    (hF : (g.canonical memo).2.Agrees F) : (g.canonical memo).1.Canonical g F := by
  have hfirst := exploring_initial hm
  have hdone := hfirst.finished (Nat.le_add_right (2 ^ g.itemCount) 0)
  exact (exploring_explore (2 ^ g.itemCount) hfirst).canonical hdone hF

/-- Under the fixed point strategy the automaton is canonical with FIRST itself. -/
theorem canonical_fixedPoint : (g.automaton .fixedPoint).Canonical g g.firstOf := by
  refine canonical_automaton (credible_openMemo _) ?_
  have h : (g.canonical (g.openMemo .fixedPoint)).2.Settled g :=
    kept_settled.explore _ (kept_settled.closure _ settled_openMemo)
  exact h.strings

theorem exists_canonical (strategy : FirstStrategy) :
    ∃ F, (g.automaton strategy).Canonical g F :=
  ⟨_, canonical_automaton (credible_openMemo strategy) (Memo.agrees_answers _)⟩

end Grammar

end CanonicalLR
