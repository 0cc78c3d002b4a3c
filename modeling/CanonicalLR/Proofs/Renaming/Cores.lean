import CanonicalLR.Proofs.Renaming.First
import CanonicalLR.Proofs.First.Again
import CanonicalLR.Proofs.Distinct

/-!
# The order of cores

Lookaheads are taken in ascending order, so a renaming changes the order of the items of a closure,
and with it the order of the questions about FIRST.  What it does not change is the order in which
the cores appear, that is the items without their lookaheads: what a core predicts, and what is
known about nonterminals afterwards, does not depend on the lookahead (`outline_core`), and an item
whose core was visited before adds neither a core nor an answer (`Spent`).

So a closure, seen without lookaheads, visits its cores one by one in the order in which they
appeared (`discovers_saturate`).  `Discovers` is this visit, which has one outcome
(`Discovers.eq_last`) and is renamed with the grammar (`Discovers.rename`).
-/

namespace CanonicalLR

theorem SymbolSet.toList_empty : (∅ : SymbolSet).toList = [] := rfl

theorem SymbolSet.toList_eq_nil {s : SymbolSet} : s.toList = [] ↔ s = ∅ := by
  refine ⟨fun h => ext fun t => ?_, fun h => h ▸ toList_empty⟩
  rw [mem_def, h]
  exact iff_of_false List.not_mem_nil not_mem_empty

/-! ## Cores -/

namespace Item

/-- The item with the end marker for its lookahead. -/
def core (i : Item) : Item := { i with lookahead := endMarker }

@[simp] theorem next?_core (i : Item) : i.core.next? = i.next? := rfl

/-- The cores of some items, in order of first appearance. -/
def cores (items : List Item) : List Item := distinct (items.map core)

theorem distinct_cores (items : List Item) : distinct (cores items) = cores items :=
  distinct_of_nodup (nodup_distinct _)

/-- The core of one more item appears for the first time, or has appeared. -/
theorem cores_concat (items : List Item) (i : Item) : cores (items ++ [i]) =
    if i.core ∈ items.map core then cores items else cores items ++ [i.core] := by
  rw [cores, List.map_append, List.map_singleton, distinct_concat, cores]

theorem cores_append (items items' : List Item) :
    cores (items ++ items') = distinct (cores items ++ cores items') := by
  rw [cores, List.map_append, ← distinct_append_distinct, ← cores]
  exact distinct_append_congr (distinct_cores items').symm

theorem cores_distinct (items : List Item) : cores (distinct items) = cores items :=
  distinct_map_distinct core items

/-- The cores of the predicted items are the alternatives, if there is a lookahead. -/
theorem cores_predicted (x : Symbol) (bodies : List (List Symbol)) (lookaheads : List Symbol) :
    cores (bodies.flatMap fun rhs => lookaheads.map fun a => ⟨x, rhs, 0, a⟩) =
      if lookaheads = [] then [] else distinct (bodies.map fun rhs => ⟨x, rhs, 0, endMarker⟩) := by
  have hmap : (bodies.flatMap fun rhs => lookaheads.map fun a => (⟨x, rhs, 0, a⟩ : Item)).map core =
      bodies.flatMap fun rhs => lookaheads.map fun _ => ⟨x, rhs, 0, endMarker⟩ := by
    rw [List.map_flatMap]
    simp only [List.map_map]
    rfl
  rw [cores, hmap]
  split
  · next h =>
    have hnil : ∀ rhs ∈ bodies,
        (lookaheads.map fun _ => (⟨x, rhs, 0, endMarker⟩ : Item)) = [] := by
      simp [h]
    rw [List.flatMap_eq_nil_iff.2 hnil, distinct]
  · next h => rw [distinct_flatMap_const h]

/-- Whether the lookahead of an item is a terminal, or the end marker. -/
structure Terminated (g : Grammar) (i : Item) : Prop where
  terminal : ¬ g.isNonterminal i.lookahead = true
  ne_epsilon : i.lookahead ≠ epsilon

end Item

open Item (cores distinct_cores cores_concat cores_append cores_distinct cores_predicted)

namespace Grammar

variable {g : Grammar} {π : Equiv.Perm Symbol} {memo : Memo} {table later final final' : FirstTable}
  {item core i : Item} {items items' pending visited seeds seen last last' : List Item} {k : Nat}

/-- The cores that a core predicts, and what is known of nonterminals afterwards. -/
def outline (g : Grammar) (core : Item) (table : FirstTable) : List Item × FirstTable :=
  match core.next? with
  | none => ([], table)
  | some x =>
    if g.isNonterminal x then
      let found := g.scanString core.beyond ⟨table, []⟩
      (if found.1 = ∅ then [] else (g.alternatives x).map fun rhs => ⟨x, rhs, 0, endMarker⟩,
        found.2.symbols)
    else ([], table)

theorem terminated_of_mem_predictions (hm : memo.Credible g)
    (h : i ∈ (g.predictions item memo).1) : i.Terminated g := by
  have hp := mem_predictions.1 h
  have hl := mayBegin_of_predicts hm hp
  obtain ⟨B, rhs, b, -, -, -, hne, rfl⟩ := hp
  exact ⟨Bool.eq_false_iff.1 (hl.resolve_left hne).2, hne⟩

/-- **What an item predicts, seen without lookaheads, depends on its core only.** -/
theorem outline_core (hm : memo.Grounded g) (hi : item.Terminated g) :
    cores (g.predictions item memo).1 = distinct (g.outline item.core memo.symbols).1 ∧
    (g.predictions item memo).2.symbols = (g.outline item.core memo.symbols).2 := by
  unfold predictions outline
  rw [Item.next?_core]
  cases item.next? with
  | none => exact ⟨rfl, rfl⟩
  | some x =>
    by_cases hx : g.isNonterminal x = true
    · obtain ⟨hset, hsymbols⟩ := symbols_firstOfString hm (item.beyond ++ [item.lookahead])
      obtain ⟨hfound, hknown⟩ := scanString_bare (g := g) item.beyond memo
      have hfollow := erase_scanString_concat hi.terminal hi.ne_epsilon item.beyond memo
      have hlast : (g.scanString (item.beyond ++ [item.lookahead]) memo).2 =
          (g.scanString item.beyond memo).2 := by
        rw [scanString_concat hi.terminal hi.ne_epsilon]
        split <;> rfl
      have hbeyond : item.core.beyond = item.beyond := rfl
      simp only [hx, if_true, hset, hsymbols, hlast, hbeyond, hfound, hknown, and_true]
      rw [cores_predicted]
      by_cases hnone : (g.scanString item.beyond memo).1 = ∅
      · rw [if_pos hnone, if_pos (SymbolSet.toList_eq_nil.2 (hfollow.2 hnone)), distinct]
      · rw [if_neg hnone, if_neg fun e => hnone (hfollow.1 (SymbolSet.toList_eq_nil.1 e))]
    · simp only [hx]
      exact ⟨rfl, rfl⟩

theorem outline_again (h : (g.outline core table).2.Extends later) :
    g.outline core later = ((g.outline core table).1, later) := by
  unfold outline at h ⊢
  cases hn : core.next? with
  | none => rfl
  | some x =>
    by_cases hx : g.isNonterminal x = true
    · simp only [hn, hx, if_true] at h ⊢
      have hagain : g.scanString core.beyond ⟨later, []⟩ =
          ((g.scanString core.beyond ⟨table, []⟩).1, ⟨later, []⟩) := scanString_again h
      rw [hagain]
    · simp only [hx]
      rfl

/-! ## The visit of cores -/

/-- The visit of cores in the order in which they appeared, from a number of visited cores among
those that have appeared, and from what is known of nonterminals, to the end of the visit. -/
inductive Discovers (g : Grammar) : Nat → List Item → FirstTable → List Item → FirstTable → Prop
  | stop {k : Nat} {seen : List Item} {table : FirstTable} (h : seen[k]? = none) :
      Discovers g k seen table seen table
  | step {k : Nat} {seen last : List Item} {table final : FirstTable} {core : Item}
      (h : seen[k]? = some core)
      (rest : Discovers g (k + 1) (distinct (seen ++ (g.outline core table).1))
        (g.outline core table).2 last final) :
      Discovers g k seen table last final

/-- **A visit of cores has one outcome.** -/
theorem Discovers.eq_last (h : g.Discovers k seen table last final)
    (h' : g.Discovers k seen table last' final') : last' = last ∧ final' = final := by
  induction h with
  | stop hnone =>
    cases h' with
    | stop => exact ⟨rfl, rfl⟩
    | step hsome => rw [hnone] at hsome; cases hsome
  | step hsome _ ih =>
    cases h' with
    | stop hnone => rw [hsome] at hnone; cases hnone
    | step hsome' rest =>
      obtain rfl := Option.some.inj (hsome.symm.trans hsome')
      exact ih rest

/-- Whether nothing new follows from the core of an item: what it predicts has appeared, and what it
asks for is known. -/
def Spent (g : Grammar) (items : List Item) (table : FirstTable) (i : Item) : Prop :=
  ∃ cs, (∀ c ∈ cs, c ∈ cores items) ∧
    ∀ later, table.Extends later → g.outline i.core later = (cs, later)

theorem Spent.mono (h : g.Spent items table i) (hitems : ∀ c ∈ cores items, c ∈ cores items')
    (ht : table.Extends later) : g.Spent items' later i := by
  obtain ⟨cs, hcs, hout⟩ := h
  exact ⟨cs, fun c hc => hitems c (hcs c hc), fun last hl => hout last (ht.trans hl)⟩

/-- A visited item is spent. -/
theorem spent_outline (h : ∀ c ∈ (g.outline i.core table).1, c ∈ cores items) :
    g.Spent items (g.outline i.core table).2 i :=
  ⟨_, h, fun _ hl => outline_again hl⟩

theorem extends_outline (core : Item) (table : FirstTable) :
    table.Extends (g.outline core table).2 := by
  unfold outline
  cases core.next? with
  | none => exact .refl table
  | some x =>
    by_cases hx : g.isNonterminal x = true
    · simp only [hx, if_true]
      exact extends_scanString core.beyond ⟨table, []⟩
    · simp only [hx]
      exact .refl table

/-- The items after a visit have the cores that had appeared and those that the visited core
predicts. -/
theorem cores_freshItems (hnodup : items.Nodup) (hm : memo.Grounded g) (hi : item.Terminated g) :
    cores (items ++ g.freshItems items item memo) =
      distinct (cores items ++ (g.outline item.core memo.symbols).1) := by
  have hall : items ++ g.freshItems items item memo =
      distinct (items ++ (g.predictions item memo).1) := by
    rw [distinct_append, distinct_of_nodup hnodup, ← distinct_filter]
    rfl
  rw [hall, cores_distinct, cores_append]
  refine distinct_append_congr ?_
  rw [distinct_cores, (outline_core hm hi).1]

/-- What holds of the visited items and of the memo between two visits. -/
structure Outlining (g : Grammar) (items pending visited : List Item) (memo : Memo) : Prop where
  grounded : memo.Grounded g
  terminated : ∀ i ∈ items, i.Terminated g
  split : items = visited ++ pending
  spent : ∀ i ∈ visited, g.Spent items memo.symbols i

theorem Outlining.next (h : g.Outlining items (item :: pending) visited memo)
    (hc : memo.Credible g) (hnodup : items.Nodup) :
    g.Outlining (items ++ g.freshItems items item memo) (pending ++ g.freshItems items item memo)
      (visited ++ [item]) (g.predictions item memo).2 := by
  have hitem : item.Terminated g := h.terminated item (h.split ▸ by simp)
  have hcores := cores_freshItems hnodup h.grounded hitem
  constructor
  case grounded => exact kept_grounded.predictions item h.grounded
  case terminated =>
    intro i hi
    rcases List.mem_append.1 hi with hi | hi
    · exact h.terminated i hi
    · exact terminated_of_mem_predictions hc (mem_freshItems.1 hi).1
  case split =>
    rw [h.split, List.append_assoc, List.append_assoc]
    rfl
  case spent =>
    intro i hi
    rw [(outline_core h.grounded hitem).2]
    rcases List.mem_append.1 hi with hi | hi
    · refine (h.spent i hi).mono (fun c hc => ?_) (extends_outline _ _)
      rw [hcores]
      exact mem_distinct.2 (List.mem_append_left _ hc)
    · rw [List.mem_singleton.1 hi]
      refine spent_outline fun c hc => ?_
      rw [hcores]
      exact mem_distinct.2 (List.mem_append_right _ hc)

/-- An item with a core that was visited before adds nothing. -/
theorem Outlining.outline_of_mem (h : g.Outlining items (item :: pending) visited memo)
    (hc : item.core ∈ visited.map Item.core) :
    (g.outline item.core memo.symbols).2 = memo.symbols ∧
      distinct (cores items ++ (g.outline item.core memo.symbols).1) = cores items := by
  obtain ⟨i, hi, he⟩ := List.mem_map.1 hc
  obtain ⟨cs, hcs, hout⟩ := h.spent i hi
  rw [← he, hout memo.symbols (.refl _), distinct_append_of_subset hcs]
  exact ⟨rfl, distinct_cores items⟩

/-- An item with another core has the next core in order of appearance. -/
theorem Outlining.getElem?_cores (h : g.Outlining items (item :: pending) visited memo)
    (hc : item.core ∉ visited.map Item.core) :
    (cores items)[(cores visited).length]? = some item.core := by
  have hvisited : cores (visited ++ [item]) = cores visited ++ [item.core] := by
    rw [cores_concat, if_neg hc]
  rw [h.split, List.append_cons, cores, List.map_append, distinct_append, ← cores, hvisited,
    List.append_assoc, List.getElem?_append_right (Nat.le_refl _), Nat.sub_self]
  rfl

/-- **A visit of items is a visit of their cores.**  The items visited so far are spent, so an item
with one of their cores changes nothing, and one with another core is the next one. -/
theorem discovers_saturate {budget : Nat} (h : g.Visiting seeds items pending memo)
    (hb : (g.candidates seeds).length + pending.length < budget + items.length)
    (ho : g.Outlining items pending visited memo) :
    g.Discovers (cores visited).length (cores items) memo.symbols
      (cores (g.saturate budget items pending memo).1)
      (g.saturate budget items pending memo).2.symbols := by
  induction budget generalizing items pending memo visited with
  | zero =>
    have := h.length_le
    omega
  | succ budget ih =>
    cases pending with
    | nil =>
      have hdone : items = visited := ho.split.trans (List.append_nil visited)
      rw [saturate, hdone]
      exact .stop (List.getElem?_eq_none (Nat.le_refl _))
    | cons item pending =>
      have hitem : item.Terminated g := ho.terminated item (h.pending item List.mem_cons_self)
      have hnext := ih h.next
        (by simp only [List.length_append, List.length_cons] at hb ⊢; omega)
        (ho.next h.credible h.nodup)
      rw [(outline_core ho.grounded hitem).2, cores_freshItems h.nodup ho.grounded hitem,
        cores_concat] at hnext
      rw [saturate_cons]
      by_cases hc : item.core ∈ visited.map Item.core
      · obtain ⟨hsymbols, hcores⟩ := ho.outline_of_mem hc
        rwa [if_pos hc, hsymbols, hcores] at hnext
      · rw [if_neg hc, List.length_append, List.length_singleton] at hnext
        exact .step (ho.getElem?_cores hc) hnext

/-- The cores of a closure appear as in a visit of the cores of its seeds. -/
theorem discovers_closure (hm : memo.Grounded g) (hc : memo.Credible g)
    (ht : ∀ i ∈ items, i.Terminated g) :
    g.Discovers 0 (cores items) memo.symbols (cores (g.closure items memo).1)
      (g.closure items memo).2.symbols := by
  have start : g.Visiting (distinct items) (distinct items) (distinct items) memo :=
    ⟨hc, nodup_distinct items, fun i hi => List.mem_append_left _ hi, fun i hi => hi⟩
  have outlining : g.Outlining (distinct items) (distinct items) [] memo :=
    ⟨hm, fun i hi => ht i (mem_distinct.1 hi), rfl, fun i hi => absurd hi List.not_mem_nil⟩
  have h := discovers_saturate start (Nat.add_lt_add_right (length_candidates _) _) outlining
  rwa [cores_distinct] at h

/-! ## Renamed cores -/

section Rename

variable (he : π epsilon = epsilon) (hend : π endMarker = endMarker)

include he hend

theorem outline_rename (core : Item) (table : FirstTable) :
    (g.rename π).outline (core.rename π) (table.rename π) =
      ((g.outline core table).1.map (Item.rename π), (g.outline core table).2.rename π) := by
  unfold outline
  rw [Item.next?_rename]
  cases core.next? with
  | none => rfl
  | some x =>
    rw [Option.map_some]
    simp only [isNonterminal_rename]
    by_cases hx : g.isNonterminal x = true
    · have hm : (⟨table.rename π, []⟩ : Memo).symbols =
          FirstTable.rename π (⟨table, []⟩ : Memo).symbols := rfl
      obtain ⟨hset, hsymbols⟩ := scanString_rename (g := g) he hm core.beyond
      have hbeyond : (core.rename π).beyond = core.beyond.map π := List.map_drop.symm
      have hnone : (g.scanString core.beyond ⟨table, []⟩).1.rename π = ∅ ↔
          (g.scanString core.beyond ⟨table, []⟩).1 = ∅ :=
        ⟨fun e => SymbolSet.rename_injective e, fun e => by rw [e, SymbolSet.rename_empty]⟩
      simp only [if_pos hx, hbeyond, hset, hsymbols, hnone, alternatives_rename, List.map_map]
      refine Prod.ext ?_ rfl
      split
      · rfl
      · rw [List.map_map]
        refine List.map_congr_left fun rhs _ => ?_
        simp only [Function.comp, Item.rename, hend]
    · simp only [if_neg hx]
      rfl

/-- **A visit of cores is renamed with the grammar.** -/
theorem Discovers.rename (h : g.Discovers k seen table last final) :
    (g.rename π).Discovers k (seen.map (Item.rename π)) (table.rename π)
      (last.map (Item.rename π)) (final.rename π) := by
  induction h with
  | stop hnone => exact .stop (by rw [List.getElem?_map, hnone, Option.map_none])
  | step hsome _ ih =>
    refine .step (by rw [List.getElem?_map, hsome, Option.map_some]) ?_
    rw [outline_rename he hend, ← List.map_append,
      distinct_map fun _ _ => @Item.rename_injective π _ _]
    exact ih

end Rename

end Grammar

end CanonicalLR
