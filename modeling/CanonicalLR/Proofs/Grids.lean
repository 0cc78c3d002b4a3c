import CanonicalLR.Proofs.Demands
import Mathlib

/-!
# Grids in which every cell has one place

A grid is a list of rows, and a row a list of cells, so a number or a symbol might stand twice in
them and what is behind would never be seen.  In a filled table that does not happen: its rows are
those of the states in their order, and no row repeats a symbol (`tidy_build`).  Hence a grid holds
exactly the entries that can be looked up (`Tidy.holds_iff`), and their number is that of the cells
that are not empty (`Tidy.size_eq`).
-/

namespace CanonicalLR

namespace Entries

variable {κ β : Type}

theorem keys_cons (e : κ × β) (es : Entries κ β) : keys (e :: es) = e.1 :: keys es := rfl

variable [DecidableEq κ] {es : Entries κ β} {k : κ} {v : β}

/-- Writing to a new key adds it at the end of the keys. -/
theorem keys_put : (put k v es).keys = if k ∈ es.keys then es.keys else es.keys ++ [k] := by
  induction es with
  | nil => rfl
  | cons e es ih =>
    unfold put
    by_cases he : e.1 = k
    · subst he
      simp [keys_cons]
    · have hk : k ≠ e.1 := fun h => he h.symm
      rw [if_neg he, keys_cons, keys_cons, ih]
      by_cases hm : k ∈ keys es <;> simp [hk, hm]

theorem mem_of_mem_put {e : κ × β} (h : e ∈ put k v es) : e = (k, v) ∨ e ∈ es := by
  induction es with
  | nil => exact .inl (List.mem_singleton.1 h)
  | cons first es ih =>
    unfold put at h
    split at h
    · exact (List.mem_cons.1 h).imp_right (List.mem_cons_of_mem _)
    · rcases List.mem_cons.1 h with rfl | h
      · exact .inr List.mem_cons_self
      · exact (ih h).imp_right (List.mem_cons_of_mem _)

end Entries

namespace Grid

variable {α : Type} {grid : Grid α} {ids : List Int} {i : Int} {x : Symbol} {v : α}

/-- Whether an entry stands in a grid, looked up or not. -/
def Holds (grid : Grid α) (i : Int) (x : Symbol) (v : α) : Prop :=
  ∃ cells, (i, cells) ∈ grid.rows ∧ (x, v) ∈ cells

/-- Whether a grid has rows with the given numbers, each once, and no row repeats a symbol. -/
structure Tidy (ids : List Int) (grid : Grid α) : Prop where
  keys : grid.rows.keys = ids
  nodup : ids.Nodup
  cells : ∀ entry ∈ grid.rows, entry.2.keys.Nodup

theorem tidy_empty : (empty : Grid α).Tidy [] :=
  ⟨rfl, List.nodup_nil, fun _ h => absurd h List.not_mem_nil⟩

namespace Tidy

theorem row_eq (h : grid.Tidy ids) {cells : Entries Symbol α} (hc : (i, cells) ∈ grid.rows) :
    grid.row i = cells := by
  have hn : grid.rows.keys.Nodup := h.keys ▸ h.nodup
  rw [row, Entries.lookup_of_mem hn hc, Option.getD_some]

theorem nodup_row (h : grid.Tidy ids) (i : Int) : (grid.row i).keys.Nodup := by
  rw [row]
  cases hl : grid.rows.lookup i with
  | none => exact List.nodup_nil
  | some cells => exact h.cells _ (Entries.mem_of_lookup hl)

/-- Every entry can be looked up. -/
theorem holds_iff (h : grid.Tidy ids) : grid.Holds i x v ↔ grid.get? i x = some v := by
  constructor
  · rintro ⟨cells, hc, hx⟩
    rw [get?, h.row_eq hc]
    exact Entries.lookup_of_mem (h.cells _ hc) hx
  · intro hget
    have hx : (x, v) ∈ grid.row i := Entries.mem_of_lookup hget
    rw [row] at hx
    cases hl : grid.rows.lookup i with
    | none =>
      rw [hl] at hx
      cases hx
    | some cells =>
      rw [hl] at hx
      exact ⟨cells, Entries.mem_of_lookup hl, hx⟩

/-- The rows are those of the numbers, in their order. -/
theorem rows_eq (h : grid.Tidy ids) : grid.rows = ids.map fun i => (i, grid.row i) := by
  have hsame : ∀ entry ∈ grid.rows, (entry.1, grid.row entry.1) = entry := by
    rintro ⟨i, cells⟩ he
    rw [h.row_eq he]
  rw [← h.keys, Entries.keys, List.map_map]
  exact (List.map_id _).symm.trans (List.map_congr_left fun entry he => (hsame entry he).symm)

theorem put (h : grid.Tidy ids) (hi : i ∈ ids) (x : Symbol) (v : α) :
    (grid.put i x v).Tidy ids where
  keys := by
    rw [Grid.put, Entries.keys_put, h.keys, if_pos hi]
  nodup := h.nodup
  cells entry he := by
    rcases Entries.mem_of_mem_put he with rfl | he
    · exact Entries.nodup_keys_put x v (h.nodup_row i)
    · exact h.cells entry he

theorem openRow (h : grid.Tidy ids) (hi : i ∉ ids) : (grid.openRow i).Tidy (ids ++ [i]) where
  keys := by
    rw [Grid.openRow, Entries.keys_put, h.keys, if_neg hi]
  nodup := by
    refine List.nodup_append.2 ⟨h.nodup, List.nodup_singleton i, ?_⟩
    rintro j hj _ hm rfl
    exact hi (List.mem_singleton.1 hm ▸ hj)
  cells entry he := by
    rcases Entries.mem_of_mem_put he with rfl | he
    · exact h.nodup_row i
    · exact h.cells entry he

/-- The cells of a row are counted by its columns, if every cell is in one of them. -/
theorem length_row (h : grid.Tidy ids) {columns : List Symbol} (hn : columns.Nodup)
    (hin : ∀ x v, grid.get? i x = some v → x ∈ columns) :
    (grid.row i).length = columns.countP fun x => (grid.get? i x).isSome := by
  have hmem : ∀ x, x ∈ (grid.row i).keys ↔
      x ∈ columns.filter fun x => (grid.get? i x).isSome := by
    intro x
    rw [← Entries.exists_lookup_iff, List.mem_filter, Option.isSome_iff_exists]
    exact ⟨fun ⟨v, hv⟩ => ⟨hin x v hv, v, hv⟩, And.right⟩
  have hperm := (List.perm_ext_iff_of_nodup (h.nodup_row i) (hn.filter _)).2 hmem
  rw [List.countP_eq_length_filter, ← hperm.length_eq, Entries.keys, List.length_map]

/-- The size of a grid is the number of its cells that are not empty. -/
theorem size_eq (h : grid.Tidy ids) {columns : List Symbol} (hn : columns.Nodup)
    (hin : ∀ i x v, grid.get? i x = some v → x ∈ columns) : grid.size =
      (ids.map fun i => columns.countP fun x => (grid.get? i x).isSome).sum := by
  have hsum : ∀ ids : List Int, (ids.map fun i => (i, grid.row i)).foldr
      (fun entry count => entry.2.length + count) 0 =
        (ids.map fun i => columns.countP fun x => (grid.get? i x).isSome).sum := by
    intro ids
    induction ids with
    | nil => rfl
    | cons i ids ih =>
      rw [List.map_cons, List.foldr_cons, ih, List.map_cons, List.sum_cons,
        h.length_row hn fun x v hv => hin i x v hv]
  rw [size, h.rows_eq]
  exact hsum ids

end Tidy

end Grid

/-! ## Filling -/

namespace Table

variable {policy : ConflictPolicy} {source : TableSource} {table next last : Table}
  {state : State} {item : Item} {items : List Item} {states : List State} {ids : List Int}

/-- Whether both parts of a table have rows with the given numbers and no cell twice. -/
structure Tidy (ids : List Int) (table : Table) : Prop where
  action : table.action.Tidy ids
  goto : table.goto.Tidy ids

theorem Tidy.write (h : table.Tidy ids) {q : Int} (hq : q ∈ ids) (d : Demand) :
    (table.write q d).Tidy ids := by
  cases d with
  | action x act => exact ⟨h.action.put hq x act, h.goto⟩
  | goto x target => exact ⟨h.action, h.goto.put hq x target⟩

/-- A visit writes one entry or none. -/
theorem eq_write_of_meet (h : table.meet policy source state item = .ok next) :
    next = table ∨ ∃ d, next = table.write state.index d := by
  unfold meet at h
  split at h
  · cases h
  · cases h
    exact .inl rfl
  · next x act _ =>
    unfold enter at h
    simp only at h
    split at h
    · split at h
      · cases h
        exact .inr ⟨.action x act, rfl⟩
      · cases h
    · cases h
      exact .inr ⟨.action x act, rfl⟩
  · next x target _ =>
    cases h
    exact .inr ⟨.goto x target, rfl⟩

theorem Tidy.meetAll (h : table.Tidy ids) (hq : state.index ∈ ids)
    (hm : table.meetAll policy source state items = .ok last) : last.Tidy ids := by
  induction items generalizing table with
  | nil =>
    cases hm
    exact h
  | cons item items ih =>
    rw [meetAll_cons] at hm
    obtain ⟨mid, hmid, hrest⟩ := exists_ok_of_bind hm
    refine ih ?_ hrest
    rcases eq_write_of_meet hmid with rfl | ⟨d, rfl⟩
    · exact h
    · exact h.write hq d

theorem Tidy.fill (h : table.Tidy ids) (hn : (ids ++ states.map (·.index)).Nodup)
    (hf : fill policy source table states = .ok last) :
    last.Tidy (ids ++ states.map (·.index)) := by
  induction states generalizing table ids with
  | nil =>
    cases hf
    rwa [List.map_nil, List.append_nil]
  | cons state states ih =>
    rw [fill_cons] at hf
    obtain ⟨mid, hmid, hrest⟩ := exists_ok_of_bind hf
    rw [List.map_cons, List.append_cons] at hn ⊢
    have hnew : state.index ∉ ids := fun hm =>
      (List.nodup_append.1 (List.nodup_append.1 hn).1).2.2 _ hm _ List.mem_cons_self rfl
    have hopen : (table.openRows state).Tidy (ids ++ [state.index]) :=
      ⟨h.action.openRow hnew, h.goto.openRow hnew⟩
    exact ih (hopen.meetAll (List.mem_append_right _ List.mem_cons_self) hmid) hn hrest

/-- A table filled from states with different numbers has their rows, and no cell twice. -/
theorem tidy_build {g : Grammar} {classes : SymbolClasses} {start : Symbol} {a : Automaton}
    (hn : (a.states.map (·.index)).Nodup) (hb : build policy g classes start a = .ok table) :
    table.Tidy (a.states.map (·.index)) := by
  have hempty : Tidy [] ⟨.empty, .empty, classes.terminals, classes.nonterminals,
      a.states.length⟩ := ⟨Grid.tidy_empty, Grid.tidy_empty⟩
  exact hempty.fill hn hb

end Table

end CanonicalLR
