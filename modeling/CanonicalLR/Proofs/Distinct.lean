import CanonicalLR.Entries
import Mathlib.Data.List.Basic

/-!
# Lists in order of first appearance

`distinct` goes well with what lists are made of: leaving members out (`distinct_filter`), putting
two lists together (`distinct_append`), and computing from each member
(`distinct_filterMap_distinct`).
-/

namespace CanonicalLR

variable {α β : Type} [DecidableEq α] [DecidableEq β]

theorem distinct_filter (p : α → Bool) (xs : List α) :
    distinct (xs.filter p) = (distinct xs).filter p := by
  induction xs with
  | nil => rfl
  | cons x xs ih =>
    by_cases hx : p x = true
    · rw [List.filter_cons_of_pos hx, distinct, ih, distinct, List.filter_cons_of_pos hx,
        List.filter_filter, List.filter_filter]
      simp only [Bool.and_comm]
    · rw [List.filter_cons_of_neg hx, ih, distinct, List.filter_cons_of_neg hx, List.filter_filter]
      refine List.filter_congr fun y _ => ?_
      by_cases hy : y = x
      · simp [hy, hx]
      · simp [hy]

theorem distinct_append (xs ys : List α) :
    distinct (xs ++ ys) = distinct xs ++ (distinct ys).filter fun y => !xs.contains y := by
  induction xs with
  | nil => simp [distinct]
  | cons x xs ih =>
    rw [List.cons_append, distinct, ih, distinct, List.filter_append, List.filter_filter,
      List.cons_append]
    congr 2
    refine List.filter_congr fun y _ => ?_
    simp

theorem distinct_append_of_subset {xs ys : List α} (h : ∀ y ∈ ys, y ∈ xs) :
    distinct (xs ++ ys) = distinct xs := by
  rw [distinct_append, List.filter_eq_nil_iff.2, List.append_nil]
  intro y hy
  simpa using h y (mem_distinct.1 hy)

/-- Repetitions in the second list do not matter. -/
theorem distinct_append_congr {xs ys ys' : List α} (h : distinct ys = distinct ys') :
    distinct (xs ++ ys) = distinct (xs ++ ys') := by
  rw [distinct_append, h, distinct_append]

theorem distinct_append_distinct (xs ys : List α) :
    distinct (distinct xs ++ ys) = distinct (xs ++ ys) := by
  rw [distinct_append, distinct_of_nodup (nodup_distinct xs), distinct_append]
  congr 1
  refine List.filter_congr fun y _ => ?_
  simp [mem_distinct]

/-- Repetitions do not matter for what follows from the members. -/
theorem distinct_filterMap_distinct (f : α → Option β) (xs : List α) :
    distinct ((distinct xs).filterMap f) = distinct (xs.filterMap f) := by
  induction xs with
  | nil => rfl
  | cons x xs ih =>
    cases hx : f x with
    | none =>
      have hall : ((distinct xs).filter (· ≠ x)).filterMap f = (distinct xs).filterMap f := by
        rw [List.filterMap_filter]
        refine List.filterMap_congr fun y _ => ?_
        by_cases hy : y = x
        · simp [hy, hx]
        · simp [hy]
      rw [distinct, List.filterMap_cons_none hx, List.filterMap_cons_none hx, hall, ih]
    | some y =>
      -- what the removed members give is removed anyway
      have hall : (((distinct xs).filter (· ≠ x)).filterMap f).filter (· ≠ y) =
          ((distinct xs).filterMap f).filter (· ≠ y) := by
        rw [List.filterMap_filter, List.filter_filterMap, List.filter_filterMap]
        refine List.filterMap_congr fun z _ => ?_
        by_cases hz : z = x
        · simp [hz, hx, Option.filter]
        · simp [hz]
      rw [distinct, List.filterMap_cons_some hx, List.filterMap_cons_some hx, distinct, distinct,
        ← distinct_filter, hall, distinct_filter, ih]

theorem distinct_map_distinct (f : α → β) (xs : List α) :
    distinct ((distinct xs).map f) = distinct (xs.map f) := by
  have h := distinct_filterMap_distinct (some ∘ f) xs
  simpa only [List.filterMap_eq_map] using h

/-- A block of copies appears where its first member appears. -/
theorem distinct_flatMap_const {α γ : Type} {ls : List γ} (hls : ls ≠ []) (f : α → β)
    (xs : List α) :
    distinct (xs.flatMap fun x => ls.map fun _ => f x) = distinct (xs.map f) := by
  have block : ∀ y : β, distinct (ls.map fun _ => y) = [y] := by
    intro y
    obtain ⟨l, ls, rfl⟩ := List.exists_cons_of_ne_nil hls
    rw [List.map_cons, distinct, List.filter_eq_nil_iff.2]
    intro z hz
    obtain ⟨_, _, rfl⟩ := List.mem_map.1 (mem_distinct.1 hz)
    simp
  induction xs with
  | nil => rfl
  | cons x xs ih =>
    rw [List.flatMap_cons, ← distinct_append_distinct, block, List.map_cons,
      distinct_append_congr ih]
    rfl

end CanonicalLR
