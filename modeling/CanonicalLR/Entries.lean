/-!
# Lists in order of arrival

Answers show the order in which things first appeared: the nonterminals of a grammar, the
transitions of a state, the cells of a table row.  `distinct` keeps the first occurrence of each
member of a list.  `Entries` are key-value pairs in order of arrival; writing to a key that is
present changes its value and moves nothing, and writing to a new key appends it.
-/

namespace CanonicalLR

variable {α κ β : Type}

/-- The members of a list in order of first appearance, each once. -/
def distinct [DecidableEq α] : List α → List α
  | [] => []
  | x :: xs => x :: (distinct xs).filter (· ≠ x)

theorem mem_distinct [DecidableEq α] {x : α} {xs : List α} : x ∈ distinct xs ↔ x ∈ xs := by
  induction xs with
  | nil => simp [distinct]
  | cons y ys ih =>
    by_cases h : x = y <;> simp [distinct, ih, h]

theorem nodup_distinct [DecidableEq α] (xs : List α) : (distinct xs).Nodup := by
  induction xs with
  | nil => simp [distinct]
  | cons y ys ih =>
    rw [distinct, List.nodup_cons]
    exact ⟨by simp, ih.filter _⟩

theorem distinct_of_nodup [DecidableEq α] {xs : List α} (h : xs.Nodup) : distinct xs = xs := by
  induction xs with
  | nil => rfl
  | cons x xs ih =>
    rw [List.nodup_cons] at h
    rw [distinct, ih h.2, List.filter_eq_self.2]
    intro y hy
    have hne : y ≠ x := fun e => h.1 (e ▸ hy)
    simpa using hne

/-- One more member of a list appears for the first time, or has appeared. -/
theorem distinct_concat [DecidableEq α] (xs : List α) (y : α) :
    distinct (xs ++ [y]) = if y ∈ xs then distinct xs else distinct xs ++ [y] := by
  induction xs with
  | nil => simp [distinct]
  | cons x xs ih =>
    rw [List.cons_append, distinct, ih, distinct]
    by_cases hx : y = x
    · subst hx
      split <;> simp
    · by_cases hy : y ∈ xs <;> simp [hx, hy]

theorem distinct_map [DecidableEq α] [DecidableEq β] {f : α → β}
    (hf : ∀ x y, f x = f y → x = y) (xs : List α) :
    distinct (xs.map f) = (distinct xs).map f := by
  induction xs with
  | nil => rfl
  | cons x xs ih =>
    rw [List.map_cons, distinct, distinct, ih, List.map_cons, List.filter_map]
    congr 2
    refine List.filter_congr fun y _ => ?_
    by_cases h : y = x
    · simp [h]
    · have hne : f y ≠ f x := fun e => h (hf y x e)
      simp [h, hne]

/-- Key-value pairs in order of arrival. -/
abbrev Entries (κ β : Type) := List (κ × β)

namespace Entries

/-- Writes a value: in place if the key is present, at the end otherwise. -/
def put [DecidableEq κ] (k : κ) (v : β) : Entries κ β → Entries κ β
  | [] => [(k, v)]
  | e :: es => if e.1 = k then (k, v) :: es else e :: put k v es

/-- The pairs written one after the other. -/
def ofList [DecidableEq κ] (pairs : List (κ × β)) : Entries κ β :=
  pairs.foldl (fun es e => put e.1 e.2 es) []

/-- The keys in order of arrival. -/
def keys (es : Entries κ β) : List κ := es.map (·.1)

theorem lookup_cons [DecidableEq κ] (k : κ) (e : κ × β) (es : Entries κ β) :
    List.lookup k (e :: es) = if k = e.1 then some e.2 else List.lookup k es := by
  obtain ⟨a, b⟩ := e
  rw [List.lookup_cons]
  by_cases h : k = a
  · simp [h]
  · rw [if_neg h, beq_eq_false_iff_ne.2 h]

/-- After a write the key has the new value and every other key the value it had. -/
theorem lookup_put [DecidableEq κ] (k k' : κ) (v : β) (es : Entries κ β) :
    (put k v es).lookup k' = if k' = k then some v else es.lookup k' := by
  induction es with
  | nil => rw [put, lookup_cons]
  | cons e es ih =>
    unfold put
    split
    · next h => subst h; rw [lookup_cons, lookup_cons]; split <;> simp_all
    · next h =>
      rw [lookup_cons, ih, lookup_cons]
      split
      · next hk => subst hk; rw [if_neg h]
      · rfl

/-- A written key is among the keys, and no other key comes or goes. -/
theorem mem_keys_put [DecidableEq κ] {k k' : κ} {v : β} {es : Entries κ β} :
    k' ∈ (put k v es).keys ↔ k' = k ∨ k' ∈ es.keys := by
  induction es with
  | nil => simp [put, keys]
  | cons e es ih =>
    unfold put
    split
    · next h => subst h; simp [keys]
    · simp only [keys, List.map_cons, List.mem_cons] at ih ⊢
      rw [ih, or_left_comm]

/-- Writing keeps the keys apart. -/
theorem nodup_keys_put [DecidableEq κ] (k : κ) (v : β) {es : Entries κ β} (h : es.keys.Nodup) :
    (put k v es).keys.Nodup := by
  induction es with
  | nil => simp [put, keys]
  | cons e es ih =>
    unfold put
    simp only [keys, List.map_cons, List.nodup_cons] at h
    split
    · next hk => subst hk; simpa [keys] using h
    · next hk =>
      have hn : (put k v es).keys.Nodup := ih h.2
      refine List.nodup_cons.2 ⟨fun hm => ?_, hn⟩
      rcases mem_keys_put.1 hm with h' | h'
      · exact hk h'
      · exact h.1 h'

theorem nodup_keys_ofList [DecidableEq κ] (pairs : List (κ × β)) : (ofList pairs).keys.Nodup := by
  have step : ∀ (ps : List (κ × β)) (es : Entries κ β), es.keys.Nodup →
      (ps.foldl (fun es e => put e.1 e.2 es) es).keys.Nodup := by
    intro ps
    induction ps with
    | nil => intro es h; exact h
    | cons p ps ih => intro es h; exact ih _ (nodup_keys_put p.1 p.2 h)
  exact step pairs [] (by simp [keys])

end Entries

end CanonicalLR
