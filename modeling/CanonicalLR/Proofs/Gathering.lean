import CanonicalLR.Proofs.Reading

/-!
# Gathering what stands together

The pairs of a text are gathered by left-hand side, so the rules of its lines may stand in another
order than the productions.  The pairs of the productions themselves stand together already: they
are gathered to the same productions (`Productions.ofPairs_pairs`), and each is numbered by its
position (`Grammar.numbered_pairs`).  So the listing of the pairs of a grammar is the listing of the
grammar (`Listing.ofPairs_pairs`).
-/

namespace CanonicalLR

/-- Repetitions at the beginning of a list are one member. -/
theorem distinct_replicate_append {α : Type} [DecidableEq α] (x : α) (n : Nat) (ys : List α) :
    distinct (List.replicate (n + 1) x ++ ys) = x :: (distinct ys).filter (· ≠ x) := by
  induction n with
  | zero => rfl
  | succ n ih =>
    rw [List.replicate_succ, List.cons_append, distinct, ih]
    simp

namespace Productions

variable {ps : Productions} {A : Symbol} {rhs : List Symbol} {bodies : List (List Symbol)} {n : Nat}

theorem pairs_cons : pairs ((A, bodies) :: ps) = bodies.map (A, ·) ++ ps.pairs := rfl

theorem map_fst_block : (bodies.map (A, ·)).map (·.1) = List.replicate bodies.length A := by
  rw [List.map_map]
  exact List.map_const'

/-! ## Gathered again -/

theorem ne_nil_of_mem_ofPairs {given : List (Symbol × List Symbol)}
    {entry : Symbol × List (List Symbol)} (h : entry ∈ ofPairs given) : entry.2 ≠ [] := by
  obtain ⟨lhs, hl, rfl⟩ := List.mem_map.1 h
  obtain ⟨pair, hp, rfl⟩ := List.mem_map.1 (mem_distinct.1 hl)
  refine List.ne_nil_of_mem (a := pair.2) (List.mem_map_of_mem ?_)
  exact List.mem_filter.2 ⟨hp, by simp⟩

/-- Pairs of one nonterminal at the beginning, which does not occur later, make the first entry. -/
theorem ofPairs_block {given : List (Symbol × List Symbol)} (hne : bodies ≠ [])
    (hA : ∀ pair ∈ given, pair.1 ≠ A) :
    ofPairs (bodies.map (A, ·) ++ given) = (A, bodies) :: ofPairs given := by
  have hkeys : distinct ((bodies.map (A, ·) ++ given).map (·.1)) =
      A :: distinct (given.map (·.1)) := by
    obtain ⟨body, others, rfl⟩ := List.exists_cons_of_ne_nil hne
    -- the later left-hand sides are others, so leaving this one out leaves them as they are
    rw [List.map_append, map_fst_block, List.length_cons, distinct_replicate_append,
      List.filter_eq_self.2]
    intro lhs hl
    obtain ⟨pair, hp, rfl⟩ := List.mem_map.1 (mem_distinct.1 hl)
    simpa using hA pair hp
  have hown : (bodies.map (A, ·) ++ given).filter (·.1 = A) = bodies.map (A, ·) := by
    rw [List.filter_append, List.filter_eq_self.2 (by simp),
      List.filter_eq_nil_iff.2 (by simpa using hA), List.append_nil]
  have hothers : ∀ lhs ∈ distinct (given.map (·.1)),
      (bodies.map (A, ·) ++ given).filter (·.1 = lhs) = given.filter (·.1 = lhs) := by
    intro lhs hl
    obtain ⟨pair, hp, rfl⟩ := List.mem_map.1 (mem_distinct.1 hl)
    rw [List.filter_append, List.filter_eq_nil_iff.2 (by simpa using fun _ _ => (hA pair hp).symm),
      List.nil_append]
  have hbodies : (bodies.map (A, ·)).map (·.2) = bodies := by
    rw [List.map_map]
    exact List.map_id bodies
  rw [ofPairs, hkeys, List.map_cons, hown, hbodies, ofPairs]
  congr 1
  exact List.map_congr_left fun lhs hl => by rw [hothers lhs hl]

/-- The first pair of a text is that of the first production. -/
theorem exists_pairs_ofPairs_cons (first : Symbol × List Symbol)
    (rest : List (Symbol × List Symbol)) :
    ∃ others, (ofPairs (first :: rest)).pairs = first :: others := by
  have hown : (first :: rest).filter (·.1 = first.1) = first :: rest.filter (·.1 = first.1) :=
    List.filter_cons_of_pos (by simp)
  rw [ofPairs, List.map_cons, distinct, List.map_cons, hown]
  exact ⟨_, rfl⟩

/-- Productions are gathered from their pairs, if every nonterminal has an alternative. -/
theorem ofPairs_pairs (hn : ps.keys.Nodup) (hne : ∀ entry ∈ ps, entry.2 ≠ []) :
    ofPairs ps.pairs = ps := by
  induction ps with
  | nil => rfl
  | cons entry ps ih =>
    obtain ⟨A, bodies⟩ := entry
    obtain ⟨hA, hkeys⟩ := List.nodup_cons.1 hn
    have hapart : ∀ pair ∈ pairs ps, pair.1 ≠ A := by
      rintro pair hp rfl
      exact hA (mem_keys_of_mem_pairs hp)
    have hrest := ih hkeys fun entry he => hne entry (List.mem_cons_of_mem _ he)
    rw [pairs_cons, ofPairs_block (hne _ List.mem_cons_self) hapart, hrest]

/-! ## Numbered again -/

/-- The number of a pair, by its position. -/
theorem getElem?_numbered {earlier : List Symbol} {given : List (Symbol × List Symbol)} :
    (ps.numbered earlier given)[n]? = given[n]?.map fun pair =>
      ⟨ps.offset pair.1 + (((given.take n).map (·.1)).count pair.1 + earlier.count pair.1),
        pair.1, pair.2⟩ := by
  induction given generalizing earlier n with
  | nil => rfl
  | cons first given ih =>
    cases n with
    | zero => simp [numbered]
    | succ n =>
      rw [numbered, List.getElem?_cons_succ, List.getElem?_cons_succ, ih]
      congr 1
      funext pair
      rw [List.take_succ_cons, List.map_cons, List.count_cons, List.count_cons]
      congr 2
      omega

/-- Before a pair stand those of the earlier nonterminals and some of its own nonterminal. -/
theorem offset_add_count (hn : ps.keys.Nodup) (h : ps.pairs[n]? = some (A, rhs)) :
    ps.offset A + ((ps.pairs.take n).map (·.1)).count A = n := by
  induction ps generalizing n with
  | nil => cases h
  | cons entry ps ih =>
    obtain ⟨B, bodies⟩ := entry
    obtain ⟨hB, hkeys⟩ := List.nodup_cons.1 hn
    rw [pairs_cons] at h ⊢
    have hlen : (bodies.map (B, ·)).length = bodies.length := List.length_map _
    -- the pair belongs to the first entry, or stands behind all pairs of that entry
    rcases Nat.lt_or_ge n bodies.length with hlt | hge
    · rw [List.getElem?_append_left (by rwa [hlen]), List.getElem?_map] at h
      obtain ⟨body, -, he⟩ := Option.map_eq_some_iff.1 h
      cases he
      rw [List.take_append_of_le_length (by rw [hlen]; exact hlt.le), ← List.map_take,
        map_fst_block, List.count_replicate_self, List.length_take, offset, if_pos rfl]
      omega
    · rw [List.getElem?_append_right (by rwa [hlen]), hlen] at h
      have hne : B ≠ A := by
        rintro rfl
        exact hB (mem_keys_of_mem_pairs (List.mem_of_getElem? h))
      have hrest := ih hkeys h
      rw [List.take_append, List.take_of_length_le (by rwa [hlen]), hlen, List.map_append,
        map_fst_block, List.count_append, List.count_replicate, offset, if_neg hne]
      simp only [beq_iff_eq, hne, if_false]
      omega

end Productions

/-- The pairs of a grammar are numbered by position, as its productions are. -/
theorem Grammar.numbered_pairs (g : Grammar) :
    g.productions.numbered [] g.productions.pairs = g.flattened := by
  refine List.ext_getElem? fun n => ?_
  rw [flattened_getElem?, Productions.getElem?_numbered]
  refine Option.map_congr fun pair hp => ?_
  have hcount := Productions.offset_add_count g.nodup hp
  rw [List.count_nil, Nat.add_zero, hcount]

theorem Grammar.map_flattened (g : Grammar) :
    g.flattened.map (fun rule => (rule.lhs, rule.rhs)) = g.productions.pairs := by
  rw [← numbered_pairs, Productions.map_numbered]

/-- The listing of the pairs of a grammar, if every nonterminal has an alternative. -/
theorem Listing.ofPairs_pairs {g : Grammar} (hne : ∀ entry ∈ g.productions, entry.2 ≠ []) :
    Listing.ofPairs g.productions.pairs g.start = .ofGrammar g := by
  have hproductions : Productions.ofPairs g.productions.pairs = g.productions :=
    Productions.ofPairs_pairs g.nodup hne
  have hgrammar : Grammar.ofPairs g.productions.pairs g.start = g := by
    cases g
    simp only [Grammar.ofPairs, hproductions]
  rw [Listing.ofPairs, hproductions, g.numbered_pairs, hgrammar, ofGrammar]

/-- The nonterminals of a listing stand in the order of the productions. -/
theorem Listing.nonterminals_classes_ofPairs (given : List (Symbol × List Symbol))
    (start : Symbol) :
    (Listing.ofPairs given start).classes.nonterminals = (Productions.ofPairs given).keys := by
  rw [classes_ofPairs, Productions.keys_ofPairs]

end CanonicalLR
