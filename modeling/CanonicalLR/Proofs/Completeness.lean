import CanonicalLR.Proofs.Driver

/-!
# Completeness of the table without conflicts

When clashes are errors and FIRST is the fixed point, every action that an item demands stands in
the table.  The driver then follows each rightmost derivation backwards (`accepts_of_rightmost`): it
shifts up to the end of the handle, where the item of its production asks for the reduction.  A run
being determined by its tokens, a derived string has one rightmost derivation only
(`accepts_of_derives`).

Nothing is asked of the grammar but that its table was built: nonterminals may derive nothing, be
out of reach, or derive the empty string.
-/

namespace CanonicalLR

/-- A string of terminals at the end of a concatenation lies behind a part that does not end in a
terminal. -/
theorem Grammar.exists_append_of_ends {g : Grammar} {γ w u s : List Symbol}
    (h : γ ++ w = u ++ s) (hs : g.AllTerminal s)
    (hγ : ∀ δ x, γ = δ ++ [x] → g.isNonterminal x = true) : ∃ t, u = γ ++ t ∧ w = t ++ s := by
  rcases List.append_eq_append_iff.1 h with ⟨t, hu, hw⟩ | ⟨t, rfl, rfl⟩
  · exact ⟨t, hu, hw⟩
  · rcases List.eq_nil_or_concat t with rfl | ⟨t, x, rfl⟩
    · exact ⟨[], by simp, by simp⟩
    · have hn := hγ (u ++ t) x (by simp)
      rw [hs x (by simp)] at hn
      cases hn

section Cells

variable {g : Grammar} {a : Automaton} {F : List Symbol → SymbolSet} {table : Table}
  {stack : List Int} {γ δ rhs : List Symbol} {x A : Symbol} {p : Nat}

/-- The driver shifts terminals as far as the automaton has a path. -/
theorem Automaton.Spells.shifts (hc : a.Canonical g F) (hs : table.Serves .error g a)
    (hstack : a.Spells stack γ) (hδ : g.AllTerminal δ) (hpath : a.Path 0 (γ ++ δ) p)
    (rest : List Symbol) :
    ∃ stack', a.Spells stack' (γ ++ δ) ∧ ∀ ks, AcceptsFrom g table ⟨stack', rest⟩ ks →
      AcceptsFrom g table ⟨stack, δ ++ rest⟩ ks := by
  induction δ generalizing stack γ with
  | nil => exact ⟨stack, by simpa using hstack, fun _ h => h⟩
  | cons x δ ih =>
    have hassoc : γ ++ x :: δ = γ ++ [x] ++ δ := by simp
    rw [hassoc] at hpath ⊢
    obtain ⟨r, hr, -⟩ := hpath.prefix
    obtain ⟨q, state, hq, hstate, htarget⟩ := hr.snoc
    obtain ⟨q', below, rfl, hq'⟩ := hstack.path
    obtain rfl := hq.unique hq'
    obtain ⟨i, hi, hx⟩ := (hc.moves hstate x).1 ⟨r, htarget⟩
    have hcell : table.action.get? q x = some (.shift r) :=
      hs.stands rfl q x _ ⟨state, i, hstate, hi, .shift hx (hδ x List.mem_cons_self) htarget⟩
    obtain ⟨stack', hstack', h⟩ :=
      ih (hstack.push hstate htarget) (Grammar.allTerminal_cons.1 hδ).2 hpath
    exact ⟨stack', hstack', fun ks hks => .shift (step_shift hcell) (h ks hks)⟩

/-- Where a production began before a terminal string and its right-hand side is on the stack, the
driver reduces by it. -/
theorem Automaton.Spells.step_reduce (hc : a.Canonical g F) (hs : table.Serves .error g a)
    (hstack : a.Spells stack (δ ++ rhs)) (hr : (A, rhs) ∈ g.productions.pairs)
    (h : a.Holds δ ⟨A, rhs, 0, x⟩) (rest : List Symbol) : ∃ k stack', g.rule? k = some (A, rhs) ∧
      a.Spells stack' (δ ++ [A]) ∧
      (⟨stack, x :: rest⟩ : Configuration).step g table = .reduce k ⟨stack', x :: rest⟩ := by
  obtain ⟨k, hk⟩ := Grammar.exists_ruleId? hr
  -- the handle is complete where the stack ends
  have hend := h.through hc (Nat.le_refl _)
  rw [List.take_length] at hend
  obtain ⟨q, below, state, rfl, hstate, hi⟩ := hstack.top_of_holds hend
  have hcell : table.action.get? q x = some (.reduce k) :=
    hs.stands rfl q x _ ⟨state, _, hstate, hi, .reduce (by simp [Item.next?]) hk⟩
  obtain ⟨top, below', t, hpop, hgoto, hstack'⟩ := hstack.drop.exists_goto hc hs hr h
  exact ⟨k, _, Grammar.rule?_of_ruleId? hk, hstack',
    CanonicalLR.step_reduce hcell (Grammar.rule?_of_ruleId? hk) hpop hgoto⟩

theorem Automaton.Spells.step_accept (hc : a.Canonical g F) (hs : table.Serves .error g a)
    (hstack : a.Spells stack [g.start]) :
    (⟨stack, [endMarker]⟩ : Configuration).step g table = .accept := by
  have hend : a.Holds [g.start] g.initialItem.advance := (Automaton.Holds.initial hc).advance hc rfl
  obtain ⟨q, below, state, rfl, hstate, hi⟩ := hstack.top_of_holds hend
  exact CanonicalLR.step_accept (hs.stands rfl q _ _ ⟨state, _, hstate, hi, .accept rfl rfl⟩)

end Cells

section Derivation

variable {g : Grammar} {a : Automaton} {table : Table} {ps : List (Symbol × List Symbol)}
  {stack : List Int} {γ δ s t u w rhs : List Symbol} {A : Symbol}

/-- The driver undoes a step of a rightmost derivation: with a part of the handle on the stack, it
shifts the rest and reduces. -/
theorem Automaton.Spells.undo (wf : g.WellFormed) (hc : a.Canonical g g.firstOf)
    (hs : table.Serves .error g a) (h : g.Rightmost ps [g.start] (δ ++ A :: s))
    (hr : (A, rhs) ∈ g.productions.pairs) (hs' : g.AllTerminal s) (ht : g.AllTerminal t)
    (he : δ ++ rhs = γ ++ t) (hstack : a.Spells stack γ) :
    ∃ k stack', g.rule? k = some (A, rhs) ∧ a.Spells stack' (δ ++ [A]) ∧
      ∀ ks, AcceptsFrom g table ⟨stack', s ++ [endMarker]⟩ ks →
        AcceptsFrom g table ⟨stack, t ++ s ++ [endMarker]⟩ (k :: ks) := by
  have hterm : g.augment.AllTerminal s := Grammar.allTerminal_augment_of_symbols hs' fun y hy =>
    h.derives.mem_symbols_of_start wf y (by simp [hy])
  have hbegin : a.Holds δ ⟨A, rhs, 0, Grammar.firstOrEnd s⟩ :=
    Grammar.holds_of_rightmost wf hc (h.augment_start wf) hterm
      (Grammar.mem_pairs_augment.2 (.inr hr))
  obtain ⟨p, state, hpath, -, -⟩ := hbegin.through hc (Nat.le_refl _)
  rw [List.take_length, he] at hpath
  obtain ⟨stack₁, hstack₁, hshift⟩ := hstack.shifts hc hs ht hpath (s ++ [endMarker])
  rw [← he] at hstack₁
  obtain ⟨rest, hrest⟩ : ∃ rest, s ++ [endMarker] = Grammar.firstOrEnd s :: rest := by
    cases s <;> exact ⟨_, rfl⟩
  obtain ⟨k, stack₂, hk, hstack₂, hstep⟩ := hstack₁.step_reduce hc hs hr hbegin rest
  refine ⟨k, stack₂, hk, hstack₂, fun ks hks => ?_⟩
  rw [List.append_assoc]
  apply hshift
  rw [hrest] at hks ⊢
  exact .reduce hstep hks

/-- The driver follows a rightmost derivation backwards.  The stack may hold any part of the derived
string that does not end in a terminal, with the rest of the string left to read. -/
theorem accepts_of_rightmost (wf : g.WellFormed) (hc : a.Canonical g g.firstOf)
    (hs : table.Serves .error g a) (h : g.Rightmost ps [g.start] u) (hu : u = γ ++ w)
    (hw : g.AllTerminal w) (hγ : ∀ δ x, γ = δ ++ [x] → g.isNonterminal x = true)
    (hstack : a.Spells stack γ) :
    ∃ ks, g.Numbers ks ps.reverse ∧ AcceptsFrom g table ⟨stack, w ++ [endMarker]⟩ ks := by
  -- by induction on the derivation: its last step is the next reduction
  generalize hS : [g.start] = S at h
  induction h generalizing γ w stack with
  | refl =>
    subst hS
    obtain ⟨t, ht, rfl⟩ := Grammar.exists_append_of_ends (u := [g.start]) (s := [])
      (by simpa using hu.symm) (by simp) hγ
    cases γ with
    | nil =>
      obtain rfl : t = [g.start] := ht.symm
      have hstart := hw g.start (by simp)
      rw [wf.start] at hstart
      cases hstart
    | cons y γ =>
      simp only [List.cons_append, List.cons.injEq, List.nil_eq, List.append_eq_nil_iff] at ht
      obtain ⟨rfl, rfl, rfl⟩ := ht
      exact ⟨[], rfl, .accept (hstack.step_accept hc hs)⟩
  | @tail ps r _ v u h step ih =>
    subst hS
    obtain ⟨hr, δ, s, hsterm, rfl, rfl⟩ := step
    obtain ⟨A, rhs⟩ := r
    obtain ⟨t, ht, rfl⟩ := Grammar.exists_append_of_ends hu.symm hsterm hγ
    obtain ⟨k, stack', hk, hstack', hundo⟩ :=
      hstack.undo wf hc hs h hr hsterm (Grammar.allTerminal_append.1 hw).1 ht
    obtain ⟨ks, hks, hrun⟩ : ∃ ks, g.Numbers ks ps.reverse ∧
        AcceptsFrom g table ⟨stack', s ++ [endMarker]⟩ ks := by
      refine ih (by simp) hsterm (fun δ' x e => ?_) hstack' rfl
      obtain ⟨-, hx⟩ := List.append_inj' e rfl
      cases hx
      exact Grammar.isNonterminal_of_mem hr
    refine ⟨k :: ks, ?_, hundo ks hrun⟩
    rw [List.reverse_append]
    exact hks.cons hk

end Derivation

/-- **Completeness of the exact table.**  If a build with FIRST as the fixed point and with clashes
as errors succeeds, the driver accepts every string of terminals that the start symbol derives, and
the string has exactly one rightmost derivation, the productions of the reductions read
backwards. -/
theorem accepts_of_derives {text : String} {b : Build}
    (h : build text ⟨.error, .fixedPoint⟩ = .ok b) {w : List Symbol}
    (hw : b.listing.AllTerminal w) (hd : b.listing.Derives [b.listing.start] w) :
    ∃ ks ps, Accepts b.listing.toGrammar b.table w ks ∧ b.listing.Numbers ks ps ∧
      ∀ qs, b.listing.Rightmost qs [b.listing.start] w ↔ qs = ps.reverse := by
  obtain ⟨wf, ha, hs⟩ := serves_of_build h
  have hc : b.automaton.Canonical b.listing.toGrammar b.listing.firstOf :=
    ha ▸ Grammar.canonical_fixedPoint
  -- the run follows any rightmost derivation, but there is only one run
  have follows : ∀ {qs}, b.listing.Rightmost qs [b.listing.start] w →
      ∃ ks, b.listing.Numbers ks qs.reverse ∧ Accepts b.listing.toGrammar b.table w ks :=
    fun hq => accepts_of_rightmost wf hc hs hq (γ := []) rfl hw (by simp) .bottom
  obtain ⟨ps, hps⟩ := hd.exists_rightmost hw
  obtain ⟨ks, hks, hacc⟩ := follows hps
  refine ⟨ks, ps.reverse, hacc, hks, fun qs => ?_⟩
  rw [List.reverse_reverse]
  constructor
  · intro hq
    obtain ⟨ks', hks', hacc'⟩ := follows hq
    obtain rfl := hacc.unique hacc'
    exact List.reverse_injective (hks'.unique hks)
  · rintro rfl
    exact hps

/-- A left-recursive list has one rightmost derivation, and the driver finds it. -/
theorem accepts_of_derives_list : ∃ b, build "L -> L i | i" ⟨.error, .fixedPoint⟩ = .ok b ∧
    b.listing.AllTerminal ["i", "i"] ∧ b.listing.Derives [b.listing.start] ["i", "i"] ∧
    ∃ ks ps, Accepts b.listing.toGrammar b.table ["i", "i"] ks ∧ b.listing.Numbers ks ps ∧
      ∀ qs, b.listing.Rightmost qs [b.listing.start] ["i", "i"] ↔ qs = ps.reverse := by
  have hgrammar : (build "L -> L i | i" ⟨.error, .fixedPoint⟩).toOption.map (fun b =>
      (b.listing.productions, b.listing.start)) = some ([("L", [["L", "i"], ["i"]])], "L") := by
    decide +kernel
  obtain ⟨b, hb, hg⟩ := exists_ok_of_toOption hgrammar
  obtain ⟨hp, hstart⟩ := Prod.mk.inj hg
  have hw : b.listing.AllTerminal ["i", "i"] := by
    simp [Grammar.isNonterminal, Grammar.nonterminals, Entries.keys, hp]
  have hd : b.listing.Derives [b.listing.start] ["i", "i"] := by
    have long : b.listing.Produces ["L"] ["L", "i"] :=
      ⟨"L", ["L", "i"], [], [], by rw [hp]; decide, rfl, rfl⟩
    have short : b.listing.Produces ["L", "i"] ["i", "i"] :=
      ⟨"L", ["i"], [], ["i"], by rw [hp]; decide, rfl, rfl⟩
    rw [hstart]
    exact (Relation.ReflTransGen.single long).tail short
  exact ⟨b, hb, hw, hd, accepts_of_derives hb hw hd⟩

end CanonicalLR
