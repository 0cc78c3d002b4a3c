import CanonicalLR.Proofs.Driver

/-!
# Soundness of the table

What the driver accepts is derived by the start symbol, and its reductions, read backwards, are a
rightmost derivation (`derives_of_accepts`).  Nothing is asked of FIRST and nothing of the conflict
policy: the lookaheads of an item may be wrong and one action may have replaced another, but every
entry that is left was demanded by some item, and that is enough.
-/

namespace CanonicalLR

variable {g : Grammar} {a : Automaton} {F : List Symbol → SymbolSet} {policy : ConflictPolicy}
  {table : Table}

/-- An accepting run reads a string of terminals, and its reductions backwards derive from the start
symbol what the stack spells followed by the tokens that were left. -/
theorem rightmost_of_run (wf : g.WellFormed) (hc : a.Canonical g F)
    (hs : table.Serves policy g a) {n : Nat} {stack : List Int} {γ w : List Symbol} {ks : List Int}
    (hstack : a.Spells stack γ) (hw : endMarker ∉ w)
    (h : Driver.run g table n ⟨stack, w ++ [endMarker]⟩ = .accepted ks) :
    g.AllTerminal w ∧
      ∃ ps, g.Numbers ks ps ∧ g.Rightmost ps.reverse [g.start] (γ ++ w) := by
  -- by induction on the run, from its end: only then is it known that terminals are left to read
  induction n generalizing stack γ w ks with
  | zero => cases h
  | succ n ih =>
    obtain ⟨p, below, rfl, -⟩ := hstack.path
    obtain ⟨x, rest, hx⟩ : ∃ x rest, w ++ [endMarker] = x :: rest :=
      List.exists_cons_of_ne_nil (by simp)
    rw [hx] at h
    rcases Driver.run_eq_accepted h with ⟨next, hstep, hn⟩ | ⟨k, next, rest, hstep, hn, rfl⟩ |
      ⟨hstep, rfl⟩
    · obtain ⟨t, hact, rfl⟩ := eq_of_step_shift hstep
      obtain ⟨hne, hnt, hstack'⟩ := hstack.shift wf hc hs hact
      cases w with
      | nil => exact absurd (List.cons.inj hx).1.symm hne
      | cons y w =>
        obtain ⟨rfl, rfl⟩ := List.cons.inj hx
        obtain ⟨hw', ps, hps, hr⟩ := ih hstack' (fun hm => hw (List.mem_cons_of_mem _ hm)) hn
        exact ⟨Grammar.allTerminal_cons.2 ⟨hnt, hw'⟩, ps, hps, by simpa using hr⟩
    · obtain ⟨A, rhs, top, below', t, hact, hk, hpop, hgoto, rfl⟩ := eq_of_step_reduce hstep
      obtain ⟨A', rhs', δ, hk', rfl, -⟩ := hstack.reduce hc hs hact
      cases hk.symm.trans hk'
      have hpopped := hstack.drop
      rw [hpop] at hpopped
      rw [← hx] at hn
      obtain ⟨hw', ps, hps, hr⟩ := ih (hpopped.goto hc hs hgoto) hw hn
      refine ⟨hw', (A, rhs) :: ps, hps.cons hk, ?_⟩
      rw [List.reverse_cons]
      exact hr.tail ⟨Grammar.mem_pairs_of_rule? hk, δ, w, hw', by simp, rfl⟩
    · obtain ⟨rfl, rfl⟩ := hstack.accept wf hc hs (eq_of_step_accept hstep)
      cases w with
      | nil => exact ⟨by simp, [], rfl, .refl _⟩
      | cons y w =>
        obtain ⟨rfl, -⟩ := List.cons.inj hx
        exact absurd List.mem_cons_self hw

/-- **Soundness of the generated table.**  If the driver, reading the table of a build, accepts some
tokens none of which is the end marker, then the tokens are terminals, the start symbol derives
them, and the productions of the reductions, read backwards, are a rightmost derivation of them. -/
theorem derives_of_accepts {text : String} {config : Config} {b : Build}
    (h : build text config = .ok b) {w : List Symbol} (hw : endMarker ∉ w) {ks : List Int}
    (hacc : Accepts b.listing.toGrammar b.table w ks) :
    b.listing.AllTerminal w ∧ b.listing.Derives [b.listing.start] w ∧
      ∃ ps, b.listing.Numbers ks ps ∧ b.listing.Rightmost ps.reverse [b.listing.start] w := by
  obtain ⟨wf, ha, hs⟩ := serves_of_build h
  obtain ⟨F, hc⟩ := b.listing.exists_canonical config.firstStrategy
  rw [← ha] at hc
  obtain ⟨n, hrun⟩ := hacc
  obtain ⟨hwt, ps, hps, hr⟩ := rightmost_of_run wf hc hs .bottom hw hrun
  exact ⟨hwt, hr.derives, ps, hps, hr⟩

/-- An ambiguous grammar builds under the standard choices, and what its table accepts is
derived. -/
theorem derives_of_accepts_sum : ∃ b, build "E -> E + E | i" .standard = .ok b ∧
    endMarker ∉ ["i", "+", "i"] ∧ Accepts b.listing.toGrammar b.table ["i", "+", "i"] [1, 1, 0] ∧
    b.listing.Derives [b.listing.start] ["i", "+", "i"] ∧
      ∃ ps, b.listing.Numbers [1, 1, 0] ps ∧
        b.listing.Rightmost ps.reverse [b.listing.start] ["i", "+", "i"] := by
  have hrun : (build "E -> E + E | i" .standard).toOption.map (fun b =>
      Driver.run b.listing.toGrammar b.table 9 (.start ["i", "+", "i"])) =
      some (.accepted [1, 1, 0]) := by decide +kernel
  obtain ⟨b, hb, hr⟩ := exists_ok_of_toOption hrun
  have hw : endMarker ∉ ["i", "+", "i"] := by decide
  obtain ⟨-, hd, hps⟩ := derives_of_accepts hb hw ⟨9, hr⟩
  exact ⟨b, hb, hw, ⟨9, hr⟩, hd, hps⟩

end CanonicalLR
