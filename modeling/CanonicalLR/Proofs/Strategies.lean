import CanonicalLR.Proofs.Agreement
import CanonicalLR.Proofs.First.Guarded
import CanonicalLR.Proofs.Reading

/-!
# Where the two strategies agree

The guarded strategy can miss symbols in two ways: it does not look behind a first symbol that can
vanish, and it learns nothing from symbols under way.  Where neither can happen, its memo and that
of the fixed point strategy agree with FIRST at the end, so the automata are identical down to the
order of items, and with them everything that is made of them (`build_guarded_eq`).
-/

namespace CanonicalLR

theorem Grammar.automaton_guarded_eq {g : Grammar} (he : epsilon ∉ g.symbols) (stay : g.HeadsStay)
    (apart : g.LeftApart) : g.automaton .guarded = g.automaton .fixedPoint := by
  have guarded : (g.canonical (g.openMemo .guarded)).2.Exact g :=
    (kept_exact he stay apart).canonical exact_openMemo
  have solved : (g.canonical (g.openMemo .fixedPoint)).2.Settled g :=
    kept_settled.canonical settled_openMemo
  exact canonical_eq guarded.strings solved.strings

/-- **When the guarded strategy is exact.**  If no alternative of two or more symbols begins with
one that can vanish, and no two different symbols are mutually left-recursive, both strategies give
the same automaton, and under either policy the same build or the same error. -/
theorem build_guarded_eq {text : String} {listing : Listing} (h : Listing.read text = .ok listing)
    (stay : listing.HeadsStay) (apart : listing.LeftApart) :
    listing.automaton .guarded = listing.automaton .fixedPoint ∧
      ∀ policy, build text ⟨policy, .guarded⟩ = build text ⟨policy, .fixedPoint⟩ := by
  have same := Grammar.automaton_guarded_eq (wellFormed_of_read h).epsilon stay apart
  refine ⟨same, fun policy => ?_⟩
  unfold build
  simp only [h, Listing.analyse, same]

/-- A list whose members may end in nothing: `L` is left-recursive by itself, and `R` and `Q`, which
can vanish, begin only alternatives of one symbol. -/
theorem build_guarded_eq_list : ∃ listing,
    Listing.read "L -> L , i R | i R\nR -> Q\nQ -> q |" = .ok listing ∧
    listing.HeadsStay ∧ listing.LeftApart ∧
    listing.automaton .guarded = listing.automaton .fixedPoint ∧
    ∀ policy, build "L -> L , i R | i R\nR -> Q\nQ -> q |" ⟨policy, .guarded⟩ =
      build "L -> L , i R | i R\nR -> Q\nQ -> q |" ⟨policy, .fixedPoint⟩ := by
  have hgrammar : (Listing.read "L -> L , i R | i R\nR -> Q\nQ -> q |").toOption.map (fun l =>
      (l.productions, decide (epsilon ∈ l.firstOf ["L"]), decide (epsilon ∈ l.firstOf ["i"]))) =
      some ([("L", [["L", ",", "i", "R"], ["i", "R"]]), ("R", [["Q"]]), ("Q", [["q"], []])],
        false, false) := by decide +kernel
  obtain ⟨listing, hread, hp⟩ := exists_ok_of_toOption hgrammar
  simp only [Prod.mk.injEq, decide_eq_false_iff_not] at hp
  obtain ⟨hpairs, hL, hi⟩ := hp
  have he := (wellFormed_of_read hread).epsilon
  have stay : listing.HeadsStay := by
    intro A B rest hr hne hvanish
    have hfirst : epsilon ∈ listing.firstOf [B] :=
      Grammar.mem_firstOf_of_derives hvanish (SymbolSet.mem_singleton.2 rfl)
    have hB : B = "L" ∨ B = "i" ∨ rest = [] := by
      rw [hpairs] at hr
      simp [Productions.pairs] at hr
      tauto
    rcases hB with rfl | rfl | rfl
    · exact hL hfirst
    · exact hi hfirst
    · exact hne rfl
  have apart : listing.LeftApart := by
    refine Grammar.leftApart_of_rank
      (fun x => if x = "L" then 3 else if x = "R" then 2 else if x = "Q" then 1 else 0) ?_
    rintro A y ⟨rest, hr⟩
    rw [hpairs] at hr
    simp [Productions.pairs] at hr
    rcases hr with ⟨rfl, rfl, -⟩ | ⟨rfl, rfl, -⟩ | ⟨rfl, rfl, -⟩ | ⟨rfl, rfl, -⟩
    · exact .inl rfl
    · exact .inr (by decide)
    · exact .inr (by decide)
    · exact .inr (by decide)
  exact ⟨listing, hread, stay, apart, build_guarded_eq hread stay apart⟩

/-- The first condition is needed: behind `A`, which can vanish, the guarded strategy does not see
that `S` can begin with `b`. -/
example : (build "T -> S S\nS -> A b\nA -> a |" ⟨.error, .guarded⟩).toOption.map (·.automaton) ≠
    (build "T -> S S\nS -> A b\nA -> a |" ⟨.error, .fixedPoint⟩).toOption.map (·.automaton) := by
  decide +kernel

end CanonicalLR
