import CanonicalLR.Proofs.Path
import CanonicalLR.Proofs.Reading

/-!
# Valid items

An item `[A -> α . β, a]` is valid for a string `γ` when a rightmost derivation from the augmented
start reaches `δ A w` with `γ = δ α` and `a` the first symbol of `w` followed by the end marker.

`holds_of_valid`: a canonical automaton under FIRST has a path that spells `γ` to every item that
is valid for `γ`.  `valid_of_path`: if every nonterminal derives a string of terminals, it has no
other items.  Together they are the theorem on viable prefixes, `path_iff_valid`.
-/

namespace CanonicalLR

namespace Grammar

/-- Whether every nonterminal derives a string of terminals. -/
def Productive (g : Grammar) : Prop :=
  ∀ A, g.isNonterminal A = true → ∃ w, g.AllTerminal w ∧ g.Derives [A] w

/-- The first symbol of a string that is followed by the end marker. -/
def firstOrEnd (w : List Symbol) : Symbol := w.headD endMarker

/-- Whether an item is valid for a string: with `i = [A -> α . β, a]`, the string is `δ α`, the
start derives `δ A w` and then `δ α β w` by rightmost steps, `w` is a string of terminals, and `a`
is the first symbol of `w` followed by the end marker. -/
def Valid (g : Grammar) (γ : List Symbol) (i : Item) : Prop :=
  i.dot ≤ i.rhs.length ∧ ∃ δ w ps, γ = δ ++ i.rhs.take i.dot ∧ g.AllTerminal w ∧
    g.Rightmost ps [g.start] (δ ++ i.lhs :: w) ∧
    g.RightmostStep (i.lhs, i.rhs) (δ ++ i.lhs :: w) (δ ++ i.rhs ++ w) ∧
    i.lookahead = firstOrEnd w

variable {g : Grammar} {a : Automaton} {u v w γ δ : List Symbol} {A x : Symbol}
  {ps : List (Symbol × List Symbol)} {i j : Item}

/-! ## Symbols of derived strings -/

theorem Derives.mem_symbols (h : g.Derives u v) (hu : ∀ x ∈ u, x ∈ g.symbols) :
    ∀ x ∈ v, x ∈ g.symbols := by
  induction h with
  | refl => exact hu
  | tail _ step ih =>
    obtain ⟨A, rhs, p, s, hr, rfl, rfl⟩ := step
    intro x hx
    simp only [List.mem_append, List.mem_cons] at hx ih
    rcases hx with (hx | hx) | hx
    · exact ih x (.inl hx)
    · exact mem_symbols_of_mem hr hx
    · exact ih x (.inr (.inr hx))

theorem WellFormed.start_mem (wf : g.WellFormed) : g.start ∈ g.symbols :=
  Grammar.mem_symbols.2 (.inl wf.start)

theorem Derives.mem_symbols_of_start (wf : g.WellFormed) (h : g.Derives [g.start] u) :
    ∀ x ∈ u, x ∈ g.symbols :=
  h.mem_symbols fun _ hy => List.mem_singleton.1 hy ▸ wf.start_mem

/-- Whatever the augmented start derives in at least one step consists of symbols of the grammar. -/
theorem mem_symbols_of_rightmost (wf : g.WellFormed)
    (h : g.augment.Rightmost ps [g.augmentedStart] u) (hx : x ∈ u) (hne : x ≠ g.augmentedStart) :
    x ∈ g.symbols := by
  rcases h.of_augmentedStart wf with ⟨-, rfl⟩ | ⟨qs, -, h⟩
  · exact absurd (List.mem_singleton.1 hx) hne
  · exact h.derives.mem_symbols_of_start wf x hx

theorem mem_symbols_of_augment {rhs : List Symbol} (wf : g.WellFormed)
    (hr : (A, rhs) ∈ g.augment.productions.pairs) (hx : x ∈ rhs) : x ∈ g.symbols := by
  rcases mem_pairs_augment.1 hr with e | hr
  · cases e
    exact List.mem_singleton.1 hx ▸ wf.start_mem
  · exact Grammar.mem_symbols_of_mem hr hx

/-- A symbol after a dot is one of the grammar. -/
theorem IsItem.mem_symbols (wf : g.WellFormed) (h : g.IsItem i) (hx : i.next? = some x) :
    x ∈ g.symbols :=
  mem_symbols_of_augment wf h.rule (List.mem_of_getElem? hx)

/-- A string of symbols of the grammar derives the same by rightmost steps in both grammars. -/
theorem rightmost_augment_iff (hu : ∀ x ∈ u, x ∈ g.symbols) :
    g.augment.Rightmost ps u v ↔ g.Rightmost ps u v :=
  rightmost_augment fun hm => augmentedStart_not_mem (hu _ hm)

/-- A string of terminals that the augmented start derives after some `A`, and the end marker, are
made of symbols that are neither `ε` nor nonterminals. -/
theorem firstOrEnd_of_rightmost (wf : g.WellFormed)
    (h : g.augment.Rightmost ps [g.augmentedStart] (δ ++ A :: w)) (hw : g.augment.AllTerminal w) :
    firstOrEnd w ≠ epsilon ∧ g.isNonterminal (firstOrEnd w) = false := by
  cases w with
  | nil =>
    refine ⟨by decide, Bool.eq_false_iff.2 fun hn => ?_⟩
    exact wf.endMarker (Grammar.mem_symbols.2 (.inl hn))
  | cons y w =>
    obtain ⟨ht, hn⟩ := allTerminal_augment.1 hw
    have hy : y ∈ g.symbols := by
      refine mem_symbols_of_rightmost wf h (by simp) ?_
      rintro rfl
      exact hn List.mem_cons_self
    exact ⟨fun e => wf.epsilon (e ▸ hy), ht y List.mem_cons_self⟩

/-! ## Lookaheads -/

theorem mem_firstOf_terminal (hx : g.isNonterminal x = false) {t : Symbol} :
    t ∈ g.firstOf [x] ↔ t = x := by
  rw [firstOf, mem_firstUnder_singleton, look_of_not_isNonterminal firstStage_solveFirst.keys hx,
    SymbolSet.mem_singleton]

/-- If `β x` derives `w`, then FIRST of `β` and the lookahead of `x` holds that of `w`. -/
theorem firstOrEnd_mem_firstOf (wf : g.WellFormed) {β : List Symbol}
    {rs : List (Symbol × List Symbol)}
    (hβ : ∀ y ∈ β, y ∈ g.symbols) {t : List Symbol} (ht : g.augment.AllTerminal t)
    (htn : g.isNonterminal (firstOrEnd t) = false) (hw : g.augment.AllTerminal w)
    (h : g.augment.Rightmost rs (β ++ t) w) : firstOrEnd w ∈ g.firstOf (β ++ [firstOrEnd t]) := by
  obtain ⟨w₁, w₂, qs₁, qs₂, rfl, h₁, h₂, -⟩ := h.split
  obtain rfl := h₂.derives.eq_of_allTerminal ht
  have d : g.Derives β w₁ := ((rightmost_augment_iff hβ).1 h₁).derives
  rw [firstOf, mem_firstUnder_append]
  cases w₁ with
  | nil =>
    refine .inr ⟨mem_firstOf_of_derives d (SymbolSet.mem_singleton.2 rfl), ?_⟩
    exact (mem_firstOf_terminal htn).2 rfl
  | cons y w₁ =>
    have hy : y ∈ g.symbols := d.mem_symbols hβ y List.mem_cons_self
    have hyt : g.isNonterminal y = false := (allTerminal_augment.1 hw).1 y (by simp)
    have hne : y ≠ epsilon := fun e => wf.epsilon (e ▸ hy)
    refine .inl ⟨mem_firstOf_of_derives d (mem_firstUnder_cons.2 (.inl ⟨?_, hne⟩)), hne⟩
    exact mem_firstUnder_singleton.1 ((mem_firstOf_terminal hyt).2 rfl)

/-- In a productive grammar every string derives a string of terminals. -/
theorem Productive.exists_derives (prod : g.Productive) (u : List Symbol) :
    ∃ w, g.AllTerminal w ∧ g.Derives u w := by
  refine exists_derives_allTerminal fun y _ => ?_
  cases hy : g.isNonterminal y with
  | true => exact prod y hy
  | false => exact ⟨[y], by simp [hy], .refl⟩

/-- In a productive grammar a string that begins with a terminal by derivation derives a string of
terminals that begins with it. -/
theorem exists_rightmost_of_begins (prod : g.Productive) {β : List Symbol} {t : Symbol}
    (hne : t ≠ epsilon) (h : g.Begins β t) :
    ∃ w rs, g.AllTerminal (t :: w) ∧ g.Rightmost rs β (t :: w) := by
  obtain ⟨-, hn, v, d⟩ := h.resolve_left fun h => hne h.1
  obtain ⟨w, hw, dw⟩ := prod.exists_derives v
  have hall : g.AllTerminal (t :: w) := allTerminal_cons.2 ⟨hn, hw⟩
  have dt : g.Derives (t :: v) (t :: w) := Derives.append (u := [t]) .refl dw
  have dw : g.Derives β (t :: w) := d.trans dt
  obtain ⟨rs, h⟩ := dw.exists_rightmost hall
  exact ⟨w, rs, hall, h⟩

/-! ## Valid items are in the automaton -/

/-- If a rightmost derivation reaches `δ A w`, the items of `A` stand where `δ` leads. -/
theorem holds_of_rightmost (wf : g.WellFormed) (hc : a.Canonical g g.firstOf)
    (h : g.augment.Rightmost ps [g.augmentedStart] (δ ++ A :: w)) (hw : g.augment.AllTerminal w)
    {rhs : List Symbol} (hr : (A, rhs) ∈ g.augment.productions.pairs) :
    a.Holds δ ⟨A, rhs, 0, firstOrEnd w⟩ := by
  -- by induction on the number of steps: `A` was introduced by an earlier production
  induction hn : ps.length using Nat.strongRecOn generalizing ps δ A w rhs with
  | _ n ih =>
    subst hn
    have hend := firstOrEnd_of_rightmost wf h hw
    rcases h.ancestor (isNonterminal_of_mem hr) with
      ⟨-, rfl, rfl, rfl⟩ | ⟨qs, B, α, β, δ', t, rs, hlt, hq, hB, ht, rfl, hβ⟩
    · have he : (g.augmentedStart, rhs) = (g.augmentedStart, [g.start]) :=
        (mem_pairs_augment.1 hr).resolve_right fun hr =>
          absurd List.mem_cons_self (augmentedStart_not_mem_of_mem hr)
      cases he
      exact .initial hc
    · have hsym : ∀ y ∈ α ++ A :: β, y ∈ g.symbols := fun y hy => mem_symbols_of_augment wf hB hy
      have hr : (A, rhs) ∈ g.productions.pairs := by
        refine (mem_pairs_augment.1 hr).resolve_left fun e => ?_
        cases e
        exact augmentedStart_not_mem (hsym _ (by simp))
      have hbefore := (ih qs.length hlt hq ht hB rfl).through hc (n := α.length) (by simp)
      rw [List.take_left] at hbefore
      refine hbefore.predicts hc ⟨A, rhs, firstOrEnd w, ?_, hr, ?_, hend.1, rfl⟩
      · simp [Item.next?]
      · have hbeyond : (⟨B, α ++ A :: β, α.length, firstOrEnd t⟩ : Item).beyond = β := by
          simp [Item.beyond, List.drop_append]
        rw [hbeyond]
        refine firstOrEnd_mem_firstOf wf (fun y hy => hsym y (by simp [hy])) ht ?_ hw hβ
        exact (firstOrEnd_of_rightmost wf hq ht).2

theorem holds_of_valid (wf : g.WellFormed) (hc : a.Canonical g g.firstOf)
    (h : g.augment.Valid γ i) : a.Holds γ i := by
  obtain ⟨hdot, δ, w, ps, rfl, hw, hps, hstep, hl⟩ := h
  have hbegin := holds_of_rightmost wf hc hps hw hstep.1
  have hthrough := hbegin.through hc hdot
  rwa [← hl] at hthrough

/-! ## Items of the automaton are valid -/

theorem valid_initialItem : g.augment.Valid [] g.initialItem :=
  ⟨Nat.zero_le _, [], [], [], rfl, by simp, .refl _, rightmostStep_start, rfl⟩

theorem Valid.advance (h : g.Valid γ i) (hx : i.next? = some x) : g.Valid (γ ++ [x]) i.advance := by
  obtain ⟨-, δ, w, ps, rfl, hw, hps, hstep, hl⟩ := h
  refine ⟨Item.lt_of_next? hx, δ, w, ps, ?_, hw, hps, hstep, hl⟩
  rw [List.append_assoc, ← Item.take_succ_of_next? hx]
  rfl

theorem Valid.predicts (wf : g.WellFormed) (prod : g.Productive) (h : g.augment.Valid γ i)
    (hp : g.Predicts g.firstOf i j) : g.augment.Valid γ j := by
  obtain ⟨-, δ, w, ps, rfl, hw, hps, hstep, hl⟩ := h
  obtain ⟨B, rhs, b, hx, hr, hb, hne, rfl⟩ := hp
  have hβ : ∀ y ∈ i.beyond, y ∈ g.symbols := fun y hy =>
    mem_symbols_of_augment wf hstep.1 (mem_of_mem_beyond hy)
  have hlook : g.isNonterminal i.lookahead = false := hl ▸ (firstOrEnd_of_rightmost wf hps hw).2
  -- what stands behind `B` derives a string of terminals with the lookahead `b`
  obtain ⟨w', rs, hw', hrs, hfirst⟩ : ∃ w' rs, g.augment.AllTerminal w' ∧
      g.augment.Rightmost rs (i.beyond ++ w) w' ∧ b = firstOrEnd w' := by
    rw [firstOf, mem_firstUnder_append] at hb
    rcases hb with ⟨hb, -⟩ | ⟨hnull, hb⟩
    · have hbeg := (mem_firstOf_iff wf.epsilon fun hm => wf.epsilon (hβ _ hm)).1 hb
      obtain ⟨t, rs, ht, hrs⟩ := exists_rightmost_of_begins prod hne hbeg
      have ht := allTerminal_augment_of_symbols ht (hrs.derives.mem_symbols hβ)
      refine ⟨b :: t ++ w, rs, allTerminal_append.2 ⟨ht, hw⟩, ?_, rfl⟩
      exact ((rightmost_augment_iff hβ).2 hrs).append_right hw
    · have hbeg := (mem_firstOf_iff wf.epsilon fun hm => wf.epsilon (hβ _ hm)).1 hnull
      obtain ⟨-, d⟩ := hbeg.resolve_right fun h => h.1 rfl
      obtain ⟨rs, hrs⟩ := d.exists_rightmost allTerminal_nil
      refine ⟨w, rs, hw, ((rightmost_augment_iff hβ).2 hrs).append_right hw, ?_⟩
      rw [← hl]
      exact (mem_firstOf_terminal hlook).1 hb
  have hpre : g.augment.Rightmost rs (δ ++ i.rhs ++ w) (δ ++ i.rhs.take i.dot ++ B :: w') := by
    have hlift := hrs.append_left (δ ++ i.rhs.take i.dot ++ [B])
    have hsplit : δ ++ i.rhs ++ w = δ ++ (i.rhs.take i.dot ++ B :: i.beyond) ++ w :=
      congrArg (fun rhs => δ ++ rhs ++ w) (Item.rhs_eq_of_next? hx)
    rw [hsplit]
    simpa using hlift
  refine ⟨Nat.zero_le _, _, w', _, by simp, hw', (hps.tail hstep).trans hpre, ?_, hfirst⟩
  exact ⟨mem_pairs_augment.2 (.inr hr), _, w', hw', rfl, rfl⟩

theorem Valid.closure (wf : g.WellFormed) (prod : g.Productive) {seeds : List Item}
    (hs : ∀ i ∈ seeds, g.augment.Valid γ i) (h : g.InClosure g.firstOf seeds j) :
    g.augment.Valid γ j := by
  obtain ⟨i, hi, hreach⟩ := h
  induction hreach with
  | refl => exact hs i hi
  | tail _ step ih => exact ih.predicts wf prod step

theorem valid_of_path (wf : g.WellFormed) (prod : g.Productive) (hc : a.Canonical g g.firstOf)
    {p : Nat} {state : State} (h : a.Path 0 γ p) (hp : a.states[p]? = some state)
    (hi : i ∈ state.items) : g.augment.Valid γ i := by
  generalize hq : 0 = q at h
  induction h generalizing i state with
  | refl =>
    subst hq
    refine .closure wf prod (fun j hj => ?_) ((hc.mem_initial hp).1 hi)
    exact List.mem_singleton.1 hj ▸ valid_initialItem
  | tail _ hr ht ih =>
    refine .closure wf prod (fun j hj => ?_) ((hc.mem_target hr ht hp).1 hi)
    obtain ⟨k, hk, hx, rfl⟩ := mem_movedOver.1 hj
    exact (ih hr hk).advance hx

/-- In a productive grammar the items where a path leads are exactly the valid ones. -/
theorem holds_iff_valid (wf : g.WellFormed) (prod : g.Productive) (hc : a.Canonical g g.firstOf) :
    a.Holds γ i ↔ g.augment.Valid γ i := by
  constructor
  · rintro ⟨p, state, hpath, hp, hi⟩
    exact valid_of_path wf prod hc hpath hp hi
  · exact holds_of_valid wf hc

end Grammar

/-- Every path leads to some item. -/
theorem Automaton.Path.exists_holds {a : Automaton} {g : Grammar} {F : List Symbol → SymbolSet}
    {γ : List Symbol} {p : Nat} (hc : a.Canonical g F) (h : a.Path 0 γ p) : ∃ i, a.Holds γ i := by
  cases h with
  | refl => exact ⟨_, .initial hc⟩
  | tail h hr ht =>
    obtain ⟨j, hj, hx⟩ := (hc.moves hr _).1 ⟨_, ht⟩
    exact ⟨_, Holds.advance hc ⟨_, _, h, hr, hj⟩ hx⟩

theorem Automaton.Holds.mem_of_path {a : Automaton} {γ : List Symbol} {p : Nat} {state : State}
    {i : Item} (h : a.Path 0 γ p) (hp : a.states[p]? = some state) :
    a.Holds γ i ↔ i ∈ state.items := by
  constructor
  · rintro ⟨p', state', h', hp', hi⟩
    obtain rfl := h.unique h'
    obtain rfl := Option.some.inj (hp.symm.trans hp')
    exact hi
  · exact fun hi => ⟨p, state, h, hp, hi⟩

/-- **States hold exactly the valid items.**  If every nonterminal of a grammar that was read
derives a string of terminals, and FIRST is the fixed point, then a path from state 0 spells `γ` if
and only if some item is valid for `γ`, and the items of the state where it leads are the valid
ones. -/
theorem path_iff_valid {text : String} {listing : Listing} (h : Listing.read text = .ok listing)
    (prod : listing.Productive) (γ : List Symbol) :
    ((∃ p, (listing.automaton .fixedPoint).Path 0 γ p) ↔ ∃ i, listing.augment.Valid γ i) ∧
    ∀ p, (listing.automaton .fixedPoint).Path 0 γ p →
      ∃ state, (listing.automaton .fixedPoint).states[p]? = some state ∧
        ∀ i, i ∈ state.items ↔ listing.augment.Valid γ i := by
  have hc : (listing.automaton .fixedPoint).Canonical listing.toGrammar listing.firstOf :=
    Grammar.canonical_fixedPoint
  have holds : ∀ {i}, (listing.automaton .fixedPoint).Holds γ i ↔ listing.augment.Valid γ i :=
    Grammar.holds_iff_valid (wellFormed_of_read h) prod hc
  refine ⟨⟨?_, ?_⟩, fun p hp => ?_⟩
  · rintro ⟨p, hp⟩
    obtain ⟨i, hi⟩ := hp.exists_holds hc
    exact ⟨i, holds.1 hi⟩
  · rintro ⟨i, hi⟩
    obtain ⟨p, state, hp, -, -⟩ := holds.2 hi
    exact ⟨p, hp⟩
  · obtain ⟨state, hs⟩ := hc.exists_state hp
    refine ⟨state, hs, fun i => ?_⟩
    rw [← Automaton.Holds.mem_of_path hp hs, holds]

/-- The states of a left-recursive list hold the valid items of every string. -/
theorem path_iff_valid_list : ∃ listing, Listing.read "L -> L i | i" = .ok listing ∧
    listing.Productive ∧
    ((∃ p, (listing.automaton .fixedPoint).Path 0 ["L", "i"] p) ↔
      ∃ i, listing.augment.Valid ["L", "i"] i) ∧
    ∀ p, (listing.automaton .fixedPoint).Path 0 ["L", "i"] p →
      ∃ state, (listing.automaton .fixedPoint).states[p]? = some state ∧
        ∀ i, i ∈ state.items ↔ listing.augment.Valid ["L", "i"] i := by
  have hgrammar : (Listing.read "L -> L i | i").toOption.map (·.productions) =
      some [("L", [["L", "i"], ["i"]])] := by decide +kernel
  obtain ⟨listing, hread, hp⟩ := exists_ok_of_toOption hgrammar
  have prod : listing.Productive := by
    intro A hA
    have hA : A = "L" := by
      simpa [Grammar.isNonterminal, Grammar.nonterminals, Entries.keys, hp] using hA
    refine ⟨["i"], ?_, .of_mem (by rw [hp, hA]; decide)⟩
    simp [Grammar.isNonterminal, Grammar.nonterminals, Entries.keys, hp]
  exact ⟨listing, hread, prod, path_iff_valid hread prod _⟩

end CanonicalLR
