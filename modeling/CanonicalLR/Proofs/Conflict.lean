import CanonicalLR.Proofs.Demands
import CanonicalLR.Proofs.Validity

/-!
# Conflicts

`IsLR1` is the definition of Knuth: a right-hand side that was found in front of some terminals is
the one to be reduced in front of any terminals that begin alike.  For a canonical automaton under
FIRST this says that no state demands two different actions on one symbol: such a clash gives two
rightmost derivations that the next symbol cannot tell apart (`not_isLR1_of_clash`), and two such
derivations lead to a state where the first symbols in which they differ clash
(`clash_of_not_isLR1`).  So the error policy refuses exactly the grammars that are not LR(1)
(`conflict_iff_not_isLR1`).
-/

namespace CanonicalLR

namespace Grammar

/-- Whether a grammar is LR(1): if `S =>* α A w => α β w` and `S =>* γ B x => α β y` by rightmost
steps, where `w`, `x` and `y` are terminals, and `w` and `y` followed by the end marker begin alike,
then `α A y = γ B x`. -/
def IsLR1 (g : Grammar) : Prop :=
  ∀ α β γ η w x y A B ps qs, g.AllTerminal w → g.AllTerminal x → g.AllTerminal y →
    g.Rightmost ps [g.start] (α ++ A :: w) →
    g.RightmostStep (A, β) (α ++ A :: w) (α ++ β ++ w) →
    g.Rightmost qs [g.start] (γ ++ B :: x) →
    g.RightmostStep (B, η) (γ ++ B :: x) (α ++ β ++ y) →
    firstOrEnd w = firstOrEnd y → α ++ A :: y = γ ++ B :: x

/-- Whether a rightmost derivation reaches a place where a production can be used: the left-hand
side stands between `δ` and a string of terminals. -/
def Handle (g : Grammar) (δ : List Symbol) (r : Symbol × List Symbol) (w : List Symbol) : Prop :=
  r ∈ g.productions.pairs ∧ g.AllTerminal w ∧ ∃ ps, g.Rightmost ps [g.start] (δ ++ r.1 :: w)

variable {g : Grammar} {γ δ u w x y : List Symbol} {r r' : Symbol × List Symbol} {i : Item}

/-! ## Handles -/

theorem Handle.step (h : g.Handle δ r w) :
    g.RightmostStep r (δ ++ r.1 :: w) (δ ++ r.2 ++ w) :=
  ⟨h.1, δ, w, h.2.1, rfl, rfl⟩

/-- A step before terminals replaces the nonterminal before them. -/
theorem RightmostStep.eq_of_allTerminal (h : g.RightmostStep r (δ ++ r.1 :: w) u)
    (hw : g.AllTerminal w) : u = δ ++ r.2 ++ w := by
  obtain ⟨hr, p, s, hs, e, rfl⟩ := h
  have hn : g.isNonterminal r.1 = true := isNonterminal_of_mem hr
  obtain ⟨rfl, -, rfl⟩ := append_cons_inj hn hn hw hs e
  rfl

theorem valid_iff_handle : g.Valid γ i ↔ i.dot ≤ i.rhs.length ∧
    ∃ δ w, γ = δ ++ i.rhs.take i.dot ∧ g.Handle δ (i.lhs, i.rhs) w ∧
      i.lookahead = firstOrEnd w := by
  refine and_congr_right fun _ => ⟨?_, ?_⟩
  · rintro ⟨δ, w, ps, hγ, hw, hps, hstep, hl⟩
    exact ⟨δ, w, hγ, ⟨hstep.1, hw, ps, hps⟩, hl⟩
  · rintro ⟨δ, w, hγ, h, hl⟩
    obtain ⟨ps, hps⟩ := h.2.2
    exact ⟨δ, w, ps, hγ, h.2.1, hps, h.step, hl⟩

/-- The definition of Knuth in terms of handles. -/
theorem isLR1_iff : g.IsLR1 ↔ ∀ {α γ w x y r r'}, g.Handle α r w → g.Handle γ r' x →
    g.AllTerminal y → γ ++ r'.2 ++ x = α ++ r.2 ++ y → firstOrEnd w = firstOrEnd y →
    α ++ r.1 :: y = γ ++ r'.1 :: x := by
  constructor
  · intro h α γ w x y r r' hr hr' hy e hf
    obtain ⟨ps, hps⟩ := hr.2.2
    obtain ⟨qs, hqs⟩ := hr'.2.2
    exact h α r.2 γ r'.2 w x y r.1 r'.1 ps qs hr.2.1 hr'.2.1 hy hps hr.step hqs (e ▸ hr'.step) hf
  · intro h α β γ η w x y A B ps qs hw hx hy hps hstep hqs hstep' hf
    have e := hstep'.eq_of_allTerminal hx
    have hr : g.Handle α (A, β) w := ⟨hstep.1, hw, ps, hps⟩
    have hr' : g.Handle γ (B, η) x := ⟨hstep'.1, hx, qs, hqs⟩
    exact h hr hr' hy e.symm hf

/-- After a terminal inside a right-hand side, a later production is used: if the rest of the
right-hand side derives terminals, the last step before this is over a handle that ends behind the
terminal. -/
theorem Handle.last {β₁ β₂ v : List Symbol} {B a : Symbol} {rs : List (Symbol × List Symbol)}
    (h : g.Handle δ (B, β₁ ++ a :: β₂) w) (hv : g.Rightmost rs β₂ v) :
    ∃ γ r' x, g.Handle γ r' x ∧ γ ++ r'.2 ++ x = δ ++ β₁ ++ (a :: v ++ w) ∧
      x.length < (a :: v ++ w).length := by
  cases hv with
  | refl =>
    refine ⟨δ, _, w, h, by simp, ?_⟩
    rw [List.length_append, List.length_cons]
    omega
  | @tail rs r' _ z _ hz step =>
    obtain ⟨hr', q, s, hs, rfl, rfl⟩ := step
    obtain ⟨hr, hw, ps, hps⟩ := h
    have hlift : g.Rightmost rs (δ ++ (β₁ ++ a :: β₂) ++ w)
        (δ ++ β₁ ++ a :: q ++ r'.1 :: (s ++ w)) := by
      have := (hz.append_left (δ ++ β₁ ++ [a])).append_right hw
      simpa using this
    have hreach := (hps.tail ⟨hr, δ, w, hw, rfl, rfl⟩).trans hlift
    refine ⟨δ ++ β₁ ++ a :: q, r', s ++ w,
      ⟨hr', allTerminal_append.2 ⟨hs, hw⟩, _, hreach⟩, ?_, ?_⟩
    · simp
    · simp only [List.length_append, List.length_cons]
      omega

/-! ## Actions and productions -/

/-- The action by which a production is completed. -/
inductive Completes (g : Grammar) : Symbol × List Symbol → Action → Prop
  | accept : Completes g (g.augmentedStart, [g.start]) .accept
  | reduce {A : Symbol} {rhs : List Symbol} {k : Nat} (hk : g.ruleId? A rhs = some k) :
      Completes g (A, rhs) (.reduce k)

theorem exists_completes (h : r ∈ g.augment.productions.pairs) : ∃ act, g.Completes r act := by
  rcases mem_pairs_augment.1 h with rfl | h
  · exact ⟨_, .accept⟩
  · obtain ⟨k, hk⟩ : ∃ k, g.ruleId? r.1 r.2 = some k := exists_ruleId? h
    exact ⟨_, .reduce hk⟩

theorem Completes.action_eq {act act' : Action} (h : g.Completes r act) (h' : g.Completes r act') :
    act = act' := by
  have fresh : ∀ {k}, g.ruleId? g.augmentedStart [g.start] ≠ some k := fun hk =>
    augmentedStart_not_mem_of_mem (mem_pairs_of_rule? (rule?_of_ruleId? hk)) List.mem_cons_self
  cases h with
  | accept =>
    cases h' with
    | accept => rfl
    | reduce hk => exact absurd hk fresh
  | reduce hk =>
    cases h' with
    | accept => exact absurd hk fresh
    | reduce hk' => rw [Option.some.inj (hk.symm.trans hk')]

theorem Completes.rule_eq {act : Action} (h : g.Completes r act) (h' : g.Completes r' act) :
    r = r' := by
  cases h with
  | accept =>
    cases h'
    rfl
  | reduce hk =>
    cases h' with
    | reduce hk' =>
      exact Option.some.inj ((rule?_of_ruleId? hk).symm.trans (rule?_of_ruleId? hk'))

/-- An action that an item demands either completes its production or shifts. -/
theorem IsItem.asks_iff {state : State} {a : Symbol} {act : Action} (h : g.IsItem i) :
    g.Asks state i (.action a act) ↔
      (i.next? = none ∧ i.lookahead = a ∧ g.Completes (i.lhs, i.rhs) act) ∨
      (i.next? = some a ∧ g.isNonterminal a = false ∧
        ∃ t, act = .shift t ∧ state.target? a = some t) := by
  constructor
  · intro hask
    cases hask with
    | accept hn hl =>
      obtain ⟨hrhs, hlook⟩ := h.of_augmentedStart hl
      exact .inl ⟨hn, hlook, hl ▸ hrhs ▸ .accept⟩
    | reduce hn hk => exact .inl ⟨hn, rfl, .reduce hk⟩
    | shift hx hn ht => exact .inr ⟨hx, hn, _, rfl, ht⟩
  · rintro (⟨hn, rfl, hcomp⟩ | ⟨hx, hn, t, rfl, ht⟩)
    · generalize hr : (i.lhs, i.rhs) = r at hcomp
      cases hcomp with
      | accept =>
        have hl : i.lhs = g.augmentedStart := congrArg Prod.fst hr
        rw [(h.of_augmentedStart hl).2]
        exact .accept hn hl
      | reduce hk =>
        cases hr
        exact .reduce hn hk
    · exact .shift hx hn ht

end Grammar

section Clash

variable {g : Grammar} {a : Automaton} {F : List Symbol → SymbolSet} {γ t : List Symbol}
  {x : Symbol} {r r' : Symbol × List Symbol} {p : Nat}

/-! ## Clashes give derivations -/

/-- Two productions that end at one place, before strings of terminals that begin alike. -/
theorem eq_of_complete (hlr : g.augment.IsLR1) {i j : Item} (hi : g.augment.Valid γ i)
    (hj : g.augment.Valid γ j) (hni : i.next? = none) (hnj : j.next? = none)
    (hl : i.lookahead = j.lookahead) : (i.lhs, i.rhs) = (j.lhs, j.rhs) := by
  obtain ⟨-, δ, w, rfl, hhi, hli⟩ := Grammar.valid_iff_handle.1 hi
  obtain ⟨-, δ', w', he, hhj, hlj⟩ := Grammar.valid_iff_handle.1 hj
  rw [Item.take_dot hni, Item.take_dot hnj] at he
  have heq := Grammar.isLR1_iff.1 hlr hhi hhj hhj.2.1 (congrArg (· ++ w') he.symm)
    (hli.symm.trans (hl.trans hlj))
  obtain ⟨rfl, hlhs, -⟩ := Grammar.append_cons_inj (Grammar.isNonterminal_of_mem hhi.1)
    (Grammar.isNonterminal_of_mem hhj.1) hhj.2.1 hhj.2.1 heq
  exact Prod.ext hlhs (List.append_cancel_left he)

/-- A production does not end where another one goes on with a terminal that may follow it. -/
theorem not_shift_of_complete (wf : g.WellFormed) (prod : g.Productive) (hlr : g.augment.IsLR1)
    {i j : Item} (hi : g.augment.Valid γ i) (hj : g.augment.Valid γ j) (hni : i.next? = none)
    (hlx : i.lookahead = x) (hx : g.isNonterminal x = false) : j.next? ≠ some x := by
  subst hlx
  intro hnj
  obtain ⟨-, δ, w, rfl, hhi, hli⟩ := Grammar.valid_iff_handle.1 hi
  obtain ⟨-, δ', w', he, hhj, -⟩ := Grammar.valid_iff_handle.1 hj
  rw [Item.take_dot hni] at he
  have hbody := Item.rhs_eq_of_next? hnj
  have hsym : ∀ y ∈ j.rhs, y ∈ g.symbols := fun y => Grammar.mem_symbols_of_augment wf hhj.1
  have hβ : ∀ y ∈ j.beyond, y ∈ g.symbols := fun y hy => hsym y (Grammar.mem_of_mem_beyond hy)
  -- the rest of the other right-hand side derives terminals, which follow the lookahead
  obtain ⟨v, hv, d⟩ := prod.exists_derives j.beyond
  obtain ⟨rs, hrs⟩ := d.exists_rightmost hv
  have hterm : g.augment.AllTerminal (i.lookahead :: v) := by
    refine Grammar.allTerminal_augment_of_symbols (Grammar.allTerminal_cons.2 ⟨hx, hv⟩) ?_
    exact List.forall_mem_cons.2 ⟨hsym _ (List.mem_of_getElem? hnj), d.mem_symbols hβ⟩
  rw [hbody] at hhj
  obtain ⟨γ', r', x', hh', e', hlt⟩ := hhj.last ((Grammar.rightmost_augment_iff hβ).2 hrs)
  rw [← he] at e'
  have hy := Grammar.allTerminal_append.2 ⟨hterm, hhj.2.1⟩
  have heq := Grammar.isLR1_iff.1 hlr hhi hh' hy e' hli.symm
  obtain ⟨-, -, hyx⟩ := Grammar.append_cons_inj (Grammar.isNonterminal_of_mem hhi.1)
    (Grammar.isNonterminal_of_mem hh'.1) hy hh'.2.1 heq
  rw [hyx] at hlt
  exact Nat.lt_irrefl _ hlt

theorem not_isLR1_of_clash (wf : g.WellFormed) (prod : g.Productive)
    (hc : a.Canonical g g.firstOf) {c : Conflict} (h : a.ClashesAt g c) : ¬ g.augment.IsLR1 := by
  intro hlr
  obtain ⟨q, x, act, act'⟩ := c
  obtain ⟨hne, p, -, ⟨state, i, hp, hi, hask⟩, ⟨state', j, hp', hj, hask'⟩⟩ := h
  change act ≠ act' at hne
  change g.Asks state i (.action x act) at hask
  change g.Asks state' j (.action x act') at hask'
  obtain rfl := Option.some.inj (hp.symm.trans hp')
  obtain ⟨γ, hpath⟩ := hc.exists_path hp
  have hvi := Grammar.valid_of_path wf prod hc hpath hp hi
  have hvj := Grammar.valid_of_path wf prod hc hpath hp hj
  rcases (hc.isItem hp i hi).asks_iff.1 hask with ⟨hni, rfl, hci⟩ | ⟨hxi, hti, t, rfl, hmi⟩ <;>
    rcases (hc.isItem hp j hj).asks_iff.1 hask' with ⟨hnj, hlj, hcj⟩ | ⟨hxj, htj, t', rfl, hmj⟩
  · rw [eq_of_complete hlr hvi hvj hni hnj hlj.symm] at hci
    exact hne (hci.action_eq hcj)
  · exact not_shift_of_complete wf prod hlr hvi hvj hni rfl htj hxj
  · exact not_shift_of_complete wf prod hlr hvj hvi hnj hlj hti hxi
  · exact hne (congrArg Action.shift (Option.some.inj (hmi.symm.trans hmj)))

/-! ## Derivations give clashes -/

/-- A complete item clashes with a path that goes on with its lookahead. -/
theorem clash_of_path (hc : a.Canonical g F) (hr : r ∈ g.augment.productions.pairs)
    (h : a.Holds γ ⟨r.1, r.2, r.2.length, x⟩) (hx : g.isNonterminal x = false)
    (hpath : a.Path 0 (γ ++ x :: t) p) : ∃ c, a.ClashesAt g c := by
  obtain ⟨q, state, hq, hs, hi⟩ := h
  -- on one side the completed production, on the other the transition
  obtain ⟨act, hact⟩ := Grammar.exists_completes hr
  have hsplit : γ ++ x :: t = γ ++ [x] ++ t := by simp
  rw [hsplit] at hpath
  obtain ⟨s, hgo, -⟩ := hpath.prefix
  obtain ⟨q', state', hq', hs', htarget⟩ := hgo.snoc
  obtain rfl := hq.unique hq'
  obtain rfl := Option.some.inj (hs.symm.trans hs')
  obtain ⟨j, hj, hnext⟩ := (hc.moves hs x).1 ⟨_, htarget⟩
  have hne : act ≠ .shift s := by
    rintro rfl
    cases hact
  have hcomplete : g.Asks state ⟨r.1, r.2, r.2.length, x⟩ (.action x act) :=
    (hc.isItem hs _ hi).asks_iff.2 (.inl ⟨by simp [Item.next?], rfl, hact⟩)
  exact ⟨⟨q, x, act, .shift s⟩, hne, q, rfl, ⟨state, _, hs, hi, hcomplete⟩,
    ⟨state, j, hs, hj, .shift hnext hx htarget⟩⟩

/-- Two complete items of one state with one lookahead are of one production, or they clash. -/
theorem clash_of_complete (hc : a.Canonical g F) (h : a.Holds γ ⟨r.1, r.2, r.2.length, x⟩)
    (h' : a.Holds γ ⟨r'.1, r'.2, r'.2.length, x⟩) (hne : r ≠ r') : ∃ c, a.ClashesAt g c := by
  obtain ⟨p, state, hp, hs, hi⟩ := h
  rw [Automaton.Holds.mem_of_path hp hs] at h'
  have hitem := hc.isItem hs _ hi
  have hitem' := hc.isItem hs _ h'
  obtain ⟨act, hact⟩ := Grammar.exists_completes hitem.rule
  obtain ⟨act', hact'⟩ := Grammar.exists_completes hitem'.rule
  have hne' : act ≠ act' := by
    rintro rfl
    exact hne (hact.rule_eq hact')
  refine ⟨⟨p, x, act, act'⟩, hne', p, rfl, ⟨state, _, hs, hi, ?_⟩, ⟨state, _, hs, h', ?_⟩⟩
  · exact hitem.asks_iff.2 (.inl ⟨by simp [Item.next?], rfl, hact⟩)
  · exact hitem'.asks_iff.2 (.inl ⟨by simp [Item.next?], rfl, hact'⟩)

theorem Grammar.Handle.holds (wf : g.WellFormed) (hc : a.Canonical g g.firstOf) {w : List Symbol}
    (h : g.augment.Handle γ r w) : a.Holds (γ ++ r.2) ⟨r.1, r.2, r.2.length, firstOrEnd w⟩ := by
  obtain ⟨hr, hw, ps, hps⟩ := h
  have hthrough := (holds_of_rightmost wf hc hps hw hr).through hc (Nat.le_refl _)
  rwa [List.take_length] at hthrough

theorem clash_of_not_isLR1 (wf : g.WellFormed) (hc : a.Canonical g g.firstOf)
    (h : ¬ g.augment.IsLR1) : ∃ c, a.ClashesAt g c := by
  by_contra hno
  refine h (Grammar.isLR1_iff.2 fun {α γ w x y r r'} hr hr' hy e hf => ?_)
  have hi := hr.holds wf hc
  have hi' := hr'.holds wf hc
  by_cases hsame : α ++ r.2 = γ ++ r'.2
  · rw [hsame] at e hi
    obtain rfl : x = y := List.append_cancel_left e
    rw [hf] at hi
    obtain rfl : r = r' := by
      by_contra hne
      exact hno (clash_of_complete hc hi hi' hne)
    rw [List.append_cancel_right hsame]
  · -- the handle that comes to its end first is complete where the other one goes on
    rcases List.append_eq_append_iff.1 e with ⟨_ | ⟨c, t⟩, hαγ, rfl⟩ | ⟨_ | ⟨c, t⟩, hγα, rfl⟩
    · exact absurd (by simpa using hαγ) hsame
    · obtain ⟨p, -, hpath, -, -⟩ := hi
      rw [hαγ] at hpath
      have hc' := (Grammar.allTerminal_augment.1 hr'.2.1).1 c List.mem_cons_self
      exact (hno (clash_of_path hc hr'.1 hi' hc' hpath)).elim
    · exact absurd (by simpa using hγα.symm) hsame
    · obtain ⟨p, -, hpath, -, -⟩ := hi'
      rw [hγα] at hpath
      rw [hf] at hi
      have hc' := (Grammar.allTerminal_augment.1 hy).1 c List.mem_cons_self
      exact (hno (clash_of_path hc hr.1 hi hc' hpath)).elim

/-- **Conflict detection is exact.**  If every nonterminal of a grammar that was read derives a
string of terminals, a build with FIRST as the fixed point and with clashes as errors reports a
conflict if and only if the augmented grammar is not LR(1); and it succeeds if and only if it is. -/
theorem conflict_iff_not_isLR1 {text : String} {listing : Listing}
    (h : Listing.read text = .ok listing) (prod : listing.Productive) :
    ((∃ c, build text ⟨.error, .fixedPoint⟩ = .error (.table (.conflict c))) ↔
      ¬ listing.augment.IsLR1) ∧
    ((∃ b, build text ⟨.error, .fixedPoint⟩ = .ok b) ↔ listing.augment.IsLR1) := by
  have wf := wellFormed_of_read h
  have hc : (listing.automaton .fixedPoint).Canonical listing.toGrammar listing.firstOf :=
    Grammar.canonical_fixedPoint
  rcases build_of_read ⟨.error, .fixedPoint⟩ h with ⟨b, hb, -, ha, hs⟩ | ⟨-, c, hb, hclash⟩
  · -- in a table, one cell holds one action
    have hlr : listing.augment.IsLR1 := by
      by_contra hno
      obtain ⟨c, hne, p, -, hd, hd'⟩ := clash_of_not_isLR1 wf hc hno
      rw [ha] at hs
      have hcell := hs.stands rfl p c.symbol c.existing hd
      have hcell' := hs.stands rfl p c.symbol c.incoming hd'
      exact hne (Option.some.inj (hcell.symm.trans hcell'))
    rw [hb]
    simp [hlr]
  · have hlr := not_isLR1_of_clash wf prod hc hclash
    rw [hb]
    simp [hlr]

/-- A grammar that is LR(1), though its states would clash if they were merged without regard to
lookaheads. -/
theorem conflict_iff_not_isLR1_crossed : ∃ listing,
    Listing.read "S -> a A d | b B d | a B e | b A e\nA -> c\nB -> c" = .ok listing ∧
    listing.Productive ∧ listing.augment.IsLR1 ∧
    ¬ ∃ c, build "S -> a A d | b B d | a B e | b A e\nA -> c\nB -> c" ⟨.error, .fixedPoint⟩ =
      .error (.table (.conflict c)) := by
  have hgrammar : (Listing.read "S -> a A d | b B d | a B e | b A e\nA -> c\nB -> c").toOption.map
      (·.productions) = some [("S", [["a", "A", "d"], ["b", "B", "d"], ["a", "B", "e"],
        ["b", "A", "e"]]), ("A", [["c"]]), ("B", [["c"]])] := by decide +kernel
  obtain ⟨listing, hread, hp⟩ := exists_ok_of_toOption hgrammar
  have hbuild : (build "S -> a A d | b B d | a B e | b A e\nA -> c\nB -> c"
      ⟨.error, .fixedPoint⟩).toOption.map (fun _ => ()) = some () := by decide +kernel
  obtain ⟨b, hb, -⟩ := exists_ok_of_toOption hbuild
  have hterm : listing.AllTerminal ["a", "c", "d"] := by
    simp [Grammar.isNonterminal, Grammar.nonterminals, Entries.keys, hp]
  have prod : listing.Productive := by
    intro A hA
    have hA : A = "S" ∨ A = "A" ∨ A = "B" := by
      simpa [Grammar.isNonterminal, Grammar.nonterminals, Entries.keys, hp] using hA
    have hc : listing.AllTerminal ["c"] := by
      simp [Grammar.isNonterminal, Grammar.nonterminals, Entries.keys, hp]
    rcases hA with rfl | rfl | rfl
    · have whole : listing.Produces ["S"] ["a", "A", "d"] :=
        ⟨"S", ["a", "A", "d"], [], [], by rw [hp]; decide, rfl, rfl⟩
      have inner : listing.Produces ["a", "A", "d"] ["a", "c", "d"] :=
        ⟨"A", ["c"], ["a"], ["d"], by rw [hp]; decide, rfl, rfl⟩
      exact ⟨_, hterm, (Relation.ReflTransGen.single whole).tail inner⟩
    · exact ⟨_, hc, .of_mem (by rw [hp]; decide)⟩
    · exact ⟨_, hc, .of_mem (by rw [hp]; decide)⟩
  obtain ⟨hconflict, hok⟩ := conflict_iff_not_isLR1 hread prod
  have hlr : listing.augment.IsLR1 := hok.1 ⟨b, hb⟩
  exact ⟨listing, hread, prod, hlr, fun hc => hconflict.1 hc hlr⟩

end Clash

end CanonicalLR
