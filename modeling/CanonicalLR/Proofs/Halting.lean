import CanonicalLR.Proofs.First.Calls
import CanonicalLR.Proofs.Numbering

/-!
# Everything halts

The computations of this library carry budgets, bounds on how often something is repeated.  No
budget is ever felt: the loops without any budget end, and they end with what is computed
(`halts_augmentedStart`, `halts_solveFirst`, `halts_closure`, `collects_iff`).  That is so for every
grammar, whatever it uses `$` and `ε` for, and for every memo that questions can lead to.

A closure is a loop of passes over all its items; the queue that is computed visits each of them
once.  The two agree because an item that was visited adds nothing any more (`Exhausted`).  The
passes end because what they add comes from finitely many candidates.

The exploration ends because all items are of one finite space (`itemSpace`), and no two registered
sets are the same part of it.
-/

namespace CanonicalLR

/-! ## Loops -/

/-- What a loop ends in that repeats its body as long as the body says so. -/
inductive Halts {σ : Type} (body : σ → σ × Bool) : σ → σ → Prop
  | stop {s : σ} (h : (body s).2 = false) : Halts body s (body s).1
  | next {s last : σ} (h : (body s).2 = true) (rest : Halts body (body s).1 last) :
      Halts body s last

section Loops

variable {σ : Type} {body : σ → σ × Bool} {s last last' : σ}

theorem Halts.unique (h : Halts body s last) (h' : Halts body s last') : last = last' := by
  induction h with
  | stop hstop =>
    cases h' with
    | stop => rfl
    | next hnext =>
      rw [hstop] at hnext
      cases hnext
  | next hnext _ ih =>
    cases h' with
    | stop hstop =>
      rw [hnext] at hstop
      cases hstop
    | next _ rest => exact ih rest

theorem Halts.iff (h : Halts body s last) : Halts body s last' ↔ last' = last :=
  ⟨fun h' => h'.unique h, fun e => e ▸ h⟩

/-- A loop halts if a measure drops whenever it goes on, under an invariant that tells the end. -/
theorem halts_of_measure {P : σ → Prop} (measure : σ → Nat)
    (stop : ∀ s, P s → (body s).2 = false → (body s).1 = last)
    (next : ∀ s, P s → (body s).2 = true → P (body s).1 ∧ measure (body s).1 < measure s)
    (h : P s) : Halts body s last := by
  induction hn : measure s using Nat.strong_induction_on generalizing s with
  | _ n ih =>
    cases hgo : (body s).2 with
    | false =>
      rw [← stop s h hgo]
      exact .stop hgo
    | true =>
      obtain ⟨hP, hlt⟩ := next s h hgo
      exact .next hgo (ih _ (hn ▸ hlt) hP rfl)

end Loops

namespace Grammar

variable {g : Grammar} {memo : Memo} {items seeds : List Item} {i j : Item} {x : Symbol}

/-! ## The augmented start and the FIRST equations -/

/-- Adds an apostrophe to a symbol that is used. -/
def primeStep (used : SymbolSet) (x : Symbol) : Symbol × Bool :=
  if x ∈ used then (x ++ "'", true) else (x, false)

theorem halts_primed (used : SymbolSet) (x : Symbol) :
    Halts (primeStep used) x (primed used x) := by
  induction x using primed.induct used with
  | case1 x hx ih =>
    rw [primed, if_pos hx]
    have hstep : primeStep used x = (x ++ "'", true) := if_pos hx
    exact .next (congrArg Prod.snd hstep) (hstep ▸ ih)
  | case2 x hx =>
    rw [primed, if_neg hx]
    have hstep : primeStep used x = (x, false) := if_neg hx
    have hstop : Halts (primeStep used) x (primeStep used x).1 := .stop (congrArg Prod.snd hstep)
    rwa [hstep] at hstop

/-- **The search for a fresh start symbol halts.** -/
theorem halts_augmentedStart (g : Grammar) :
    Halts (primeStep g.symbols) (g.start ++ "'") g.augmentedStart := halts_primed _ _

/-- A pass in place, repeated as long as it changes something. -/
def solvePass (g : Grammar) (table : FirstTable) : FirstTable × Bool :=
  (g.firstPass table, decide (g.firstPass table ≠ table))

/-- **The FIRST equations are solved by finitely many passes.** -/
theorem halts_solveFirst (g : Grammar) : Halts g.solvePass g.noFirst g.solveFirst := by
  refine halts_of_measure (P := g.FirstReached)
    (fun table => g.firstRounds - (g.firstFacts table).card) ?_ ?_ .start
  · intro table h hstop
    have hsame : g.firstPass table = table := by simpa [solvePass] using hstop
    show g.firstPass table = g.solveFirst
    rw [hsame]
    exact h.eq_solveFirst (h.extend_eq_of_foldl (fun _ hp => hp) hsame)
  · intro table h hnext
    have hne : g.firstPass table ≠ table := by simpa [solvePass] using hnext
    have hlt := h.card_lt hne
    have hbound := card_firstFacts_lt (g := g) (g.firstPass table)
    refine ⟨h.pass, ?_⟩
    show g.firstRounds - (g.firstFacts (g.firstPass table)).card < _
    omega

/-! ## Closure by passes -/

/-- Visits an item: what it predicts and is not there yet is appended. -/
def visitItem (g : Grammar) (acc : List Item × Memo) (item : Item) : List Item × Memo :=
  (acc.1 ++ g.freshItems acc.1 item acc.2, (g.predictions item acc.2).2)

/-- A pass over all items, repeated as long as it appends something. -/
def closePass (g : Grammar) (acc : List Item × Memo) : (List Item × Memo) × Bool :=
  let visited := acc.1.foldl g.visitItem acc
  (visited, decide (visited.1 ≠ acc.1))

/-- Whether everything of an earlier moment of a closure is still there. -/
structure Later (acc later : List Item × Memo) : Prop where
  items : ∀ i ∈ acc.1, i ∈ later.1
  memo : acc.2.Extends later.2

theorem Later.trans {a b c : List Item × Memo} (h : Later a b) (h' : Later b c) : Later a c :=
  ⟨fun i hi => h'.items i (h.items i hi), fun xs set hl => h'.memo xs set (h.memo xs set hl)⟩

/-- Whether an item adds nothing any more. -/
def Exhausted (g : Grammar) (acc : List Item × Memo) (item : Item) : Prop :=
  ∀ later, Later acc later → g.visitItem later item = later

/-- What an item predicts is predicted again, and then nothing new is asked. -/
theorem predictions_again {later : Memo} (h : (g.predictions i memo).2.Extends later) :
    g.predictions i later = ((g.predictions i memo).1, later) := by
  unfold predictions at h ⊢
  cases hn : i.next? with
  | none => rfl
  | some B =>
    by_cases hB : g.isNonterminal B = true
    · simp only [hn, hB, if_true] at h ⊢
      have hknown := h _ _ (lookup_firstOfString (i.beyond ++ [i.lookahead]) memo)
      have hagain : g.firstOfString (i.beyond ++ [i.lookahead]) later =
          ((g.firstOfString (i.beyond ++ [i.lookahead]) memo).1, later) := by
        rw [firstOfString, hknown]
      rw [hagain]
    · simp only [hB]
      rfl

theorem later_visitItem (acc : List Item × Memo) (item : Item) :
    Later acc (g.visitItem acc item) :=
  ⟨fun _ hi => List.mem_append_left _ hi, (kept_extends acc.2).predictions item (.refl acc.2)⟩

theorem exhausted_visitItem (acc : List Item × Memo) (item : Item) :
    g.Exhausted (g.visitItem acc item) item := by
  intro later hl
  have hagain : g.predictions item later.2 = ((g.predictions item acc.2).1, later.2) :=
    predictions_again hl.memo
  have hnothing : g.freshItems later.1 item later.2 = [] := by
    refine List.eq_nil_iff_forall_not_mem.2 fun j hj => ?_
    obtain ⟨hj, hnew⟩ := mem_freshItems.1 hj
    rw [hagain] at hj
    refine hnew (hl.items j ?_)
    by_cases hold : j ∈ acc.1
    · exact List.mem_append_left _ hold
    · exact List.mem_append_right _ (mem_freshItems.2 ⟨hj, hold⟩)
  rw [visitItem, hnothing, hagain, List.append_nil]

theorem foldl_exhausted {acc : List Item × Memo} (h : ∀ i ∈ items, g.Exhausted acc i) :
    items.foldl g.visitItem acc = acc := by
  induction items with
  | nil => rfl
  | cons item items ih =>
    rw [List.foldl_cons, h item List.mem_cons_self acc ⟨fun _ hi => hi, .refl acc.2⟩]
    exact ih fun i hi => h i (List.mem_cons_of_mem _ hi)

/-- What the visits of some pending items, one after the other, do to a closure. -/
structure Round (g : Grammar) (acc : List Item × Memo) (pending rest new : List Item)
    (last : List Item × Memo) : Prop where
  items : last.1 = acc.1 ++ new
  later : Later acc last
  exhausted : ∀ i ∈ pending, g.Exhausted last i
  visiting : ∀ seeds, g.Visiting seeds acc.1 (pending ++ rest) acc.2 →
    g.Visiting seeds last.1 (rest ++ new) last.2
  saturate : ∀ budget, g.saturate (budget + pending.length) acc.1 (pending ++ rest) acc.2 =
    g.saturate budget last.1 (rest ++ new) last.2

theorem exists_round (pending rest : List Item) (acc : List Item × Memo) :
    ∃ new, g.Round acc pending rest new (pending.foldl g.visitItem acc) := by
  induction pending generalizing rest acc with
  | nil =>
    refine ⟨[], (List.append_nil _).symm, ⟨fun _ hi => hi, .refl acc.2⟩,
      fun i hi => absurd hi List.not_mem_nil, fun seeds h => ?_, fun budget => ?_⟩
    · rw [List.append_nil]
      exact h
    · rw [List.append_nil]
      rfl
  | cons item pending ih =>
    -- what this visit appends is visited after the rest
    obtain ⟨new, h⟩ := ih (rest ++ g.freshItems acc.1 item acc.2) (g.visitItem acc item)
    refine ⟨g.freshItems acc.1 item acc.2 ++ new, ?_, (later_visitItem acc item).trans h.later,
      ?_, fun seeds hv => ?_, fun budget => ?_⟩
    · rw [List.foldl_cons, h.items, visitItem, List.append_assoc]
    · intro i hi later hl
      rcases List.mem_cons.1 hi with rfl | hi
      · exact exhausted_visitItem acc i later (h.later.trans hl)
      · exact h.exhausted i hi later hl
    · rw [List.cons_append] at hv
      have hnext := hv.next
      rw [List.append_assoc] at hnext
      rw [List.foldl_cons, ← List.append_assoc]
      exact h.visiting seeds hnext
    · have hrest := h.saturate budget
      rw [List.foldl_cons, ← List.append_assoc rest, ← hrest]
      show g.saturate (budget + pending.length) (acc.1 ++ g.freshItems acc.1 item acc.2)
        ((pending ++ rest) ++ g.freshItems acc.1 item acc.2) (g.predictions item acc.2).2 = _
      rw [List.append_assoc]
      rfl

/-- What holds between two passes: the items of earlier passes are exhausted, and a visit of the
others that does not run out of budget leads to the given end. -/
structure Passing (g : Grammar) (seeds : List Item) (last acc : List Item × Memo)
    (done pending : List Item) (budget : Nat) : Prop where
  items : acc.1 = done ++ pending
  exhausted : ∀ i ∈ done, g.Exhausted acc i
  visiting : g.Visiting seeds acc.1 pending acc.2
  enough : (g.candidates seeds).length + pending.length < budget + acc.1.length
  saturate : g.saturate budget acc.1 pending acc.2 = last

/-- A pass visits the items of the last pass, and nothing else. -/
theorem Passing.next {last acc : List Item × Memo} {done pending : List Item} {budget : Nat}
    (h : g.Passing seeds last acc done pending budget) : ∃ new,
      (g.closePass acc).1.1 = acc.1 ++ new ∧
      g.Passing seeds last (g.closePass acc).1 acc.1 new (budget - pending.length) := by
  have hpass : (g.closePass acc).1 = pending.foldl g.visitItem acc := by
    show acc.1.foldl g.visitItem acc = _
    rw [h.items, List.foldl_append, foldl_exhausted h.exhausted]
  have hle := h.visiting.length_le
  have hbudget := h.enough
  have hspent : budget - pending.length + pending.length = budget := by omega
  obtain ⟨new, hround⟩ := g.exists_round pending [] acc
  rw [← hpass] at hround
  have hvisiting : g.Visiting seeds (g.closePass acc).1.1 new (g.closePass acc).1.2 :=
    hround.visiting seeds ((List.append_nil pending).symm ▸ h.visiting)
  refine ⟨new, hround.items, hround.items, ?_, hvisiting, ?_, ?_⟩
  · intro i hi later hl
    rw [h.items] at hi
    rcases List.mem_append.1 hi with hi | hi
    · exact h.exhausted i hi later (hround.later.trans hl)
    · exact hround.exhausted i hi later hl
  · rw [hround.items, List.length_append]
    omega
  · have hsaturate := hround.saturate (budget - pending.length)
    rw [List.append_nil, hspent, h.saturate] at hsaturate
    exact hsaturate.symm

/-- **The passes of a closure come to an end**, which is the closure. -/
theorem halts_closure (hm : memo.Credible g) (items : List Item) :
    Halts g.closePass (distinct items, memo) (g.closure items memo) := by
  refine halts_of_measure (P := fun acc => ∃ done pending budget,
      g.Passing (distinct items) (g.closure items memo) acc done pending budget)
    (fun acc => (g.candidates (distinct items)).length - acc.1.length) ?_ ?_ ?_
  · rintro acc ⟨done, pending, budget, h⟩ hstop
    obtain ⟨new, hitems, hnext⟩ := h.next
    have hsame : (g.closePass acc).1.1 = acc.1 := by simpa [closePass] using hstop
    -- nothing is pending, so the visit ends here with any budget
    obtain rfl : new = [] := by rwa [hitems, List.append_right_eq_self] at hsame
    rw [← hnext.saturate]
    cases budget - pending.length <;> rfl
  · rintro acc ⟨done, pending, budget, h⟩ hgo
    obtain ⟨new, hitems, hnext⟩ := h.next
    have hne : (g.closePass acc).1.1 ≠ acc.1 := by simpa [closePass] using hgo
    have hnew : new ≠ [] := by
      rintro rfl
      exact hne (by rw [hitems, List.append_nil])
    have hpos := List.length_pos_iff.2 hnew
    have hle := hnext.visiting.length_le
    refine ⟨⟨_, _, _, hnext⟩, ?_⟩
    rw [hitems, List.length_append] at hle ⊢
    omega
  · refine ⟨[], distinct items, g.closureBudget (distinct items), rfl,
      fun i hi => absurd hi List.not_mem_nil, visiting_seeds hm items, ?_, rfl⟩
    exact Nat.add_lt_add_right (length_candidates _) _

/-! ## What a closure adds -/

/-- What the lookaheads of a closure are taken from: the productions and the seeds. -/
def Supplied (g : Grammar) (seeds : List Item) (x : Symbol) : Prop :=
  x ∈ g.bodySymbols ∨ ∃ i ∈ seeds, x ∈ i.rhs ∨ x = i.lookahead

/-- What an item that a closure adds is like. -/
structure Added (g : Grammar) (seeds : List Item) (j : Item) : Prop where
  rule : (j.lhs, j.rhs) ∈ g.productions.pairs
  dot : j.dot = 0
  ne_epsilon : j.lookahead ≠ epsilon
  terminal : g.isNonterminal j.lookahead = false
  supplied : g.Supplied seeds j.lookahead

section Added

variable {F : List Symbol → SymbolSet}

/-- What is beyond an item, and its lookahead, can begin a lookahead that it predicts. -/
theorem Predicts.added (hF : g.CredibleFirst F) (h : g.Predicts F i j)
    (hi : ∀ x ∈ i.beyond ++ [i.lookahead], g.Supplied seeds x) : g.Added seeds j := by
  obtain ⟨B, rhs, b, -, hr, hb, hne, rfl⟩ := h
  obtain ⟨hmem, hn⟩ := (hF _ b hb).resolve_left hne
  exact ⟨hr, rfl, hne, hn, (List.mem_append.1 hmem).elim .inl (hi b)⟩

theorem supplied_of_seed (hi : i ∈ seeds) (hx : x ∈ i.beyond ++ [i.lookahead]) :
    g.Supplied seeds x := by
  rcases List.mem_append.1 hx with hx | hx
  · exact .inr ⟨i, hi, .inl (mem_of_mem_beyond hx)⟩
  · exact .inr ⟨i, hi, .inr (List.mem_singleton.1 hx)⟩

theorem Added.supplied_beyond (h : g.Added seeds j) (hx : x ∈ j.beyond ++ [j.lookahead]) :
    g.Supplied seeds x := by
  rcases List.mem_append.1 hx with hx | hx
  · exact .inl (mem_bodySymbols.2 ⟨_, _, h.rule, mem_of_mem_beyond hx⟩)
  · exact List.mem_singleton.1 hx ▸ h.supplied

/-- Every item of a closure is a seed or was added. -/
theorem InClosure.seed_or_added (hF : g.CredibleFirst F) (h : g.InClosure F seeds j) :
    j ∈ seeds ∨ g.Added seeds j := by
  obtain ⟨seed, hseed, hreach⟩ := h
  induction hreach with
  | refl => exact .inl hseed
  | tail _ step ih =>
    rcases ih with hi | hi
    · exact .inr (step.added hF fun x => supplied_of_seed hi)
    · exact .inr (step.added hF fun x => hi.supplied_beyond)

/-- **What a closure adds** are productions with the dot at the start, and the lookaheads come from
the productions or from the seeds. -/
theorem added_of_mem_closure (hm : memo.Credible g) (hj : j ∈ (g.closure seeds memo).1)
    (hnew : j ∉ seeds) : g.Added seeds j := by
  have hin := (mem_closure hm (Memo.agrees_answers _)).1 hj
  exact (hin.seed_or_added (kept_credible.closure seeds hm).answers).resolve_left hnew

end Added

/-! ## The exploration -/

/-- The transitions of one item set, each with its closure by passes. -/
inductive Moves (g : Grammar) (items : List Item) : List Symbol → List (List Item) → Memo →
    Entries Symbol Nat × List (List Item) × Memo → Prop
  | done {sets : List (List Item)} {memo : Memo} : Moves g items [] sets memo ([], sets, memo)
  | next {x : Symbol} {rest : List Symbol} {sets : List (List Item)} {memo : Memo}
      {target : List Item × Memo} {found : Entries Symbol Nat × List (List Item) × Memo}
      (closed : Halts g.closePass (distinct (movedOver x items), memo) target)
      (others : Moves g items rest (register sets target.1).2 target.2 found) :
      Moves g items (x :: rest) sets memo ((x, (register sets target.1).1) :: found.1, found.2)

/-- The expansion of registered sets until none is left. -/
inductive Explores (g : Grammar) : Collection → Collection → Prop
  | done {c : Collection} (h : c.sets[c.rows.length]? = none) : Explores g c c
  | next {c last : Collection} {items : List Item}
      {found : Entries Symbol Nat × List (List Item) × Memo}
      (h : c.sets[c.rows.length]? = some items)
      (moves : g.Moves items (Item.nextSymbols items) c.sets c.memo found)
      (rest : Explores g ⟨found.2.1, c.rows ++ [found.1], found.2.2⟩ last) : Explores g c last

/-- The canonical collection from its first closure on. -/
def Collects (g : Grammar) (memo : Memo) (last : Collection) : Prop :=
  ∃ first, Halts g.closePass ([g.initialItem], memo) first ∧
    g.Explores ⟨[first.1], [], first.2⟩ last

section Exploration

variable {xs : List Symbol} {sets : List (List Item)} {c last last' : Collection}
  {found found' : Entries Symbol Nat × List (List Item) × Memo}

theorem Moves.unique (h : g.Moves items xs sets memo found)
    (h' : g.Moves items xs sets memo found') : found = found' := by
  induction h generalizing found' with
  | done =>
    cases h'
    rfl
  | next closed _ ih =>
    cases h' with
    | next closed' others' =>
      obtain rfl := closed.unique closed'
      obtain rfl := ih others'
      rfl

theorem Explores.unique (h : g.Explores c last) (h' : g.Explores c last') : last = last' := by
  induction h with
  | done hnone =>
    cases h' with
    | done => rfl
    | next hsome =>
      rw [hnone] at hsome
      cases hsome
  | next hsome moves _ ih =>
    cases h' with
    | done hnone =>
      rw [hsome] at hnone
      cases hnone
    | next hsome' moves' rest' =>
      obtain rfl := Option.some.inj (hsome.symm.trans hsome')
      obtain rfl := moves.unique moves'
      exact ih rest'

theorem moves_successors (xs : List Symbol) (sets : List (List Item)) (hm : memo.Credible g) :
    g.Moves items xs sets memo (g.successors items xs sets memo) := by
  induction xs generalizing sets memo with
  | nil => exact .done
  | cons x xs ih => exact .next (halts_closure hm _) (ih _ (kept_credible.goto items x hm))

/-- With a budget for all sets that there can be, the exploration is the one without a budget. -/
theorem Exploring.explores {budget : Nat} (h : g.Exploring c)
    (hb : 2 ^ g.itemCount ≤ budget + c.rows.length) : g.Explores c (g.explore budget c) := by
  induction budget generalizing c with
  | zero =>
    have hle := sets_length_le h.sets.isItem h.sets.apart
    exact .done (List.getElem?_eq_none (by omega))
  | succ budget ih =>
    cases hq : c.sets[c.rows.length]? with
    | none =>
      rw [explore_of_none hq]
      exact .done hq
    | some items =>
      have hrows : (c.expand g items).rows.length = c.rows.length + 1 := List.length_append
      have hrest := ih (h.next hq) (by omega)
      rw [explore_of_some hq]
      exact .next hq (moves_successors _ _ h.credible) hrest

/-- **The canonical collection is complete after finitely many expansions.** -/
theorem collects_iff (hm : memo.Credible g) :
    g.Collects memo last ↔ last = g.fullCollection memo := by
  have hfirst : Halts g.closePass ([g.initialItem], memo) (g.closure [g.initialItem] memo) :=
    halts_closure hm [g.initialItem]
  have hrest : g.Explores (g.initialCollection memo) (g.fullCollection memo) :=
    (exploring_initial hm).explores (Nat.le_add_right _ _)
  constructor
  · rintro ⟨first, h, h'⟩
    obtain rfl := h.unique hfirst
    exact h'.unique hrest
  · rintro rfl
    exact ⟨_, hfirst, hrest⟩

end Exploration

/-! ## The space of items -/

/-- The new start and the productions, each with every place for the dot, and with `$` or a symbol
of a right-hand side that is no nonterminal as lookahead. -/
def itemSpace (g : Grammar) : Finset Item :=
  g.allItems.toFinset.filter fun i => i.lookahead = endMarker ∨ g.isNonterminal i.lookahead = false

theorem mem_itemSpace : i ∈ g.itemSpace ↔
    ((i.lhs, i.rhs) = (g.augmentedStart, [g.start]) ∨ (i.lhs, i.rhs) ∈ g.productions.pairs) ∧
      i.dot ≤ i.rhs.length ∧ (i.lookahead = endMarker ∨
        (i.lookahead ∈ g.bodySymbols ∧ g.isNonterminal i.lookahead = false)) := by
  rw [itemSpace, Finset.mem_filter, List.mem_toFinset, allItems, ← mem_pairs_augment]
  simp only [List.mem_flatMap, List.mem_range, Nat.lt_succ_iff, List.mem_map, List.mem_cons]
  constructor
  · rintro ⟨⟨p, hp, dot, hdot, a, ha, rfl⟩, hlookahead⟩
    refine ⟨hp, hdot, ?_⟩
    rcases hlookahead with hend | hn
    · exact .inl hend
    · exact ha.imp_right fun hm => ⟨hm, hn⟩
  · rintro ⟨hp, hdot, ha⟩
    exact ⟨⟨_, hp, i.dot, hdot, i.lookahead, ha.imp_right And.left, rfl⟩, ha.imp_right And.right⟩

theorem IsItem.mem_itemSpace (h : g.IsItem i) : i ∈ g.itemSpace :=
  Grammar.mem_itemSpace.2 ⟨mem_pairs_augment.1 h.rule, h.dot, h.lookahead⟩

/-- **Everything halts.**  For every grammar, either strategy and any earlier use of the same
calculator, the search for the new start, the solution of the FIRST equations, all calls for FIRST,
the closure of any items and the canonical collection come to an end without any budget, each to the
one that is computed.  A closure adds productions with the dot at the start only, and their
lookaheads are not `ε` and no nonterminals, and come from the productions or from the seeds.  So the
states of the canonical collection are parts of one finite space, and their number is at most that
of its parts. -/
theorem everything_halts (g : Grammar) (strategy : FirstStrategy) (queries : List Query) :
    let memo := (g.session queries (g.openMemo strategy)).2
    let automaton := (g.canonical memo).1
    (∀ x, Halts (primeStep g.symbols) (g.start ++ "'") x ↔ x = g.augmentedStart) ∧
    (∀ table, Halts g.solvePass g.noFirst table ↔ table = g.solveFirst) ∧
    (∀ (c : Calculator) (x : Symbol), ∃! out : SymbolSet × Calculator,
      g.Expands c x out.1 out.2) ∧
    (∀ query : Query, query.AsksFirst → ∀ answer c, g.Call ⟨[], memo⟩ query answer c ↔
      answer = (g.ask memo query).1 ∧ c = ⟨[], (g.ask memo query).2⟩) ∧
    (∀ items last, Halts g.closePass (distinct items, memo) last ↔ last = g.closure items memo) ∧
    (∃ last, (∀ c, g.Collects memo c ↔ c = last) ∧
      automaton = last.toAutomaton g.augmentedStart) ∧
    (∀ seeds, ∀ j ∈ (g.closure seeds memo).1, j ∉ seeds → g.Added seeds j) ∧
    ∃ space : Finset Item,
      (∀ i, i ∈ space ↔
        ((i.lhs, i.rhs) = (g.augmentedStart, [g.start]) ∨ (i.lhs, i.rhs) ∈ g.productions.pairs) ∧
        i.dot ≤ i.rhs.length ∧ (i.lookahead = endMarker ∨
          (i.lookahead ∈ g.bodySymbols ∧ g.isNonterminal i.lookahead = false))) ∧
      (∀ state ∈ automaton.states, ∀ i ∈ state.items, i ∈ space) ∧
      automaton.states.length ≤ 2 ^ space.card := by
  intro memo automaton
  have hm : memo.Credible g := stable_credible.session queries (credible_openMemo strategy)
  refine ⟨fun x => (halts_augmentedStart g).iff, fun table => (halts_solveFirst g).iff, ?_, ?_,
    fun items last => (halts_closure hm items).iff, ⟨g.fullCollection memo, ?_, rfl⟩,
    fun seeds j hj hnew => added_of_mem_closure hm hj hnew, g.itemSpace, ?_, ?_, ?_⟩
  · intro c x
    refine ⟨(_, _), expands_firstWhile c.marked x c.memo, ?_⟩
    rintro ⟨set, c'⟩ h
    obtain ⟨rfl, rfl⟩ := expands_iff.1 h
    rfl
  · exact fun query hquery answer c => call_iff hquery
  · exact fun c => collects_iff hm
  · exact fun i => mem_itemSpace
  · intro state hstate i hi
    obtain ⟨q, hq⟩ := List.mem_iff_getElem?.1 hstate
    exact ((canonical_automaton hm (Memo.agrees_answers _)).isItem hq i hi).mem_itemSpace
  · have hlength : automaton.states.length = (g.fullCollection memo).sets.length :=
      length_toAutomaton (full_done hm)
    have hsets := (exploring_full hm).sets
    have hspace : ∀ set ∈ (g.fullCollection memo).sets, ∀ j ∈ set, j ∈ g.itemSpace :=
      fun set hs j hj => (hsets.isItem set hs j hj).mem_itemSpace
    rw [hlength]
    exact length_le_two_pow hspace hsets.apart

/-- A grammar with `$` as a nonterminal, `ε` as a terminal, rules in a cycle and a nonterminal
without alternatives. -/
theorem everything_halts_odd :
    let g : Grammar :=
      ⟨[("$", [["ε", "$"]]), ("A", [["B", "$"]]), ("B", [["A"], []]), ("C", [])], "A", by decide⟩
    let memo := (g.session [.first "A"] (g.openMemo .guarded)).2
    let seed : Item := ⟨"A", ["B", "$"], 0, "x"⟩
    let added : Item := ⟨"B", ["A"], 0, "x"⟩
    (∃ c, g.Call ⟨[], memo⟩ (.first "B") (.symbols (.singleton epsilon)) c) ∧
    Halts g.closePass ([seed], memo) (g.closure [seed] memo) ∧
    added ∈ (g.closure [seed] memo).1 ∧ g.Added [seed] added ∧
    (g.canonical memo).1.states.length = 2 ∧
    ∃ space : Finset Item, (g.canonical memo).1.states.length ≤ 2 ^ space.card := by
  intro g memo seed added
  obtain ⟨-, -, -, calls, closures, -, adds, space, -, -, hbound⟩ :=
    everything_halts g .guarded [.first "A"]
  have hanswer : (g.ask memo (.first "B")).1 = .symbols (.singleton epsilon) := by decide +kernel
  have hmem : added ∈ (g.closure [seed] memo).1 := by decide +kernel
  have hcall := (calls (.first "B") trivial (.symbols (.singleton epsilon)) _).2 ⟨hanswer.symm, rfl⟩
  exact ⟨⟨_, hcall⟩, (closures [seed] _).2 rfl, hmem, adds [seed] added hmem (by decide),
    by decide +kernel, space, hbound⟩

end Grammar

end CanonicalLR
