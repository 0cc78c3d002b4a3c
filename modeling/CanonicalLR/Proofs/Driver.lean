import CanonicalLR.Proofs.Demands
import CanonicalLR.Proofs.Validity

/-!
# Reading a table

The standard driver keeps a stack of states, which begins with state 0 alone, and reads tokens that
are followed by the end marker.  `Configuration.step` is one of its steps and `Driver.run` a run of
at most a given number of them; an accepting run names the productions of its reductions in their
order.  A run is determined by where it begins (`AcceptsFrom.unique`).

`Automaton.Spells` is the invariant of the stack of a table that serves a canonical automaton: from
the bottom up the states lie on one path of the automaton.
-/

namespace CanonicalLR

/-- What the driver holds: the states on the stack, its top first, and the tokens left to read. -/
structure Configuration where
  stack : List Int
  input : List Symbol
deriving DecidableEq, Repr

/-- What one step of the driver does.  It is stuck when a cell sends it where there is nothing: it
reduces by an unknown production, finds no state below those it pops, finds no GOTO entry, or reads
past the end marker. -/
inductive Move where
  | shift (next : Configuration)
  | reduce (rule : Int) (next : Configuration)
  | accept
  | reject
  | stuck
deriving DecidableEq, Repr

/-- How a run ends, or that it has not ended yet. -/
inductive Verdict where
  | running
  | accepted (reductions : List Int)
  | rejected
  | stuck
deriving DecidableEq, Repr

namespace Configuration

/-- The configuration in which the driver begins to read some tokens. -/
def start (w : List Symbol) : Configuration := ⟨[0], w ++ [endMarker]⟩

/-- One step of the driver: a shift pushes a state and consumes the token, a reduction pops a state
for each symbol of the right-hand side and pushes the GOTO entry, and an empty cell rejects. -/
def step (g : Grammar) (table : Table) (c : Configuration) : Move :=
  match c.stack, c.input with
  | state :: _, token :: rest =>
    match table.action.get? state token with
    | none => .reject
    | some .accept => .accept
    | some (.shift target) => .shift ⟨target :: c.stack, rest⟩
    | some (.reduce k) =>
      match g.rule? k with
      | none => .stuck
      | some (lhs, rhs) =>
        match c.stack.drop rhs.length with
        | [] => .stuck
        | top :: below =>
          match table.goto.get? top lhs with
          | none => .stuck
          | some target => .reduce k ⟨target :: top :: below, c.input⟩
  | _, _ => .stuck

end Configuration

/-- The outcome with one more reduction before it. -/
def Verdict.after (k : Int) : Verdict → Verdict
  | .accepted reductions => .accepted (k :: reductions)
  | outcome => outcome

/-- A run of at most the given number of steps. -/
def Driver.run (g : Grammar) (table : Table) : Nat → Configuration → Verdict
  | 0, _ => .running
  | n + 1, c =>
    match c.step g table with
    | .shift next => run g table n next
    | .reduce k next => (run g table n next).after k
    | .accept => .accepted []
    | .reject => .rejected
    | .stuck => .stuck

/-- Whether some numbers are, one by one, those of some productions. -/
def Grammar.Numbers (g : Grammar) (ks : List Int) (ps : List (Symbol × List Symbol)) : Prop :=
  ks.map g.rule? = ps.map some

/-- Whether the driver accepts from a configuration on, with the given reductions. -/
def AcceptsFrom (g : Grammar) (table : Table) (c : Configuration) (ks : List Int) : Prop :=
  ∃ n, Driver.run g table n c = .accepted ks

/-- Whether the driver accepts some tokens with the given reductions. -/
def Accepts (g : Grammar) (table : Table) (w : List Symbol) (ks : List Int) : Prop :=
  AcceptsFrom g table (.start w) ks

section Runs

variable {g : Grammar} {table : Table} {c next : Configuration} {k : Int} {ks ks' : List Int}

theorem Grammar.Numbers.cons {r : Symbol × List Symbol} {ps : List (Symbol × List Symbol)}
    (h : g.Numbers ks ps) (hk : g.rule? k = some r) : g.Numbers (k :: ks) (r :: ps) := by
  rw [Numbers, List.map_cons, List.map_cons, hk, h]

/-- The numbers determine the productions. -/
theorem Grammar.Numbers.unique {ps qs : List (Symbol × List Symbol)} (h : g.Numbers ks ps)
    (h' : g.Numbers ks qs) : ps = qs :=
  List.map_injective_iff.2 (Option.some_injective _) (h.symm.trans h')

/-- The first step of an accepting run, and the run that is left after it. -/
theorem Driver.run_eq_accepted {n : Nat} (h : Driver.run g table (n + 1) c = .accepted ks) :
    (∃ next, c.step g table = .shift next ∧ Driver.run g table n next = .accepted ks) ∨
    (∃ k next rest, c.step g table = .reduce k next ∧ Driver.run g table n next = .accepted rest ∧
      ks = k :: rest) ∨
    (c.step g table = .accept ∧ ks = []) := by
  rw [Driver.run] at h
  split at h
  · next next hs => exact .inl ⟨next, hs, h⟩
  · next k next hs =>
    cases ho : Driver.run g table n next with
    | accepted rest =>
      rw [ho] at h
      cases h
      exact .inr (.inl ⟨k, next, rest, hs, ho, rfl⟩)
    | _ =>
      rw [ho] at h
      cases h
  · next hs =>
    cases h
    exact .inr (.inr ⟨hs, rfl⟩)
  · cases h
  · cases h

theorem AcceptsFrom.shift (hs : c.step g table = .shift next) (h : AcceptsFrom g table next ks) :
    AcceptsFrom g table c ks := by
  obtain ⟨n, h⟩ := h
  refine ⟨n + 1, ?_⟩
  rw [Driver.run, hs]
  exact h

theorem AcceptsFrom.reduce (hs : c.step g table = .reduce k next)
    (h : AcceptsFrom g table next ks) : AcceptsFrom g table c (k :: ks) := by
  obtain ⟨n, h⟩ := h
  refine ⟨n + 1, ?_⟩
  rw [Driver.run, hs]
  show (Driver.run g table n next).after k = _
  rw [h, Verdict.after]

theorem AcceptsFrom.accept (hs : c.step g table = .accept) : AcceptsFrom g table c [] := by
  refine ⟨1, ?_⟩
  rw [Driver.run, hs]

/-- Two accepting runs from one configuration make the same reductions. -/
theorem AcceptsFrom.unique (h : AcceptsFrom g table c ks) (h' : AcceptsFrom g table c ks') :
    ks = ks' := by
  obtain ⟨n, h⟩ := h
  obtain ⟨m, h'⟩ := h'
  induction n generalizing c m ks ks' with
  | zero => cases h
  | succ n ih =>
    cases m with
    | zero => cases h'
    | succ m =>
      rcases Driver.run_eq_accepted h with
          ⟨next, hs, hn⟩ | ⟨k, next, rest, hs, hn, rfl⟩ | ⟨hs, rfl⟩ <;>
        rcases Driver.run_eq_accepted h' with
          ⟨next', hs', hn'⟩ | ⟨k', next', rest', hs', hn', rfl⟩ | ⟨hs', rfl⟩ <;>
        cases hs.symm.trans hs'
      · exact ih hn m hn'
      · rw [ih hn m hn']
      · rfl

end Runs

/-! ## Steps by the cells of the table -/

section Steps

variable {g : Grammar} {table : Table} {q t top : Int} {stack below : List Int} {a A : Symbol}
  {input rhs : List Symbol} {k : Int} {next : Configuration}

theorem step_shift (h : table.action.get? q a = some (.shift t)) :
    (⟨q :: stack, a :: input⟩ : Configuration).step g table =
      .shift ⟨t :: q :: stack, input⟩ := by
  simp only [Configuration.step, h]

theorem step_accept (h : table.action.get? q a = some .accept) :
    (⟨q :: stack, a :: input⟩ : Configuration).step g table = .accept := by
  simp only [Configuration.step, h]

theorem step_reduce (h : table.action.get? q a = some (.reduce k)) (hk : g.rule? k = some (A, rhs))
    (hpop : (q :: stack).drop rhs.length = top :: below) (ht : table.goto.get? top A = some t) :
    (⟨q :: stack, a :: input⟩ : Configuration).step g table =
      .reduce k ⟨t :: top :: below, a :: input⟩ := by
  simp only [Configuration.step, h, hk, hpop, ht]

/-- The cells that make the driver shift. -/
theorem eq_of_step_shift
    (h : (⟨q :: stack, a :: input⟩ : Configuration).step g table = .shift next) :
    ∃ t, table.action.get? q a = some (.shift t) ∧ next = ⟨t :: q :: stack, input⟩ := by
  unfold Configuration.step at h
  simp only at h
  split at h
  · cases h
  · cases h
  · next t ht =>
    cases h
    exact ⟨t, ht, rfl⟩
  · split at h
    · cases h
    · split at h
      · cases h
      · split at h <;> cases h

/-- The cells that make the driver accept. -/
theorem eq_of_step_accept (h : (⟨q :: stack, a :: input⟩ : Configuration).step g table = .accept) :
    table.action.get? q a = some .accept := by
  unfold Configuration.step at h
  simp only at h
  split at h
  · cases h
  · assumption
  · cases h
  · split at h
    · cases h
    · split at h
      · cases h
      · split at h <;> cases h

/-- The cells that make the driver reduce. -/
theorem eq_of_step_reduce
    (h : (⟨q :: stack, a :: input⟩ : Configuration).step g table = .reduce k next) :
    ∃ A rhs top below t, table.action.get? q a = some (.reduce k) ∧ g.rule? k = some (A, rhs) ∧
      (q :: stack).drop rhs.length = top :: below ∧ table.goto.get? top A = some t ∧
      next = ⟨t :: top :: below, a :: input⟩ := by
  unfold Configuration.step at h
  simp only at h
  split at h
  · cases h
  · cases h
  · cases h
  · next k' hk =>
    split at h
    · cases h
    · next A rhs hr =>
      split at h
      · cases h
      · next top below hpop =>
        split at h
        · cases h
        · next t ht =>
          cases h
          exact ⟨A, rhs, top, below, t, hk, hr, hpop, ht, rfl⟩

end Steps

/-! ## The stack -/

/-- Whether the states of a stack lie on a path from state 0 that spells some symbols. -/
inductive Automaton.Spells (a : Automaton) : List Int → List Symbol → Prop
  | bottom : Spells a [0] []
  | push {stack : List Int} {p t : Nat} {γ : List Symbol} {x : Symbol} {state : State}
      (h : Spells a (p :: stack) γ) (hp : a.states[p]? = some state)
      (ht : state.target? x = some (t : Int)) : Spells a (t :: p :: stack) (γ ++ [x])

namespace Automaton.Spells

variable {a : Automaton} {stack : List Int} {γ δ : List Symbol}

/-- The state on the top is the one where the path leads. -/
theorem path (h : a.Spells stack γ) :
    ∃ (p : Nat) (below : List Int), stack = (p : Int) :: below ∧ a.Path 0 γ p := by
  induction h with
  | bottom => exact ⟨0, [], rfl, .refl 0⟩
  | push _ hp ht ih =>
    obtain ⟨r, below, e, hpath⟩ := ih
    obtain rfl := Int.ofNat.inj (List.cons.inj e).1
    exact ⟨_, _, rfl, hpath.tail hp ht⟩

/-- The state on the top has the items that stand where the path leads. -/
theorem top_of_holds {i : Item} (h : a.Spells stack γ) (hi : a.Holds γ i) :
    ∃ (p : Nat) (below : List Int) (state : State), stack = (p : Int) :: below ∧
      a.states[p]? = some state ∧ i ∈ state.items := by
  obtain ⟨p, below, e, hpath⟩ := h.path
  obtain ⟨q, state, hq, hs, hmem⟩ := hi
  obtain rfl := hpath.unique hq
  exact ⟨p, below, state, e, hs, hmem⟩

/-- Popping a state for each of some symbols leaves what spells the symbols before them. -/
theorem drop (h : a.Spells stack (γ ++ δ)) : a.Spells (stack.drop δ.length) γ := by
  induction δ using List.reverseRecOn generalizing stack with
  | nil => simpa using h
  | append_singleton δ x ih =>
    rw [← List.append_assoc] at h
    generalize hγ : γ ++ δ ++ [x] = γ' at h
    cases h with
    | bottom => simp at hγ
    | push h =>
      obtain ⟨rfl, -⟩ := List.append_inj' hγ rfl
      simpa using ih h

end Automaton.Spells

/-! ## What the cells say of the stack -/

section Cells

variable {a : Automaton} {g : Grammar} {F : List Symbol → SymbolSet} {policy : ConflictPolicy}
  {table : Table} {stack below : List Int} {γ : List Symbol} {q t k : Int} {x A : Symbol}
  {rhs : List Symbol}

/-- The items behind an action in the row of the state on the top. -/
theorem Automaton.Spells.asks (hs : table.Serves policy g a) (h : a.Spells (q :: below) γ)
    {act : Action} (hact : table.action.get? q x = some act) :
    ∃ (p : Nat) (state : State) (i : Item),
      q = p ∧ a.Path 0 γ p ∧ a.states[p]? = some state ∧ i ∈ state.items ∧
      g.Asks state i (.action x act) := by
  obtain ⟨p, hq, state, i, hp, hi, hask⟩ := hs.sound q (.action x act) hact
  obtain ⟨p', below', e, hpath⟩ := h.path
  obtain rfl : p = p' := Int.ofNat.inj (hq.symm.trans (List.cons.inj e).1)
  exact ⟨p, state, i, hq, hpath, hp, hi, hask⟩

/-- A shift is over a terminal and follows a transition. -/
theorem Automaton.Spells.shift (wf : g.WellFormed) (hc : a.Canonical g F)
    (hs : table.Serves policy g a) (h : a.Spells (q :: below) γ)
    (hact : table.action.get? q x = some (.shift t)) :
    x ≠ endMarker ∧ g.isNonterminal x = false ∧ a.Spells (t :: q :: below) (γ ++ [x]) := by
  obtain ⟨p, state, i, rfl, hpath, hp, hi, hask⟩ := h.asks hs hact
  cases hask with
  | shift hx hn ht =>
    refine ⟨?_, hn, ?_⟩
    · rintro rfl
      exact wf.endMarker ((hc.isItem hp i hi).mem_symbols wf hx)
    · obtain ⟨r, next, rfl, -, -⟩ := hc.target hp ht
      exact h.push hp ht

/-- The driver accepts at the end marker, when the stack spells the start symbol. -/
theorem Automaton.Spells.accept (wf : g.WellFormed) (hc : a.Canonical g F)
    (hs : table.Serves policy g a) (h : a.Spells (q :: below) γ)
    (hact : table.action.get? q x = some .accept) : x = endMarker ∧ γ = [g.start] := by
  obtain ⟨p, state, i, rfl, hpath, hp, hi, hask⟩ := h.asks hs hact
  cases hask with
  | accept hn hl =>
    have hitem := hc.isItem hp i hi
    obtain ⟨δ, rfl, hδ⟩ := hpath.origin hc hp hi
    rw [Item.take_dot hn, (hitem.of_augmentedStart hl).1]
    refine ⟨rfl, ?_⟩
    rcases hδ.head_after_dot hc rfl with ⟨rfl, -⟩ | ⟨j, ⟨r, next, -, hr, hj⟩, hx⟩
    · rfl
    · -- the augmented start stands after no dot
      have hx : j.next? = some g.augmentedStart := hl ▸ hx
      exact absurd ((hc.isItem hr j hj).mem_symbols wf hx) Grammar.augmentedStart_not_mem

/-- A reduction finds the right-hand side of its production on the stack, and below it the item
from which the right-hand side began. -/
theorem Automaton.Spells.reduce (hc : a.Canonical g F) (hs : table.Serves policy g a)
    (h : a.Spells (q :: below) γ) (hact : table.action.get? q x = some (.reduce k)) :
    ∃ A rhs δ, g.rule? k = some (A, rhs) ∧ γ = δ ++ rhs ∧ a.Holds δ ⟨A, rhs, 0, x⟩ := by
  obtain ⟨p, state, i, rfl, hpath, hp, hi, hask⟩ := h.asks hs hact
  cases hask with
  | reduce hn hk =>
    obtain ⟨δ, rfl, hδ⟩ := hpath.origin hc hp hi
    rw [Item.take_dot hn]
    exact ⟨i.lhs, i.rhs, δ, Grammar.rule?_of_ruleId? hk, rfl, hδ⟩

/-- A GOTO entry follows a transition. -/
theorem Automaton.Spells.goto (hc : a.Canonical g F) (hs : table.Serves policy g a)
    (h : a.Spells (q :: below) γ) (hgoto : table.goto.get? q A = some t) :
    a.Spells (t :: q :: below) (γ ++ [A]) := by
  obtain ⟨p, rfl, state, i, hp, -, hask⟩ := hs.sound q (.goto A t) hgoto
  cases hask with
  | goto hx hn ht =>
    obtain ⟨r, next, rfl, -, -⟩ := hc.target hp ht
    exact h.push hp ht

/-- Where a production begins on the top of the stack, the state there has a GOTO entry for its
left-hand side, whatever actions clash. -/
theorem Automaton.Spells.exists_goto (hc : a.Canonical g F) (hs : table.Serves policy g a)
    (h : a.Spells stack γ) (hr : (A, rhs) ∈ g.productions.pairs)
    (hi : a.Holds γ ⟨A, rhs, 0, x⟩) : ∃ top below t, stack = top :: below ∧
      table.goto.get? top A = some t ∧ a.Spells (t :: top :: below) (γ ++ [A]) := by
  obtain ⟨j, hj, hx⟩ : ∃ j, a.Holds γ j ∧ j.next? = some A := by
    refine (hi.head_after_dot hc rfl).resolve_left fun hinitial => ?_
    have hA : A = g.augmentedStart := congrArg Item.lhs hinitial.2
    exact Grammar.augmentedStart_not_mem_of_mem hr (hA ▸ List.mem_cons_self)
  obtain ⟨p, below, state, rfl, hp, hmem⟩ := h.top_of_holds hj
  obtain ⟨t, ht⟩ := (hc.moves hp A).2 ⟨j, hmem, hx⟩
  have hdemand : a.Demands g p (.goto A t) :=
    ⟨state, j, hp, hmem, .goto hx (Grammar.isNonterminal_of_mem hr) ht⟩
  obtain ⟨t', hgoto⟩ := (hs.occupied p _ hdemand).goto
  exact ⟨p, below, t', rfl, hgoto, h.goto hc hs hgoto⟩

end Cells

end CanonicalLR
