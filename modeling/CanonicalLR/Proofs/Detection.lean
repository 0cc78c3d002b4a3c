import CanonicalLR.Proofs.Progress

/-!
# Errors are detected at once

The tokens that the driver has read are always the beginning of something: if the row of the state
on the top has any action on a token, some sentence begins with what was read and this token, and if
it has one on the end marker, what was read is a sentence (`sentence_of_action`).  So the driver
makes not even a reduction on a token that cannot follow.

An action is asked for by an item of the state on the top, and that item is valid for what the stack
spells.  Validity says how the rest of a sentence may look: behind what the stack spells comes what
stands behind the dot, and then a string of terminals that begins with the lookahead
(`Grammar.Valid.exists_derives`).
-/

namespace CanonicalLR

namespace Grammar

/-- Whether a string is a sentence: a string of terminals that the start symbol derives. -/
def Sentence (g : Grammar) (w : List Symbol) : Prop := g.AllTerminal w ∧ g.Derives [g.start] w

variable {g : Grammar} {state : State} {i : Item} {γ β u v : List Symbol} {x : Symbol}
  {act : Action}

/-- If an item is valid for `γ`, the start symbol derives `γ`, what stands behind the dot, and some
terminals that begin with the lookahead. -/
theorem Valid.exists_derives (wf : g.WellFormed) (h : g.augment.Valid γ i) :
    ∃ w, g.AllTerminal w ∧ i.lookahead = firstOrEnd w ∧
      g.Derives [g.start] (γ ++ (i.rhs.drop i.dot ++ w)) := by
  obtain ⟨-, δ, w, ps, rfl, hw, hps, hstep, hl⟩ := h
  refine ⟨w, (allTerminal_augment.1 hw).1, hl, ?_⟩
  have e : δ ++ i.rhs.take i.dot ++ (i.rhs.drop i.dot ++ w) = δ ++ i.rhs ++ w := by
    rw [List.append_assoc, ← List.append_assoc (i.rhs.take i.dot), List.take_append_drop,
      List.append_assoc]
  rw [e]
  rcases (hps.tail hstep).of_augmentedStart wf with ⟨hnil, -⟩ | ⟨qs, -, h⟩
  · simp at hnil
  · exact h.derives

theorem sentence_append (h : g.Derives [g.start] (γ ++ β)) (hu : g.AllTerminal u)
    (hγ : g.Derives γ u) (hv : g.AllTerminal v) (hβ : g.Derives β v) : g.Sentence (u ++ v) :=
  ⟨allTerminal_append.2 ⟨hu, hv⟩, h.trans (hγ.append hβ)⟩

theorem eq_nil_of_firstOrEnd (wf : g.WellFormed) {w : List Symbol}
    (h : g.Derives [g.start] (γ ++ w)) (he : firstOrEnd w = endMarker) : w = [] := by
  cases w with
  | nil => rfl
  | cons y w =>
    -- the end marker is no symbol of the grammar, so nothing derived has it
    obtain rfl : y = endMarker := he
    exact absurd (h.mem_symbols_of_start wf endMarker (by simp)) wf.endMarker

/-- Behind a complete item that is valid for what derives `u`, a sentence goes on with the
lookahead, or ends. -/
theorem Valid.sentence_of_complete (wf : g.WellFormed) (h : g.augment.Valid γ i)
    (hn : i.next? = none) (hu : g.AllTerminal u) (hγ : g.Derives γ u) :
    (i.lookahead ≠ endMarker → ∃ v, g.Sentence (u ++ i.lookahead :: v)) ∧
      (i.lookahead = endMarker → g.Sentence u) := by
  obtain ⟨w, hw, hl, hd⟩ := h.exists_derives wf
  rw [List.drop_eq_nil_iff.2 (List.getElem?_eq_none_iff.1 hn), List.nil_append] at hd
  have hs : g.Sentence (u ++ w) := sentence_append hd hu hγ hw .refl
  constructor
  · intro hne
    cases w with
    | nil => exact absurd hl hne
    | cons y w =>
      obtain rfl : i.lookahead = y := hl
      exact ⟨w, hs⟩
  · intro he
    obtain rfl := eq_nil_of_firstOrEnd wf hd (hl.symm.trans he)
    rwa [List.append_nil] at hs

/-- Behind an item with a terminal after its dot, a sentence goes on with this terminal. -/
theorem Valid.sentence_of_next (wf : g.WellFormed) (prod : g.Productive)
    (h : g.augment.Valid γ i) (hx : i.next? = some x) (hterm : g.isNonterminal x = false)
    (hu : g.AllTerminal u) (hγ : g.Derives γ u) : ∃ v, g.Sentence (u ++ x :: v) := by
  obtain ⟨w, hw, -, hd⟩ := h.exists_derives wf
  have hdrop : i.rhs.drop i.dot = x :: i.beyond :=
    List.append_cancel_left ((List.take_append_drop i.dot i.rhs).trans (Item.rhs_eq_of_next? hx))
  -- the symbols behind the dot derive some terminals, since every nonterminal does
  obtain ⟨v, hv, dv⟩ := prod.exists_derives i.beyond
  have hrest : g.Derives (x :: i.beyond ++ w) (x :: v ++ w) :=
    Derives.append (Derives.append (u := [x]) .refl dv) .refl
  rw [hdrop] at hd
  refine ⟨v ++ w, sentence_append hd hu hγ ?_ hrest⟩
  exact allTerminal_append.2 ⟨allTerminal_cons.2 ⟨hterm, hv⟩, hw⟩

/-- An item that asks for an action promises a sentence that goes on with its token. -/
theorem Asks.sentence (wf : g.WellFormed) (prod : g.Productive) (hitem : g.IsItem i)
    (hv : g.augment.Valid γ i) (h : g.Asks state i (.action x act)) (hu : g.AllTerminal u)
    (hγ : g.Derives γ u) :
    (x ≠ endMarker → ∃ v, g.Sentence (u ++ x :: v)) ∧ (x = endMarker → g.Sentence u) := by
  cases h with
  | accept hn hl =>
    have hend := hv.sentence_of_complete wf hn hu hγ
    rwa [hitem.start hl] at hend
  | reduce hn _ => exact hv.sentence_of_complete wf hn hu hγ
  | shift hx hterm _ =>
    refine ⟨fun _ => hv.sentence_of_next wf prod hx hterm hu hγ, ?_⟩
    rintro rfl
    exact absurd (hitem.mem_symbols wf hx) wf.endMarker

end Grammar

theorem Configuration.HasRead.eq_of_append {g : Grammar} {a : Automaton} {w u v γ : List Symbol}
    {c : Configuration} (h : c.HasRead g a w u γ) (hv : v ++ c.input = w ++ [endMarker]) : v = u :=
  List.append_cancel_right (hv.trans h.tokens.symm)

/-- **Immediate error detection.**  Let every nonterminal derive a string of terminals, FIRST be the
fixed point and the build succeed, under either policy.  When the driver has read `u` and the row of
the state on the top has an action on a token, some sentence begins with `u` and the token; if it
has one on the end marker, `u` is a sentence. -/
theorem sentence_of_action {text : String} {policy : ConflictPolicy} {b : Build}
    (h : build text ⟨policy, .fixedPoint⟩ = .ok b) (prod : b.listing.Productive)
    {w u : List Symbol} {n : Nat} {c : Configuration}
    (hreach : (Configuration.start w).after b.listing.toGrammar b.table n = some c)
    (hu : u ++ c.input = w ++ [endMarker]) {top : Int} {below : List Int}
    (hstack : c.stack = top :: below) {x : Symbol} {act : Action}
    (hact : b.table.action.get? top x = some act) :
    (x ≠ endMarker → ∃ v, b.listing.Sentence (u ++ x :: v)) ∧
      (x = endMarker → b.listing.Sentence u) := by
  obtain ⟨wf, ha, hs⟩ := serves_of_build h
  have hc : b.automaton.Canonical b.listing.toGrammar b.listing.firstOf :=
    ha ▸ Grammar.canonical_fixedPoint
  obtain ⟨u', γ, hread⟩ := (Configuration.hasRead_start w).after wf hc hs hreach
  obtain rfl := hread.eq_of_append hu
  have hspells := hread.spells
  rw [hstack] at hspells
  obtain ⟨p, state, i, -, hpath, hp, hi, hask⟩ := hspells.asks hs hact
  have hvalid := Grammar.valid_of_path wf prod hc hpath hp hi
  exact hask.sentence wf prod (hc.isItem hp i hi) hvalid hread.terminal hread.derives

/-- Behind `( x` only `)` has an action, and `( x` is indeed the beginning of a sentence with it. -/
theorem sentence_of_action_paren : ∃ b, build "P -> ( P ) | x" ⟨.overwrite, .fixedPoint⟩ = .ok b ∧
    b.listing.Productive ∧ ∃ c,
      (Configuration.start ["(", "x", "x"]).after b.listing.toGrammar b.table 2 = some c ∧
      ["(", "x"] ++ c.input = ["(", "x", "x"] ++ [endMarker] ∧ c.stack = [6, 2, 0] ∧
      b.table.action.get? 6 ")" = some (.reduce 1) ∧
      (")" ≠ endMarker → ∃ v, b.listing.Sentence (["(", "x"] ++ ")" :: v)) ∧
      (")" = endMarker → b.listing.Sentence ["(", "x"]) := by
  have hrun : (build "P -> ( P ) | x" ⟨.overwrite, .fixedPoint⟩).toOption.map (fun b =>
      (b.listing.productions,
        (Configuration.start ["(", "x", "x"]).after b.listing.toGrammar b.table 2,
        b.table.action.get? 6 ")")) =
      some ([("P", [["(", "P", ")"], ["x"]])], some ⟨[6, 2, 0], ["x", "$"]⟩, some (.reduce 1)) := by
    decide +kernel
  obtain ⟨b, hb, hr⟩ := exists_ok_of_toOption hrun
  simp only [Prod.mk.injEq] at hr
  obtain ⟨hp, hafter, hact⟩ := hr
  have prod : b.listing.Productive := by
    intro A hA
    have hA : A = "P" := by
      simpa [Grammar.isNonterminal, Grammar.nonterminals, Entries.keys, hp] using hA
    refine ⟨["x"], ?_, .of_mem (by rw [hp, hA]; decide)⟩
    simp [Grammar.isNonterminal, Grammar.nonterminals, Entries.keys, hp]
  have hread : ["(", "x"] ++ ["x", "$"] = ["(", "x", "x"] ++ [endMarker] := rfl
  exact ⟨b, hb, prod, _, hafter, hread, rfl, hact,
    sentence_of_action hb prod hafter hread rfl hact⟩

end CanonicalLR
