import CanonicalLR.Build
import CanonicalLR.Proofs.Reading

/-!
# Layout

A list of rules can be written down in many ways: with blanks around all parts of a line, with
blank lines anywhere, with any line breaks, and with an empty alternative as nothing or as `ε`
(`Renders`).  All of them are read, and as the same rules (`build_of_renders`).  Symbols may be made
of the characters of the notation: only an arrow inside a symbol and a bar inside one on the right
are excluded.

A blank end of a line does not matter, since reading a line looks at words only
(`readLine_strip`); so it is enough to say what is read off a line as it was written.
-/

namespace CanonicalLR

/-! ## Ways to write rules -/

/-- What may stand around the parts of a line: blanks other than line breaks. -/
def Text.Gap (cs : List Char) : Prop := Blank cs ∧ Unbroken cs

instance (cs : List Char) : Decidable (Text.Gap cs) := inferInstanceAs (Decidable (_ ∧ _))

/-- Whether a string can be written as a symbol. -/
structure Plain (x : Symbol) : Prop where
  nonempty : x.toList ≠ []
  solid : Text.Solid x.toList
  arrowless : Text.Arrowless x.toList
  unreserved : Unreserved x

instance (x : Symbol) : Decidable (Plain x) :=
  decidable_of_iff
    (x.toList ≠ [] ∧ Text.Solid x.toList ∧ Text.Arrowless x.toList ∧ Unreserved x)
    ⟨fun h => ⟨h.1, h.2.1, h.2.2.1, h.2.2.2⟩,
      fun h => ⟨h.nonempty, h.solid, h.arrowless, h.unreserved⟩⟩

/-- A rule as it stands on a line: a left-hand side with its alternatives. -/
structure RuleLine where
  lhs : Symbol
  alternatives : List (List Symbol)
deriving DecidableEq, Repr

/-- The left-hand side with each alternative. -/
def RuleLine.pairs (rule : RuleLine) : List (Symbol × List Symbol) :=
  rule.alternatives.map (rule.lhs, ·)

/-- Whether the symbols of an alternative can be written. -/
def PlainBody (body : List Symbol) : Prop := ∀ x ∈ body, Plain x ∧ '|' ∉ x.toList

instance (body : List Symbol) : Decidable (PlainBody body) :=
  inferInstanceAs (Decidable (∀ x ∈ body, _))

/-- Whether a rule can be written: it has an alternative, and all symbols can be written. -/
structure RuleLine.Plain (rule : RuleLine) : Prop where
  lhs : CanonicalLR.Plain rule.lhs
  some : rule.alternatives ≠ []
  bodies : ∀ body ∈ rule.alternatives, PlainBody body

instance (rule : RuleLine) : Decidable rule.Plain :=
  decidable_of_iff
    (Plain rule.lhs ∧ rule.alternatives ≠ [] ∧ ∀ body ∈ rule.alternatives, PlainBody body)
    ⟨fun h => ⟨h.1, h.2.1, h.2.2⟩, fun h => ⟨h.lhs, h.some, h.bodies⟩⟩

/-- Symbols with a gap between any two neighbours. -/
inductive Spaced : List Symbol → List Char → Prop
  | one (x : Symbol) : Spaced [x] x.toList
  | cons (x : Symbol) {y : Symbol} {rest : List Symbol} {gap cs : List Char} (hgap : Text.Gap gap)
      (hne : gap ≠ []) (h : Spaced (y :: rest) cs) :
      Spaced (x :: y :: rest) (x.toList ++ (gap ++ cs))

/-- An alternative with gaps around it; the empty one is written as nothing or as `ε`. -/
inductive WrittenBody : List Symbol → List Char → Prop
  | symbols {body : List Symbol} {before cs after : List Char} (hb : Text.Gap before)
      (h : Spaced body cs) (ha : Text.Gap after) : WrittenBody body (before ++ cs ++ after)
  | nothing {gap : List Char} (h : Text.Gap gap) : WrittenBody [] gap
  | sign {before after : List Char} (hb : Text.Gap before) (ha : Text.Gap after) :
      WrittenBody [] (before ++ epsilon.toList ++ after)

/-- Alternatives with a bar between any two neighbours. -/
inductive WrittenBodies : List (List Symbol) → List Char → Prop
  | one {body : List Symbol} {cs : List Char} (h : WrittenBody body cs) : WrittenBodies [body] cs
  | cons {body : List Symbol} {bodies : List (List Symbol)} {cs rest : List Char}
      (h : WrittenBody body cs) (hrest : WrittenBodies bodies rest) :
      WrittenBodies (body :: bodies) (cs ++ '|' :: rest)

/-- The line of a rule: its left-hand side between gaps, an arrow, and its alternatives. -/
inductive RuleLine.Written (rule : RuleLine) : List Char → Prop
  | intro {before after cs : List Char} (hb : Text.Gap before) (ha : Text.Gap after)
      (h : WrittenBodies rule.alternatives cs) :
      Written rule ((before ++ rule.lhs.toList ++ after) ++ '-' :: '>' :: cs)

/-- Rules on lines of their own, with blank lines anywhere. -/
inductive WrittenLines : List RuleLine → List (List Char) → Prop
  | nil : WrittenLines [] []
  | rule {rule : RuleLine} {rules : List RuleLine} {line : List Char} {lines : List (List Char)}
      (h : rule.Written line) (hrest : WrittenLines rules lines) :
      WrittenLines (rule :: rules) (line :: lines)
  | blank {rules : List RuleLine} {line : List Char} {lines : List (List Char)}
      (h : Text.Gap line) (hrest : WrittenLines rules lines) : WrittenLines rules (line :: lines)

/-- Lines with a line break between any two neighbours. -/
inductive Text.Joined : List (List Char) → List Char → Prop
  | one (line : List Char) : Joined [line] line
  | cons (line : List Char) {lines : List (List Char)} {brk cs : List Char} (hb : LineBreak brk)
      (h : Joined lines cs) : Joined (line :: lines) (line ++ brk ++ cs)

/-- Whether a text is one of the ways to write some rules. -/
def Renders (rules : List RuleLine) (text : String) : Prop :=
  ∃ lines, WrittenLines rules lines ∧ Text.Joined lines text.toList

/-! ## The parts of a line -/

section Parts

variable {body : List Symbol} {bodies : List (List Symbol)} {cs gap : List Char}

theorem Text.Gap.nil : Text.Gap [] := ⟨blank_nil, by simp [Unbroken]⟩

theorem toList_epsilon : epsilon.toList = ['ε'] := by decide

/-- What holds of the characters of all gaps and symbols holds of all characters of an
alternative. -/
theorem Spaced.forall {P : Char → Prop} (hgap : ∀ gap, Text.Gap gap → ∀ c ∈ gap, P c)
    (hbody : ∀ x ∈ body, ∀ c ∈ x.toList, P c) (h : Spaced body cs) : ∀ c ∈ cs, P c := by
  induction h with
  | one x => exact hbody x List.mem_cons_self
  | @cons x y rest gap cs hg _ _ ih =>
    have hrest := ih fun z hz => hbody z (List.mem_cons_of_mem _ hz)
    intro c hc
    rcases List.mem_append.1 hc with hc | hc
    · exact hbody x List.mem_cons_self c hc
    · rcases List.mem_append.1 hc with hc | hc
      · exact hgap gap hg c hc
      · exact hrest c hc

theorem WrittenBody.forall {P : Char → Prop} (hgap : ∀ gap, Text.Gap gap → ∀ c ∈ gap, P c)
    (hε : P 'ε') (hbody : ∀ x ∈ body, ∀ c ∈ x.toList, P c) (h : WrittenBody body cs) :
    ∀ c ∈ cs, P c := by
  intro c hc
  cases h with
  | symbols hb h ha =>
    simp only [List.mem_append, or_assoc] at hc
    rcases hc with hc | hc | hc
    · exact hgap _ hb c hc
    · exact h.forall hgap hbody c hc
    · exact hgap _ ha c hc
  | nothing h => exact hgap _ h c hc
  | sign hb ha =>
    simp only [toList_epsilon, List.mem_append, List.mem_singleton, or_assoc] at hc
    rcases hc with hc | rfl | hc
    · exact hgap _ hb c hc
    · exact hε
    · exact hgap _ ha c hc

theorem Plain.unbroken {x : Symbol} (h : Plain x) : Text.Unbroken x.toList := by
  intro c hc
  have hsolid := h.solid c hc
  constructor
  · rintro rfl
    exact absurd hsolid (by decide)
  · rintro rfl
    exact absurd hsolid (by decide)

theorem WrittenBody.unbroken (hp : PlainBody body) (h : WrittenBody body cs) :
    Text.Unbroken cs :=
  h.forall (fun _ hgap => hgap.2) (by decide) fun x hx => (hp x hx).1.unbroken

theorem WrittenBody.bar_not_mem (hp : PlainBody body) (h : WrittenBody body cs) : '|' ∉ cs := by
  have hne : ∀ c ∈ cs, c ≠ '|' := by
    refine h.forall (fun gap hgap c hc => ?_) (by decide) fun x hx c hc => ?_
    · rintro rfl
      exact hgap.1.not_mem (by decide) hc
    · rintro rfl
      exact (hp x hx).2 hc
  exact fun hm => hne _ hm rfl

theorem Spaced.arrowless (hp : PlainBody body) (h : Spaced body cs) : Text.Arrowless cs := by
  induction h with
  | one x => exact (hp x List.mem_cons_self).1.arrowless
  | @cons x y rest gap cs hgap hne _ ih =>
    have hrest := ih fun z hz => hp z (List.mem_cons_of_mem _ hz)
    exact (hp x List.mem_cons_self).1.arrowless.append_gap hrest hgap.1 hne

theorem WrittenBody.arrowless (hp : PlainBody body) (h : WrittenBody body cs) :
    Text.Arrowless cs := by
  cases h with
  | symbols hb h ha => exact ((h.arrowless hp).blank_append hb.1).append_blank ha.1
  | nothing h => exact Text.arrowless_of_blank h.1
  | sign hb ha =>
    have hε : Text.Arrowless epsilon.toList := Text.arrowless_of_not_mem (by decide)
    exact (hε.blank_append hb.1).append_blank ha.1

theorem Spaced.words (hp : PlainBody body) (h : Spaced body cs) :
    Text.words cs = body.map String.toList := by
  induction h with
  | one x =>
    have hx := (hp x List.mem_cons_self).1
    exact Text.words_of_solid hx.nonempty hx.solid
  | @cons x y rest gap cs hgap hne _ ih =>
    have hx := (hp x List.mem_cons_self).1
    have hrest := ih fun z hz => hp z (List.mem_cons_of_mem _ hz)
    have hhead : (gap ++ cs).head?.all Text.isBlank = true := by
      obtain ⟨c, gap, rfl⟩ := List.exists_cons_of_ne_nil hne
      simp [(Text.blank_cons.1 hgap.1).1]
    rw [Text.words_word_append hx.nonempty hx.solid hhead, Text.words_blank_append hgap.1, hrest]
    rfl

/-- An alternative is read as it was written. -/
theorem WrittenBody.read (hp : PlainBody body) (h : WrittenBody body cs) :
    readAlternative cs = .ok body := by
  cases h with
  | @symbols _ before cs after hb h ha =>
    have hread : readSymbols (before ++ cs ++ after) = body := by
      rw [readSymbols, Text.words_append_blank ha.1, Text.words_blank_append hb.1, h.words hp,
        List.map_map]
      simp
    exact readAlternative_eq_ok.2 (.inr ⟨hread, fun x hx => (hp x hx).1.unreserved⟩)
  | nothing h =>
    rw [readAlternative, readSymbols, Text.words_of_blank h.1]
    rfl
  | @sign before after hb ha =>
    have hread : readSymbols (before ++ epsilon.toList ++ after) = [epsilon] := by
      rw [readSymbols, Text.words_append_blank ha.1, Text.words_blank_append hb.1]
      decide
    exact readAlternative_eq_ok.2 (.inl ⟨hread, rfl⟩)

theorem WrittenBodies.unbroken (hp : ∀ body ∈ bodies, PlainBody body)
    (h : WrittenBodies bodies cs) :
    Text.Unbroken cs := by
  induction h with
  | one h => exact h.unbroken (hp _ List.mem_cons_self)
  | cons h _ ih =>
    have hrest := ih fun body hb => hp body (List.mem_cons_of_mem _ hb)
    have hfirst := h.unbroken (hp _ List.mem_cons_self)
    intro c hc
    rcases List.mem_append.1 hc with hc | hc
    · exact hfirst c hc
    · rcases List.mem_cons.1 hc with rfl | hc
      · decide
      · exact hrest c hc

theorem WrittenBodies.arrowless (hp : ∀ body ∈ bodies, PlainBody body)
    (h : WrittenBodies bodies cs) : Text.Arrowless cs := by
  induction h with
  | one h => exact h.arrowless (hp _ List.mem_cons_self)
  | cons h _ ih =>
    have hrest := ih fun body hb => hp body (List.mem_cons_of_mem _ hb)
    exact (h.arrowless (hp _ List.mem_cons_self)).append_cons hrest (by decide) (by decide)

theorem WrittenBodies.read (hp : ∀ body ∈ bodies, PlainBody body) (h : WrittenBodies bodies cs) :
    readAlternatives (Text.pieces '|' cs) = .ok bodies := by
  induction h with
  | one h =>
    have hbody := hp _ List.mem_cons_self
    rw [Text.pieces_of_not_mem (h.bar_not_mem hbody)]
    exact readAlternatives_cons_eq_ok.2 ⟨_, [], h.read hbody, rfl, rfl⟩
  | cons h _ ih =>
    have hbody := hp _ List.mem_cons_self
    have hrest := ih fun body hb => hp body (List.mem_cons_of_mem _ hb)
    rw [Text.pieces_append_sep (h.bar_not_mem hbody)]
    exact readAlternatives_cons_eq_ok.2 ⟨_, _, h.read hbody, hrest, rfl⟩

end Parts

/-! ## One line -/

section Line

variable {cs gap : List Char} {init : List (List Char)} {last line : List Char} {rule : RuleLine}

theorem readSymbols_blank_append (h : Text.Blank gap) :
    readSymbols (gap ++ cs) = readSymbols cs := by
  rw [readSymbols, readSymbols, Text.words_blank_append h]

theorem readSymbols_append_blank (h : Text.Blank gap) :
    readSymbols (cs ++ gap) = readSymbols cs := by
  rw [readSymbols, readSymbols, Text.words_append_blank h]

theorem readAlternatives_append_blank (h : Text.Blank gap) :
    readAlternatives (init ++ [last ++ gap]) = readAlternatives (init ++ [last]) := by
  induction init with
  | nil =>
    have hlast : readAlternative (last ++ gap) = readAlternative last := by
      rw [readAlternative, readAlternative, readSymbols_append_blank h]
    simp only [List.nil_append, readAlternatives, hlast]
  | cons piece init ih =>
    rw [List.cons_append, List.cons_append, readAlternatives, readAlternatives, ih]

theorem readLine_blank_append (h : Text.Blank gap) : readLine (gap ++ cs) = readLine cs := by
  unfold readLine
  rw [Text.cutArrow_blank_append h]
  cases Text.cutArrow cs with
  | none => rfl
  | some cut =>
    have hhead : readHead (gap ++ cut.1) = readHead cut.1 := by
      rw [readHead, readHead, readSymbols_blank_append h]
    simp only [Option.map_some, hhead]

theorem readLine_append_blank (h : Text.Blank gap) : readLine (cs ++ gap) = readLine cs := by
  unfold readLine
  rw [Text.cutArrow_append_blank h]
  cases Text.cutArrow cs with
  | none => rfl
  | some cut =>
    have hbodies : readAlternatives (Text.pieces '|' (cut.2 ++ gap)) =
        readAlternatives (Text.pieces '|' cut.2) := by
      have hbar : '|' ∉ gap := h.not_mem (by decide)
      obtain ⟨init, last, hcs, hgap⟩ := Text.exists_pieces_append hbar cut.2
      rw [hcs, hgap, readAlternatives_append_blank h]
    have hsome : (Text.cutArrow (cut.2 ++ gap)).isSome = (Text.cutArrow cut.2).isSome := by
      rw [Text.cutArrow_append_blank h, Option.isSome_map]
    simp only [Option.map_some, hbodies, hsome]

/-- Blanks at the ends of a line make no difference. -/
theorem readLine_strip (line : List Char) : readLine (Text.strip line) = readLine line := by
  obtain ⟨before, after, hb, ha, hline⟩ := Text.exists_strip line
  conv_rhs => rw [hline, readLine_append_blank ha, readLine_blank_append hb]

namespace RuleLine.Written

theorem not_blank (h : rule.Written line) : ¬ Text.Blank line := by
  cases h with
  | intro hb ha h =>
    intro hblank
    have hdash : Text.isBlank '-' = true := hblank '-' (by simp)
    exact absurd hdash (by decide)

theorem unbroken (hp : rule.Plain) (h : rule.Written line) : Text.Unbroken line := by
  cases h with
  | intro hb ha h =>
    have hbodies := h.unbroken hp.bodies
    intro c hc
    simp only [List.mem_append, List.mem_cons, or_assoc] at hc
    rcases hc with hc | hc | hc | rfl | rfl | hc
    · exact hb.2 c hc
    · exact hp.lhs.unbroken c hc
    · exact ha.2 c hc
    · decide
    · decide
    · exact hbodies c hc

/-- The line of a rule is read as the rule. -/
theorem read (hp : rule.Plain) (h : rule.Written line) : readLine line = .ok rule.pairs := by
  cases h with
  | @intro before after cs hb ha h =>
    have hl := hp.lhs
    have hsymbols : readSymbols (before ++ rule.lhs.toList ++ after) = [rule.lhs] := by
      rw [readSymbols_append_blank ha.1, readSymbols_blank_append hb.1, readSymbols,
        Text.words_of_solid hl.nonempty hl.solid]
      simp
    have hhead : readHead (before ++ rule.lhs.toList ++ after) = .ok rule.lhs :=
      readHead_eq_ok.2 ⟨hsymbols, hl.unreserved⟩
    have hleft := (hl.arrowless.blank_append hb.1).append_blank ha.1
    have hright := Text.cutArrow_eq_none_iff.2 (h.arrowless hp.bodies)
    exact readLine_eq_ok.2 ⟨_, cs, rule.lhs, rule.alternatives, Text.cutArrow_append hleft, hright,
      hhead, h.read hp.bodies, rfl⟩

end RuleLine.Written

end Line

/-! ## All lines -/

section Lines

variable {rules : List RuleLine} {line cs : List Char} {lines : List (List Char)} {number : Nat}

theorem WrittenLines.of_nil_cons (h : WrittenLines rules ([] :: lines)) :
    WrittenLines rules lines := by
  cases h with
  | rule h hrest => exact absurd Text.blank_nil h.not_blank
  | blank h hrest => exact hrest

theorem WrittenLines.unbroken (hp : ∀ rule ∈ rules, rule.Plain)
    (h : WrittenLines rules (line :: lines)) : Text.Unbroken line := by
  cases h with
  | rule h hrest => exact h.unbroken (hp _ List.mem_cons_self)
  | blank h hrest => exact h.2

/-- What follows the first line stays written when the line breaks are looked for. -/
theorem WrittenLines.tail {rest : List (List Char)} (h : WrittenLines rules (line :: lines))
    (hp : ∀ rule ∈ rules, rule.Plain)
    (hrest : ∀ {later : List RuleLine}, (∀ rule ∈ later, rule.Plain) → WrittenLines later lines →
      WrittenLines later rest) : WrittenLines rules (line :: rest) := by
  cases h with
  | rule h hlines =>
    exact .rule h (hrest (fun rule hr => hp rule (List.mem_cons_of_mem _ hr)) hlines)
  | blank h hlines => exact .blank h (hrest hp hlines)

/-- The lines of a text are again the lines that were joined, up to blank ones. -/
theorem WrittenLines.of_joined (hp : ∀ rule ∈ rules, rule.Plain) (h : WrittenLines rules lines)
    (hj : Text.Joined lines cs) : WrittenLines rules (Text.lines cs) := by
  induction hj generalizing rules with
  | one line => rwa [Text.lines_of_unbroken (h.unbroken hp)]
  | cons line hb _ ih =>
    rcases Text.lines_append_break (h.unbroken hp) hb with hsplit | ⟨ls, hnil, hsplit⟩
    · rw [hsplit]
      exact h.tail hp ih
    · rw [hsplit]
      refine h.tail hp fun hp hlines => ?_
      have hrest := ih hp hlines
      rw [hnil] at hrest
      exact hrest.of_nil_cons

theorem WrittenLines.read (hp : ∀ rule ∈ rules, rule.Plain) (h : WrittenLines rules lines) :
    readLines number lines = .ok (rules.flatMap RuleLine.pairs) := by
  induction h generalizing number with
  | nil => rfl
  | @rule rule rules line lines h _ ih =>
    have hrest := @ih (number + 1) fun rule hr => hp rule (List.mem_cons_of_mem _ hr)
    have hfirst := h.read (hp rule List.mem_cons_self)
    rw [← readLine_strip] at hfirst
    exact (readLines_cons_eq_ok h.not_blank).2 ⟨rule.pairs, _, hfirst, hrest, rfl⟩
  | blank h _ ih =>
    rw [readLines_blank_cons h.1]
    exact ih hp

theorem renders_of_joined {text : String} (h : WrittenLines rules lines)
    (hj : Text.Joined lines cs) (ht : text.toList = cs) : Renders rules text :=
  ⟨lines, h, ht ▸ hj⟩

/-- Every way to write some rules gives the listing of these rules. -/
theorem read_of_renders {first : RuleLine} {rest : List RuleLine} {text : String}
    (hp : ∀ rule ∈ first :: rest, rule.Plain) (h : Renders (first :: rest) text) :
    Listing.read text =
      .ok (.ofPairs ((first :: rest).flatMap RuleLine.pairs) first.lhs) := by
  obtain ⟨lines, hw, hj⟩ := h
  have hread : readLines 1 _ = _ := (hw.of_joined hp hj).read hp
  obtain ⟨body, bodies, hbodies⟩ :=
    List.exists_cons_of_ne_nil (hp first List.mem_cons_self).some
  have hpairs : (first :: rest).flatMap RuleLine.pairs =
      (first.lhs, body) :: (bodies.map (first.lhs, ·) ++ rest.flatMap RuleLine.pairs) := by
    rw [List.flatMap_cons, RuleLine.pairs, hbodies]
    rfl
  rw [hpairs] at hread ⊢
  rw [Listing.read, hread]

end Lines

/-- **Layout does not matter.**  Take at least one rule, each with at least one alternative, whose
symbols can be written.  Every way to write the rules down is read, as exactly these rules in their
order with the first left-hand side as the start symbol; any two ways give the same grammar and,
under every configuration, the same build or the same error. -/
theorem build_of_renders {rules : List RuleLine} (hne : rules ≠ [])
    (hp : ∀ rule ∈ rules, rule.Plain) {text : String} (h : Renders rules text) :
    ∃ listing, Listing.read text = .ok listing ∧
      listing.rules.map (fun rule => (rule.lhs, rule.rhs)) = rules.flatMap RuleLine.pairs ∧
      listing.productions = .ofPairs (rules.flatMap RuleLine.pairs) ∧
      rules.head?.map (·.lhs) = some listing.start ∧
      ∀ {other : String}, Renders rules other →
        Listing.read other = .ok listing ∧ ∀ config, build other config = build text config := by
  obtain ⟨first, rest, rfl⟩ := List.exists_cons_of_ne_nil hne
  have hread := read_of_renders hp h
  refine ⟨_, hread, Productions.map_numbered _ _ _, rfl, rfl, ?_⟩
  intro other hother
  have hsame := read_of_renders hp hother
  refine ⟨hsame, fun config => ?_⟩
  rw [build, build, hread, hsame]

/-- Symbols of dashes, angles and bars beside arrows without blanks around them.  One text has a
blank line first and `ε` for an empty alternative.  The other has no blank where it can do without,
a wide space between two symbols, and a tab between a long and a short line break. -/
theorem build_of_renders_dashes :
    let rules : List RuleLine := [⟨"-|", [[">-", "-"], []]⟩, ⟨">", [["-"]]⟩]
    rules ≠ [] ∧ (∀ rule ∈ rules, rule.Plain) ∧
    Renders rules "\n-| -> >- - | ε\n> -> -" ∧
    Renders rules "-|->>-\u3000-|\r\n\t\r>->-" ∧
    ∃ listing, Listing.read "\n-| -> >- - | ε\n> -> -" = .ok listing ∧
      Listing.read "-|->>-\u3000-|\r\n\t\r>->-" = .ok listing ∧
      listing.rules.map (fun rule => (rule.lhs, rule.rhs)) =
        [("-|", [">-", "-"]), ("-|", []), (">", ["-"])] ∧
      ∀ config, build "-|->>-\u3000-|\r\n\t\r>->-" config =
        build "\n-| -> >- - | ε\n> -> -" config := by
  intro rules
  have hp : ∀ rule ∈ rules, rule.Plain := by decide
  have wide : Renders rules "\n-| -> >- - | ε\n> -> -" := by
    have gap : Text.Gap [' '] := by decide
    have symbols : Spaced [">-", "-"] _ := .cons ">-" gap (by decide) (.one "-")
    have first : RuleLine.Written ⟨"-|", [[">-", "-"], []]⟩ _ :=
      .intro .nil gap (.cons (.symbols gap symbols gap) (.one (.sign gap .nil)))
    have second : RuleLine.Written ⟨">", [["-"]]⟩ _ :=
      .intro .nil gap (.one (.symbols gap (.one "-") .nil))
    exact renders_of_joined (.blank .nil (.rule first (.rule second .nil)))
      (.cons [] (.inr (.inr rfl)) (.cons _ (.inr (.inr rfl)) (.one _))) (by decide)
  have tight : Renders rules "-|->>-\u3000-|\r\n\t\r>->-" := by
    have gap : Text.Gap ['\u3000'] := by decide
    have tab : Text.Gap ['\t'] := by decide
    have symbols : Spaced [">-", "-"] _ := .cons ">-" gap (by decide) (.one "-")
    have first : RuleLine.Written ⟨"-|", [[">-", "-"], []]⟩ _ :=
      .intro .nil .nil (.cons (.symbols .nil symbols .nil) (.one (.nothing .nil)))
    have second : RuleLine.Written ⟨">", [["-"]]⟩ _ :=
      .intro .nil .nil (.one (.symbols .nil (.one "-") .nil))
    exact renders_of_joined (.rule first (.blank tab (.rule second .nil)))
      (.cons _ (.inl rfl) (.cons _ (.inr (.inl rfl)) (.one _))) (by decide)
  obtain ⟨listing, hread, hrules, -, -, hsame⟩ := build_of_renders (by decide) hp wide
  obtain ⟨hother, hbuild⟩ := hsame tight
  exact ⟨by decide, hp, wide, tight, listing, hread, hother, hrules, hbuild⟩

end CanonicalLR
