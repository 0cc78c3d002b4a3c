import CanonicalLR.Proofs.Gathering
import CanonicalLR.Proofs.Layout

/-!
# The texts that are read

Which texts are read, and as what, is said here without the reader.  A text is the lines it is made
of (`Text.Lined`), a raw line is a line between blanks (`Text.Stripped`), and a line is a rule if it
is made of a left-hand side, an arrow and alternatives between bars (`RuleLine.StandsOn`).  Each of
these relations is what the corresponding function computes, so a text determines its lines and a
line its rule.

`read_exact` says that nothing else is read.  The first line that is neither blank nor a rule is
reported, blank lines counted.  If there is no such line, the rules of the lines are the listing.
-/

namespace CanonicalLR

namespace Text

/-- The parts of a text between its line breaks.  A carriage return in front of a line feed is no
line break by itself. -/
inductive Lined : List (List Char) → List Char → Prop
  | last {line : List Char} (h : Unbroken line) : Lined [line] line
  | cons {line brk rest : List Char} {lines : List (List Char)} (h : Unbroken line)
      (hb : LineBreak brk) (whole : brk = ['\r'] → rest.head? ≠ some '\n')
      (hrest : Lined lines rest) : Lined (line :: lines) (line ++ (brk ++ rest))

/-- A line without the blanks around it. -/
def Stripped (line raw : List Char) : Prop :=
  (∃ before after, Blank before ∧ Blank after ∧ raw = before ++ line ++ after) ∧
    (∀ c ∈ line.head?, isBlank c = false) ∧ ∀ c ∈ line.getLast?, isBlank c = false

/-- The tokens of a text: runs of other characters, with blanks between them. -/
inductive Tokens : List (List Char) → List Char → Prop
  | nil {gap : List Char} (h : Blank gap) : Tokens [] gap
  | cons {gap word rest : List Char} {words : List (List Char)} (hgap : Blank gap)
      (hne : word ≠ []) (hw : Solid word) (hend : ∀ c ∈ rest.head?, isBlank c = true)
      (hrest : Tokens words rest) : Tokens (word :: words) (gap ++ (word ++ rest))

/-- The parts of a text around a separator. -/
def Separated (sep : Char) (parts : List (List Char)) (cs : List Char) : Prop :=
  parts ≠ [] ∧ (∀ part ∈ parts, sep ∉ part) ∧ [sep].intercalate parts = cs

variable {c sep : Char} {cs raw line : List Char} {ls parts : List (List Char)}

/-! ## Lines -/

theorem Lined.eq (h : Lined ls cs) : ls = lines cs := by
  induction h with
  | last h => rw [lines_of_unbroken h]
  | @cons line brk rest ls h hb whole _ ih =>
    subst ih
    refine (lines_append h ?_).symm
    rcases hb with rfl | rfl | rfl
    · simp [lines]
    · rw [List.singleton_append, lines]
      · simp
      · rintro others - rfl
        exact whole rfl rfl
    · simp [lines]

/-- Another character at the beginning of the first line. -/
theorem Lined.extend (h : Lined ls cs) (hr : c ≠ '\r') (hn : c ≠ '\n') :
    Lined (extendFirst c ls) (c :: cs) := by
  cases h with
  | last h => exact .last (unbroken_cons.2 ⟨⟨hr, hn⟩, h⟩)
  | cons h hb whole hrest => exact .cons (unbroken_cons.2 ⟨⟨hr, hn⟩, h⟩) hb whole hrest

theorem lined_lines (cs : List Char) : Lined (lines cs) cs := by
  have empty : Unbroken [] := by simp [Unbroken]
  fun_induction lines cs with
  | case1 => exact .last empty
  | case2 cs ih => exact .cons empty (.inl rfl) (by simp) ih
  | case3 c cs hne hc ih =>
    rcases hc with rfl | rfl
    · have hb : LineBreak ['\r'] := .inr (.inl rfl)
      refine Lined.cons empty hb (fun _ hhead => ?_) ih
      obtain ⟨rest, rfl⟩ : ∃ rest, cs = '\n' :: rest := by
        cases cs with
        | nil => cases hhead
        | cons d rest => exact ⟨rest, by rw [Option.some.inj hhead]⟩
      exact hne rest rfl rfl
    · have hb : LineBreak ['\n'] := .inr (.inr rfl)
      exact Lined.cons empty hb (by simp) ih
  | case4 c cs _ hc ih => exact ih.extend (fun e => hc (.inl e)) fun e => hc (.inr e)

theorem lined_iff : Lined ls cs ↔ ls = lines cs :=
  ⟨Lined.eq, fun h => h ▸ lined_lines cs⟩

/-! ## Blanks around a line -/

theorem dropWhile_blank_append {gap : List Char} (h : Blank gap)
    (hline : ∀ c ∈ cs.head?, isBlank c = false) : (gap ++ cs).dropWhile isBlank = cs := by
  induction gap with
  | nil =>
    cases cs with
    | nil => rfl
    | cons c cs => simp [hline c rfl]
  | cons c gap ih =>
    obtain ⟨hc, hgap⟩ := blank_cons.1 h
    rw [List.cons_append, List.dropWhile_cons_of_pos hc, ih hgap]

theorem stripEnd_append_blank {gap : List Char} (h : Blank gap)
    (hline : ∀ c ∈ cs.getLast?, isBlank c = false) : stripEnd (cs ++ gap) = cs := by
  have hgap : Blank gap.reverse := fun c hc => h c (List.mem_reverse.1 hc)
  rw [stripEnd, List.reverse_append, dropWhile_blank_append hgap, List.reverse_reverse]
  rwa [List.head?_reverse]

theorem stripped_iff : Stripped line raw ↔ line = strip raw := by
  constructor
  · rintro ⟨⟨before, after, hb, ha, rfl⟩, hhead, hlast⟩
    cases line with
    | nil =>
      rw [List.append_nil, strip_eq_nil_iff.2 (blank_append.2 ⟨hb, ha⟩)]
    | cons c line =>
      rw [strip, List.append_assoc, dropWhile_blank_append hb (by simpa using hhead),
        stripEnd_append_blank ha hlast]
  · rintro rfl
    have hdrop : ∀ (xs : List Char), ∀ c ∈ (xs.dropWhile isBlank).head?, isBlank c = false := by
      intro xs c hc
      have := List.head?_dropWhile_not isBlank xs
      rw [Option.mem_def.1 hc] at this
      exact this
    refine ⟨exists_strip raw, fun c hc => ?_, fun c hc => ?_⟩
    · refine hdrop raw c ?_
      -- what is left after both cuts begins as what is left after the first one
      have hprefix : strip raw <+: raw.dropWhile isBlank := by
        rw [strip, stripEnd, ← List.reverse_suffix, List.reverse_reverse]
        exact List.dropWhile_suffix _
      obtain ⟨after, hafter⟩ := hprefix
      rw [← hafter, List.head?_append, Option.mem_def.1 hc]
      rfl
    · refine hdrop (raw.dropWhile isBlank).reverse c ?_
      rwa [strip, stripEnd, List.getLast?_reverse] at hc

/-! ## Tokens and pieces -/

theorem solid_singleton : Solid [c] ↔ isBlank c = false := by simp [Solid]

/-- Another blank in front of the first token. -/
theorem Tokens.blank_cons (h : Tokens ls cs) (hc : isBlank c = true) : Tokens ls (c :: cs) := by
  cases h with
  | nil h => exact .nil (Text.blank_cons.2 ⟨hc, h⟩)
  | cons hgap hne hw hend hrest =>
    have hmore := Tokens.cons (Text.blank_cons.2 ⟨hc, hgap⟩) hne hw hend hrest
    exact hmore

theorem tokens_iff : Tokens ls cs ↔ ls = words cs := by
  constructor
  · intro h
    induction h with
    | nil h => rw [words_of_blank h]
    | @cons gap word rest ws hgap hne hw hend _ ih =>
      have hrest : rest.head?.all isBlank = true := by
        cases rest with
        | nil => rfl
        | cons c rest => exact hend c rfl
      rw [words_blank_append hgap, words_word_append hne hw hrest, ih]
  · rintro rfl
    induction cs with
    | nil => exact .nil blank_nil
    | cons c cs ih =>
      rw [words]
      split
      · next hc => exact ih.blank_cons hc
      · next hc =>
        have hc : isBlank c = false := by simpa using hc
        split
        · next hend =>
          refine Tokens.cons blank_nil (by simp) (solid_singleton.2 hc) (fun d hd => ?_) ih
          rw [Option.mem_def.1 hd] at hend
          exact hend
        · next hhead =>
          -- the word goes on, so no blanks stand in front of the first word of the rest
          generalize words cs = ws at ih
          cases ih with
          | nil h =>
            cases cs with
            | nil => simp at hhead
            | cons d cs => simp [(blank_cons.1 h).1] at hhead
          | @cons gap word rest ws hgap hne hw hend hrest =>
            cases gap with
            | nil =>
              have hword : Solid (c :: word) := List.forall_mem_cons.2 ⟨hc, hw⟩
              exact Tokens.cons blank_nil (by simp) hword hend hrest
            | cons d gap => simp [(blank_cons.1 hgap).1] at hhead

theorem separated_iff : Separated sep parts cs ↔ parts = pieces sep cs := by
  constructor
  · rintro ⟨hne, hparts, rfl⟩
    induction parts with
    | nil => exact absurd rfl hne
    | cons part parts ih =>
      have hpart := hparts part List.mem_cons_self
      cases parts with
      | nil => simp [pieces_of_not_mem hpart]
      | cons next parts =>
        have hrest := ih (by simp) fun p hp => hparts p (List.mem_cons_of_mem _ hp)
        rw [List.intercalate_cons_cons, List.append_assoc, List.singleton_append,
          pieces_append_sep hpart, ← hrest]
  · rintro rfl
    refine ⟨pieces_ne_nil, fun part hp => (mem_pieces hp).1, ?_⟩
    induction cs with
    | nil => rfl
    | cons c cs ih =>
      have hne : pieces sep cs ≠ [] := pieces_ne_nil
      obtain ⟨first, others, hpieces⟩ := List.exists_cons_of_ne_nil hne
      rw [pieces]
      rw [hpieces] at ih ⊢
      split
      · next hc =>
        rw [List.intercalate_cons_cons, ih, hc]
        rfl
      · cases others with
        | nil => simpa [extendFirst] using ih
        | cons next others =>
          rw [List.intercalate_cons_cons] at ih
          rw [extendFirst, List.intercalate_cons_cons, ← ih]
          rfl

end Text

/-! ## Rules on their lines -/

/-- What the text of an alternative stands for: its tokens, which are no reserved symbols, or the
empty alternative, of which `ε` is a sign. -/
def StandsFor (piece : List Char) (rhs : List Symbol) : Prop :=
  ∃ tokens, Text.Tokens tokens piece ∧ endMarker ∉ tokens.map String.ofList ∧
    (epsilon ∈ tokens.map String.ofList → tokens.map String.ofList = [epsilon]) ∧
    rhs = if tokens.map String.ofList = [epsilon] then [] else tokens.map String.ofList

namespace RuleLine

/-- Whether a line is a rule: one token that is not reserved, the only arrow of the line, and the
alternatives with bars between them. -/
def StandsOn (rule : RuleLine) (line : List Char) : Prop :=
  ∃ left right parts, line = left ++ '-' :: '>' :: right ∧
    Text.Arrowless left ∧ Text.Arrowless right ∧
    Text.Tokens [rule.lhs.toList] left ∧ Unreserved rule.lhs ∧
    Text.Separated '|' parts right ∧ List.Forall₂ StandsFor parts rule.alternatives

/-- Whether a raw line is a rule when the blanks around it are removed. -/
def On (rule : RuleLine) (raw : List Char) : Prop :=
  ∃ line, Text.Stripped line raw ∧ rule.StandsOn line

end RuleLine

/-- Whether a raw line can stand in a text that is read. -/
def Acceptable (raw : List Char) : Prop := Text.Blank raw ∨ ∃ rule : RuleLine, rule.On raw

/-- The first of some raw lines that is neither blank nor a rule, with its number and without the
blanks around it. -/
def FirstMalformed (raws : List (List Char)) (number : Nat) (line : List Char) : Prop :=
  ∃ before raw after, raws = before ++ raw :: after ∧ number = before.length + 1 ∧
    Text.Stripped line raw ∧ ¬ Acceptable raw ∧ ∀ earlier ∈ before, Acceptable earlier

section Lines

variable {piece line raw left : List Char} {pieces raws : List (List Char)} {rhs : List Symbol}
  {bodies : List (List Symbol)} {rule : RuleLine} {rules : List RuleLine} {number start : Nat}
  {pairs : List (Symbol × List Symbol)} {A : Symbol} {text : String} {listing : Listing}

theorem standsFor_iff : StandsFor piece rhs ↔ readAlternative piece = .ok rhs := by
  have hreserved : ∀ symbols : List Symbol, (∀ x ∈ symbols, Unreserved x) ↔
      endMarker ∉ symbols ∧ epsilon ∉ symbols := by
    intro symbols
    constructor
    · exact fun h => ⟨fun hm => (h _ hm).1 rfl, fun hm => (h _ hm).2 rfl⟩
    · rintro ⟨hd, he⟩ x hx
      exact ⟨fun e => hd (e ▸ hx), fun e => he (e ▸ hx)⟩
  rw [readAlternative_eq_ok, StandsFor]
  simp only [Text.tokens_iff, exists_eq_left]
  change endMarker ∉ readSymbols piece ∧ (epsilon ∈ readSymbols piece →
    readSymbols piece = [epsilon]) ∧ rhs = (if readSymbols piece = [epsilon] then [] else
      readSymbols piece) ↔ _
  constructor
  · rintro ⟨hd, he, rfl⟩
    by_cases hsign : readSymbols piece = [epsilon]
    · exact .inl ⟨hsign, if_pos hsign⟩
    · rw [if_neg hsign]
      exact .inr ⟨rfl, (hreserved _).2 ⟨hd, fun hm => hsign (he hm)⟩⟩
  · rintro (⟨hsign, rfl⟩ | ⟨rfl, hu⟩)
    · rw [hsign]
      decide
    · obtain ⟨hd, he⟩ := (hreserved _).1 hu
      refine ⟨hd, fun hm => absurd hm he, (if_neg fun hsign => he ?_).symm⟩
      rw [hsign]
      exact List.mem_cons_self

theorem forall₂_standsFor_iff :
    List.Forall₂ StandsFor pieces bodies ↔ readAlternatives pieces = .ok bodies := by
  induction pieces generalizing bodies with
  | nil =>
    rw [List.forall₂_nil_left_iff, readAlternatives]
    exact ⟨fun h => h ▸ rfl, fun h => (Except.ok.inj h).symm⟩
  | cons piece pieces ih =>
    simp only [List.forall₂_cons_left_iff, readAlternatives_cons_eq_ok, standsFor_iff, ih]

/-- The text in front of the arrow is read if it is one token. -/
theorem readHead_eq_ok_iff_tokens : readHead left = .ok A ↔
    Text.Tokens [A.toList] left ∧ Unreserved A := by
  rw [readHead_eq_ok, Text.tokens_iff, readSymbols]
  refine and_congr_left fun _ => ⟨fun h => ?_, fun h => by rw [← h]; simp⟩
  obtain ⟨word, hword, rfl⟩ := List.map_eq_singleton_iff.1 h
  rw [hword, String.toList_ofList]

/-- **A line is read if it is a rule**, and as that rule. -/
theorem readLine_eq_ok_iff_standsOn :
    readLine line = .ok pairs ↔ ∃ rule : RuleLine, rule.StandsOn line ∧ pairs = rule.pairs := by
  rw [readLine_eq_ok]
  constructor
  · rintro ⟨left, right, lhs, bodies, hcut, hright, hl, hb, rfl⟩
    obtain ⟨hleft, rfl⟩ := Text.cutArrow_eq_some hcut
    obtain ⟨htokens, hu⟩ := readHead_eq_ok_iff_tokens.1 hl
    exact ⟨⟨lhs, bodies⟩, ⟨left, right, _, rfl, hleft, Text.cutArrow_eq_none_iff.1 hright, htokens,
      hu, Text.separated_iff.2 rfl, forall₂_standsFor_iff.2 hb⟩, rfl⟩
  · rintro ⟨rule, ⟨left, right, parts, rfl, hleft, hright, htokens, hu, hparts, hb⟩, rfl⟩
    obtain rfl := Text.separated_iff.1 hparts
    exact ⟨left, right, rule.lhs, rule.alternatives, Text.cutArrow_append hleft,
      Text.cutArrow_eq_none_iff.2 hright, readHead_eq_ok_iff_tokens.2 ⟨htokens, hu⟩,
      forall₂_standsFor_iff.1 hb, rfl⟩

theorem readLine_strip_eq_ok_iff_on :
    readLine (Text.strip raw) = .ok pairs ↔
      ∃ rule : RuleLine, rule.On raw ∧ pairs = rule.pairs := by
  rw [readLine_eq_ok_iff_standsOn]
  simp only [RuleLine.On, Text.stripped_iff, exists_eq_left]

theorem acceptable_iff :
    Acceptable raw ↔ Text.Blank raw ∨ ∃ pairs, readLine (Text.strip raw) = .ok pairs := by
  simp only [Acceptable, readLine_strip_eq_ok_iff_on]
  exact or_congr_right ⟨fun ⟨rule, h⟩ => ⟨_, rule, h, rfl⟩, fun ⟨_, rule, h, _⟩ => ⟨rule, h⟩⟩

theorem RuleLine.On.alternatives_ne_nil (h : rule.On raw) : rule.alternatives ≠ [] := by
  have hread := readLine_strip_eq_ok_iff_on.2 ⟨rule, h, rfl⟩
  exact fun hnil => ne_nil_of_readLine hread (by rw [RuleLine.pairs, hnil]; rfl)

/-! ## All lines -/

/-- An error is about the first line that cannot stand in the text. -/
theorem readLines_eq_malformed_iff {line : String} :
    (∃ fault, readLines start raws = .error (.malformed number line fault)) ↔
      ∃ before raw after, raws = before ++ raw :: after ∧ number = start + before.length ∧
        Text.Stripped line.toList raw ∧ ¬ Acceptable raw ∧
        ∀ earlier ∈ before, Acceptable earlier := by
  induction raws generalizing start with
  | nil => simp [readLines]
  | cons raw raws ih =>
    -- what is said of the later lines, if the first one is acceptable
    have later : Acceptable raw → ((∃ before bad after, raws = before ++ bad :: after ∧
        number = start + 1 + before.length ∧ Text.Stripped line.toList bad ∧ ¬ Acceptable bad ∧
          ∀ earlier ∈ before, Acceptable earlier) ↔
        ∃ before bad after, raw :: raws = before ++ bad :: after ∧
          number = start + before.length ∧ Text.Stripped line.toList bad ∧ ¬ Acceptable bad ∧
          ∀ earlier ∈ before, Acceptable earlier) := by
      intro hraw
      constructor
      · rintro ⟨before, bad, after, rfl, rfl, hline, hbad, hbefore⟩
        refine ⟨raw :: before, bad, after, rfl, ?_, hline, hbad, ?_⟩
        · rw [List.length_cons]
          omega
        · exact List.forall_mem_cons.2 ⟨hraw, hbefore⟩
      · rintro ⟨before, bad, after, hsplit, rfl, hline, hbad, hbefore⟩
        cases before with
        | nil =>
          obtain ⟨rfl, rfl⟩ := List.cons.inj hsplit
          exact absurd hraw hbad
        | cons first before =>
          obtain ⟨rfl, rfl⟩ := List.cons.inj hsplit
          refine ⟨before, bad, after, rfl, ?_, hline, hbad,
            (List.forall_mem_cons.1 hbefore).2⟩
          rw [List.length_cons]
          omega
    by_cases hblank : Text.Blank raw
    · rw [readLines_blank_cons hblank, ih]
      exact later (.inl hblank)
    · rw [readLines_cons hblank]
      cases hread : readLine (Text.strip raw) with
      | ok pairs =>
        rw [← later (acceptable_iff.2 (.inr ⟨pairs, hread⟩)), ← ih]
        cases readLines (start + 1) raws <;> simp [Except.map]
      | error fault =>
        have hbad : ¬ Acceptable raw := by
          rw [acceptable_iff, hread]
          rintro (h | ⟨_, h⟩)
          · exact hblank h
          · cases h
        constructor
        · rintro ⟨_, h⟩
          cases h
          exact ⟨[], raw, raws, rfl, rfl, Text.stripped_iff.2 String.toList_ofList, hbad, by simp⟩
        · rintro ⟨before, bad, after, hsplit, rfl, hline, -, hbefore⟩
          cases before with
          | nil =>
            obtain ⟨rfl, rfl⟩ := List.cons.inj hsplit
            rw [← Text.stripped_iff.1 hline, String.ofList_toList]
            exact ⟨fault, rfl⟩
          | cons first before =>
            obtain ⟨rfl, rfl⟩ := List.cons.inj hsplit
            exact absurd (hbefore raw List.mem_cons_self) hbad

/-- Lines are read if each that is not blank is a rule, and as these rules. -/
theorem readLines_eq_ok_iff : readLines start raws = .ok pairs ↔ ∃ rules,
    List.Forall₂ RuleLine.On rules (raws.filter fun raw => ¬ Text.Blank raw) ∧
      pairs = rules.flatMap RuleLine.pairs := by
  induction raws generalizing start pairs with
  | nil =>
    simp only [readLines, List.filter_nil, List.forall₂_nil_right_iff, exists_eq_left]
    exact ⟨fun h => (Except.ok.inj h).symm, fun h => h ▸ rfl⟩
  | cons raw raws ih =>
    by_cases hblank : Text.Blank raw
    · rw [readLines_blank_cons hblank, ih, List.filter_cons_of_neg (by simpa using hblank)]
    · rw [readLines_cons_eq_ok hblank, List.filter_cons_of_pos (by simpa using hblank)]
      simp only [ih, readLine_strip_eq_ok_iff_on, List.forall₂_cons_right_iff]
      constructor
      · rintro ⟨_, _, ⟨rule, hrule, rfl⟩, ⟨rules, hrules, rfl⟩, rfl⟩
        exact ⟨rule :: rules, ⟨rule, rules, hrule, hrules, rfl⟩, rfl⟩
      · rintro ⟨_, ⟨rule, rules, hrule, hrules, rfl⟩, rfl⟩
        exact ⟨_, _, ⟨rule, hrule, rfl⟩, ⟨rules, hrules, rfl⟩, rfl⟩

theorem read_eq_malformed_iff {line : String} :
    (∃ fault, Listing.read text = .error (.malformed number line fault)) ↔
      FirstMalformed (Text.lines text.toList) number line.toList := by
  have hlines := @readLines_eq_malformed_iff (Text.lines text.toList) number 1 line
  simp only [Nat.add_comm 1] at hlines
  rw [FirstMalformed, ← hlines, Listing.read]
  cases readLines 1 (Text.lines text.toList) with
  | error e => simp
  | ok pairs => cases pairs <;> simp

theorem read_eq_ok_iff : Listing.read text = .ok listing ↔ ∃ first rest,
    List.Forall₂ RuleLine.On (first :: rest)
      ((Text.lines text.toList).filter fun raw => ¬ Text.Blank raw) ∧
      listing = .ofPairs ((first :: rest).flatMap RuleLine.pairs) first.lhs := by
  rw [Listing.read]
  constructor
  · intro h
    cases hread : readLines 1 (Text.lines text.toList) with
    | error e =>
      rw [hread] at h
      cases h
    | ok pairs =>
      rw [hread] at h
      obtain ⟨rules, hrules, rfl⟩ := readLines_eq_ok_iff.1 hread
      cases rules with
      | nil => cases h
      | cons first rest =>
        obtain ⟨raw, _, hfirst, -, -⟩ := List.forall₂_cons_left_iff.1 hrules
        obtain ⟨body, bodies, hbodies⟩ := List.exists_cons_of_ne_nil hfirst.alternatives_ne_nil
        refine ⟨first, rest, hrules, ?_⟩
        rw [List.flatMap_cons, RuleLine.pairs, hbodies] at h ⊢
        cases h
        rfl
  · rintro ⟨first, rest, hrules, rfl⟩
    rw [readLines_eq_ok_iff.2 ⟨_, hrules, rfl⟩]
    obtain ⟨raw, _, hfirst, -, -⟩ := List.forall₂_cons_left_iff.1 hrules
    obtain ⟨body, bodies, hbodies⟩ := List.exists_cons_of_ne_nil hfirst.alternatives_ne_nil
    rw [List.flatMap_cons, RuleLine.pairs, hbodies]
    rfl

/-! ## The listing of some rules -/

theorem Grammar.alternatives_ofPairs (given : List (Symbol × List Symbol)) (start A : Symbol) :
    (Grammar.ofPairs given start).alternatives A = (given.filter (·.1 = A)).map (·.2) := by
  rw [Grammar.alternatives, Grammar.ofPairs]
  by_cases hA : A ∈ given.map (·.1)
  · have hentry : (A, (given.filter (·.1 = A)).map (·.2)) ∈ Productions.ofPairs given :=
      List.mem_map.2 ⟨A, mem_distinct.2 hA, rfl⟩
    rw [Entries.lookup_of_mem (Productions.nodup_keys_ofPairs given) hentry]
    rfl
  · have hnone : (Productions.ofPairs given).lookup A = none := by
      rw [Entries.lookup_eq_none_iff, Productions.keys_ofPairs, mem_distinct]
      exact hA
    have hfilter : given.filter (·.1 = A) = [] := by
      rw [List.filter_eq_nil_iff]
      intro pair hp he
      exact hA (of_decide_eq_true he ▸ List.mem_map_of_mem hp)
    rw [hnone, hfilter]
    rfl

theorem distinct_lhs_flatMap (h : ∀ rule ∈ rules, rule.alternatives ≠ []) :
    distinct ((rules.flatMap RuleLine.pairs).map (·.1)) = distinct (rules.map (·.lhs)) := by
  induction rules with
  | nil => rfl
  | cons rule rules ih =>
    obtain ⟨body, bodies, hbodies⟩ := List.exists_cons_of_ne_nil (h rule List.mem_cons_self)
    rw [List.flatMap_cons, List.map_append, RuleLine.pairs, Productions.map_fst_block, hbodies,
      List.length_cons, distinct_replicate_append, List.map_cons, distinct,
      ih fun rule hr => h rule (List.mem_cons_of_mem _ hr)]

theorem alternatives_flatMap (rules : List RuleLine) (A : Symbol) :
    ((rules.flatMap RuleLine.pairs).filter (·.1 = A)).map (·.2) =
      (rules.filter (·.lhs = A)).flatMap (·.alternatives) := by
  induction rules with
  | nil => rfl
  | cons rule rules ih =>
    rw [List.flatMap_cons, List.filter_append, List.map_append, ih, RuleLine.pairs]
    by_cases hA : rule.lhs = A
    · have hown : (rule.alternatives.map (rule.lhs, ·)).filter (·.1 = A) =
          rule.alternatives.map (rule.lhs, ·) := List.filter_eq_self.2 (by simp [hA])
      rw [hown, List.map_map, List.filter_cons_of_pos (by simpa using hA), List.flatMap_cons]
      exact congrArg (· ++ _) (List.map_id _)
    · have hothers : (rule.alternatives.map (rule.lhs, ·)).filter (·.1 = A) = [] :=
        List.filter_eq_nil_iff.2 (by simp [hA])
      rw [hothers, List.filter_cons_of_neg (by simpa using hA)]
      rfl

end Lines

/-- **The texts that are read.**  A text determines its lines.  It is refused as empty if it is made
of blanks, and as malformed if some line is neither blank nor a rule; the error has the number and
the stripped text of the first such line.  Every other text is read.  Its rules are the alternatives
of its lines in order.  The productions are the same alternatives gathered by left-hand side, in
order of first appearance, and the start symbol is the left-hand side of the first rule. -/
theorem read_exact (text : String) : ∃ raws, (∀ ls, Text.Lined ls text.toList ↔ ls = raws) ∧
    (Listing.read text = .error .empty ↔ Text.Blank text.toList) ∧
    (∀ number line, (∃ fault, Listing.read text = .error (.malformed number line fault)) ↔
      FirstMalformed raws number line.toList) ∧
    ((∃ listing, Listing.read text = .ok listing) ↔
      ¬ Text.Blank text.toList ∧ ∀ raw ∈ raws, Acceptable raw) ∧
    ∀ listing, Listing.read text = .ok listing → ∃ first rest,
      List.Forall₂ RuleLine.On (first :: rest) (raws.filter fun raw => ¬ Text.Blank raw) ∧
      listing.rules.map (fun rule => (rule.lhs, rule.rhs)) =
        (first :: rest).flatMap (fun rule => rule.alternatives.map (rule.lhs, ·)) ∧
      listing.nonterminals = distinct ((first :: rest).map (·.lhs)) ∧
      (∀ A, listing.alternatives A =
        ((first :: rest).filter (·.lhs = A)).flatMap (·.alternatives)) ∧
      listing.start = first.lhs := by
  refine ⟨Text.lines text.toList, fun ls => Text.lined_iff, read_eq_empty_iff,
    fun number line => read_eq_malformed_iff, ?_, fun listing h => ?_⟩
  · have haccept : (∃ e, Listing.read text = .error e) ↔ Text.Blank text.toList ∨
        ∃ raw ∈ Text.lines text.toList, ¬ Acceptable raw := by
      rw [read_eq_error_iff, Malformed]
      refine or_congr_right (exists_congr fun raw => and_congr_right fun _ => ?_)
      rw [acceptable_iff, not_or]
      refine and_congr_right fun _ => ?_
      cases readLine (Text.strip raw) <;> simp
    rw [← not_iff_not]
    push Not
    rw [← or_iff_not_imp_left, ← haccept]
    cases Listing.read text <;> simp
  · obtain ⟨first, rest, hrules, rfl⟩ := read_eq_ok_iff.1 h
    have hne : ∀ rule ∈ first :: rest, rule.alternatives ≠ [] :=
      ((List.forall₂_and_left _ _).1 (hrules.imp fun _ _ h => ⟨h.alternatives_ne_nil, h⟩)).1
    refine ⟨first, rest, hrules, Productions.map_numbered _ _ _, ?_, fun A => ?_, rfl⟩
    · exact (Productions.keys_ofPairs _).trans (distinct_lhs_flatMap hne)
    · exact (Grammar.alternatives_ofPairs _ _ A).trans (alternatives_flatMap _ A)

end CanonicalLR
