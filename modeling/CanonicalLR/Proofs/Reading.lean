import CanonicalLR.Grammar.Reader
import CanonicalLR.Proofs.Productions
import CanonicalLR.Proofs.Text
import Mathlib.Data.List.Basic

/-!
# Grammars read from a text

What the notation refuses is absent from every grammar that is read: its start symbol is a
nonterminal and neither `$` nor `ε` is one of its symbols (`wellFormed_of_read`).  The symbol
classes of a listing are those of its grammar: the nonterminals, and the other symbols of
right-hand sides (`classes_of_read`).
-/

namespace CanonicalLR

/-- Neither of the two reserved symbols. -/
def Unreserved (x : Symbol) : Prop := x ≠ endMarker ∧ x ≠ epsilon

instance (x : Symbol) : Decidable (Unreserved x) := inferInstanceAs (Decidable (_ ∧ _))

/-! ## What a reader reads -/

section Readers

variable {cs piece line raw : List Char} {pieces raws : List (List Char)} {lhs : Symbol}
  {rhs : List Symbol} {bodies : List (List Symbol)} {pair : Symbol × List Symbol}
  {pairs : List (Symbol × List Symbol)} {number : Nat}

theorem exists_ok_of_map {ε α β : Type} {result : Except ε α} {f : α → β} {y : β}
    (h : result.map f = .ok y) : ∃ v, result = .ok v ∧ y = f v := by
  cases result with
  | error e => cases h
  | ok v => exact ⟨v, rfl, (Except.ok.inj h).symm⟩

theorem exists_ok_of_bind {ε α β : Type} {result : Except ε α} {f : α → Except ε β} {y : β}
    (h : result.bind f = .ok y) : ∃ v, result = .ok v ∧ f v = .ok y := by
  cases result with
  | error e => cases h
  | ok v => exact ⟨v, rfl, h⟩

theorem readHead_eq_ok :
    readHead cs = .ok lhs ↔ readSymbols cs = [lhs] ∧ Unreserved lhs := by
  unfold readHead
  constructor
  · intro h
    split at h
    · cases h
    · next hs =>
      split at h
      · cases h
      · next hn =>
        cases h
        exact ⟨hs, not_or.1 hn⟩
    · cases h
  · rintro ⟨hs, hu⟩
    rw [hs]
    exact if_neg (not_or.2 hu)

/-- An alternative is either the symbols as they stand or the sign for no symbols. -/
theorem readAlternative_eq_ok : readAlternative piece = .ok rhs ↔
    readSymbols piece = [epsilon] ∧ rhs = [] ∨
      readSymbols piece = rhs ∧ ∀ x ∈ rhs, Unreserved x := by
  unfold readAlternative
  simp only
  constructor
  · intro h
    split at h
    · next hs => exact .inl ⟨hs, (Except.ok.inj h).symm⟩
    · split at h
      · cases h
      · next he =>
        split at h
        · cases h
        · next hd =>
          cases h
          exact .inr ⟨rfl, fun x hx => ⟨fun e => hd (e ▸ hx), fun e => he (e ▸ hx)⟩⟩
  · rintro (⟨hs, rfl⟩ | ⟨rfl, hu⟩)
    · rw [if_pos hs]
    · have he : epsilon ∉ readSymbols piece := fun hm => (hu _ hm).2 rfl
      have hd : endMarker ∉ readSymbols piece := fun hm => (hu _ hm).1 rfl
      have hne : readSymbols piece ≠ [epsilon] := fun h => he (h ▸ List.mem_cons_self)
      rw [if_neg hne, if_neg he, if_neg hd]

/-- The symbols of an alternative are symbols of its text, and not reserved. -/
theorem mem_of_readAlternative {x : Symbol} (h : readAlternative piece = .ok rhs) (hx : x ∈ rhs) :
    x ∈ readSymbols piece ∧ Unreserved x := by
  rcases readAlternative_eq_ok.1 h with ⟨-, rfl⟩ | ⟨rfl, hu⟩
  · cases hx
  · exact ⟨hx, hu x hx⟩

theorem readAlternatives_cons_eq_ok : readAlternatives (piece :: pieces) = .ok bodies ↔
    ∃ rhs rest, readAlternative piece = .ok rhs ∧ readAlternatives pieces = .ok rest ∧
      bodies = rhs :: rest := by
  rw [readAlternatives]
  constructor
  · intro h
    split at h
    · cases h
    · next rhs hr =>
      obtain ⟨rest, hrest, rfl⟩ := exists_ok_of_map h
      exact ⟨rhs, rest, hr, hrest, rfl⟩
  · rintro ⟨rhs, rest, hr, hrest, rfl⟩
    rw [hr, hrest]
    rfl

theorem readLine_eq_ok : readLine line = .ok pairs ↔ ∃ left right lhs bodies,
    Text.cutArrow line = some (left, right) ∧ Text.cutArrow right = none ∧
    readHead left = .ok lhs ∧ readAlternatives (Text.pieces '|' right) = .ok bodies ∧
    pairs = bodies.map (lhs, ·) := by
  unfold readLine
  constructor
  · intro h
    split at h
    · cases h
    · next left right hcut =>
      split at h
      · cases h
      · next hright =>
        split at h
        · cases h
        · next lhs hl =>
          obtain ⟨bodies, hb, rfl⟩ := exists_ok_of_map h
          exact ⟨left, right, lhs, bodies, hcut, by simpa using hright, hl, hb, rfl⟩
  · rintro ⟨left, right, lhs, bodies, hcut, hright, hl, hb, rfl⟩
    simp only [hcut, hright, hl, hb]
    rfl

theorem readLines_blank_cons (h : Text.Blank raw) :
    readLines number (raw :: raws) = readLines (number + 1) raws := by
  rw [readLines, if_pos (List.isEmpty_iff.2 (Text.strip_eq_nil_iff.2 h))]

theorem readLines_cons (h : ¬ Text.Blank raw) : readLines number (raw :: raws) =
    match readLine (Text.strip raw) with
    | .error fault => .error (.malformed number (String.ofList (Text.strip raw)) fault)
    | .ok pairs => (readLines (number + 1) raws).map (pairs ++ ·) := by
  have he : ¬ (Text.strip raw).isEmpty = true :=
    fun he => h (Text.strip_eq_nil_iff.1 (List.isEmpty_iff.1 he))
  cases hr : readLine (Text.strip raw) <;> simp only [readLines, if_neg he, hr]

theorem readLines_cons_eq_ok (h : ¬ Text.Blank raw) :
    readLines number (raw :: raws) = .ok pairs ↔ ∃ first rest,
      readLine (Text.strip raw) = .ok first ∧ readLines (number + 1) raws = .ok rest ∧
      pairs = first ++ rest := by
  rw [readLines_cons h]
  constructor
  · intro h
    split at h
    · cases h
    · next first hf =>
      obtain ⟨rest, hrest, rfl⟩ := exists_ok_of_map h
      exact ⟨first, rest, hf, hrest, rfl⟩
  · rintro ⟨first, rest, hf, hrest, rfl⟩
    rw [hf, hrest]
    rfl

/-- Every alternative that is read stands in one of the pieces. -/
theorem exists_piece_of_readAlternatives (h : readAlternatives pieces = .ok bodies)
    (hr : rhs ∈ bodies) : ∃ piece ∈ pieces, readAlternative piece = .ok rhs := by
  induction pieces generalizing bodies with
  | nil =>
    cases h
    cases hr
  | cons piece pieces ih =>
    obtain ⟨body, rest, hb, hrest, rfl⟩ := readAlternatives_cons_eq_ok.1 h
    rcases List.mem_cons.1 hr with rfl | hr
    · exact ⟨piece, List.mem_cons_self, hb⟩
    · obtain ⟨later, hl, he⟩ := ih hrest hr
      exact ⟨later, List.mem_cons_of_mem _ hl, he⟩

/-- Every pair that is read stands on one of the lines. -/
theorem exists_line_of_readLines (h : readLines number raws = .ok pairs) (hp : pair ∈ pairs) :
    ∃ raw ∈ raws, ∃ first, readLine (Text.strip raw) = .ok first ∧ pair ∈ first := by
  induction raws generalizing number pairs with
  | nil =>
    cases h
    cases hp
  | cons raw raws ih =>
    have later : ∀ {rest number}, readLines number raws = .ok rest → pair ∈ rest →
        ∃ raw' ∈ raw :: raws, ∃ first, readLine (Text.strip raw') = .ok first ∧ pair ∈ first := by
      intro rest number hrest hp
      obtain ⟨raw', hraw, hline⟩ := ih hrest hp
      exact ⟨raw', List.mem_cons_of_mem _ hraw, hline⟩
    by_cases hblank : Text.Blank raw
    · rw [readLines_blank_cons hblank] at h
      exact later h hp
    · obtain ⟨first, rest, hf, hrest, rfl⟩ := (readLines_cons_eq_ok hblank).1 h
      rcases List.mem_append.1 hp with hp | hp
      · exact ⟨raw, List.mem_cons_self, first, hf, hp⟩
      · exact later hrest hp

end Readers

/-! ## Pairs of a text -/

section Pairs

variable {line : List Char} {raws : List (List Char)} {pairs : List (Symbol × List Symbol)}
  {number : Nat}

/-- What holds of every pair that is read: its symbols are not reserved. -/
def UnreservedPair (pair : Symbol × List Symbol) : Prop :=
  Unreserved pair.1 ∧ ∀ x ∈ pair.2, Unreserved x

theorem unreserved_of_readLine (h : readLine line = .ok pairs) :
    ∀ pair ∈ pairs, UnreservedPair pair := by
  obtain ⟨left, right, lhs, bodies, -, -, hl, ha, rfl⟩ := readLine_eq_ok.1 h
  intro pair hp
  obtain ⟨rhs, hr, rfl⟩ := List.mem_map.1 hp
  obtain ⟨piece, -, hpiece⟩ := exists_piece_of_readAlternatives ha hr
  exact ⟨(readHead_eq_ok.1 hl).2, fun x hx => (mem_of_readAlternative hpiece hx).2⟩

theorem unreserved_of_readLines (h : readLines number raws = .ok pairs) :
    ∀ pair ∈ pairs, UnreservedPair pair := by
  intro pair hp
  obtain ⟨raw, -, first, hf, hm⟩ := exists_line_of_readLines h hp
  exact unreserved_of_readLine hf pair hm

end Pairs

/-! ## Texts without a rule -/

section Blank

variable {pieces raws : List (List Char)} {line : List Char} {number : Nat} {text : String}

theorem length_of_readAlternatives {bodies : List (List Symbol)}
    (h : readAlternatives pieces = .ok bodies) : bodies.length = pieces.length := by
  induction pieces generalizing bodies with
  | nil =>
    cases h
    rfl
  | cons piece pieces ih =>
    obtain ⟨rhs, rest, -, hrest, rfl⟩ := readAlternatives_cons_eq_ok.1 h
    rw [List.length_cons, List.length_cons, ih hrest]

/-- A rule has at least one alternative. -/
theorem ne_nil_of_readLine {pairs : List (Symbol × List Symbol)} (h : readLine line = .ok pairs) :
    pairs ≠ [] := by
  obtain ⟨left, right, lhs, bodies, -, -, -, ha, rfl⟩ := readLine_eq_ok.1 h
  intro hnil
  have hlen := length_of_readAlternatives ha
  rw [List.map_eq_nil_iff.1 hnil] at hlen
  exact Text.pieces_ne_nil (List.length_eq_zero_iff.1 hlen.symm)

theorem readLines_ne_empty : readLines number raws ≠ .error .empty := by
  induction raws generalizing number with
  | nil =>
    intro h
    cases h
  | cons raw raws ih =>
    by_cases hb : Text.Blank raw
    · rw [readLines_blank_cons hb]
      exact ih
    · rw [readLines_cons hb]
      split
      · intro h
        cases h
      · intro h
        cases hrest : readLines (number + 1) raws with
        | error e =>
          rw [hrest] at h
          cases h
          exact ih hrest
        | ok pairs =>
          rw [hrest] at h
          cases h

theorem readLines_eq_ok_nil_iff :
    readLines number raws = .ok [] ↔ ∀ raw ∈ raws, Text.Blank raw := by
  induction raws generalizing number with
  | nil => exact iff_of_true rfl (by simp)
  | cons raw raws ih =>
    rw [List.forall_mem_cons]
    by_cases hb : Text.Blank raw
    · rw [readLines_blank_cons hb, ih]
      exact (and_iff_right hb).symm
    · refine iff_of_false (fun h => ?_) fun h => hb h.1
      obtain ⟨first, rest, hf, -, hnil⟩ := (readLines_cons_eq_ok hb).1 h
      exact ne_nil_of_readLine hf (List.append_eq_nil_iff.1 hnil.symm).1

/-- The texts without a rule are those made of blanks. -/
theorem read_eq_empty_iff : Listing.read text = .error .empty ↔ Text.Blank text.toList := by
  rw [← Text.blank_lines_iff, ← @readLines_eq_ok_nil_iff _ 1, Listing.read]
  split
  · next e he =>
    rw [he]
    refine iff_of_false (fun h => ?_) fun h => nomatch h
    cases h
    exact readLines_ne_empty he
  · next hp => exact iff_of_true rfl hp
  · next hp =>
    rw [hp]
    exact iff_of_false (fun h => nomatch h) fun h => nomatch h

/-- Whether some line of a text is neither blank nor a rule. -/
def Malformed (text : String) : Prop :=
  ∃ raw ∈ Text.lines text.toList, ¬ Text.Blank raw ∧
    ∃ fault, readLine (Text.strip raw) = .error fault

theorem readLines_eq_error_iff : (∃ e, readLines number raws = .error e) ↔
    ∃ raw ∈ raws, ¬ Text.Blank raw ∧ ∃ fault, readLine (Text.strip raw) = .error fault := by
  induction raws generalizing number with
  | nil => simp [readLines]
  | cons raw raws ih =>
    rw [List.exists_mem_cons_iff]
    by_cases hb : Text.Blank raw
    · rw [readLines_blank_cons hb, ih]
      exact (or_iff_right fun h => h.1 hb).symm
    · rw [readLines_cons hb]
      cases hline : readLine (Text.strip raw) with
      | error fault => exact iff_of_true ⟨_, rfl⟩ (.inl ⟨hb, fault, rfl⟩)
      | ok pairs =>
        have hrest : (∃ e, (readLines (number + 1) raws).map (pairs ++ ·) = .error e) ↔
            ∃ e, readLines (number + 1) raws = .error e := by
          cases readLines (number + 1) raws <;> simp [Except.map]
        rw [hrest, ih]
        exact (or_iff_right fun h => nomatch h.2).symm

/-- A text is refused if no line or not every line is a rule. -/
theorem read_eq_error_iff :
    (∃ e, Listing.read text = .error e) ↔ Text.Blank text.toList ∨ Malformed text := by
  rw [← Text.blank_lines_iff, ← @readLines_eq_ok_nil_iff _ 1, Malformed,
    ← @readLines_eq_error_iff _ 1, Listing.read]
  cases readLines 1 (Text.lines text.toList) with
  | error e => exact iff_of_true ⟨e, rfl⟩ (.inr ⟨e, rfl⟩)
  | ok pairs =>
    cases pairs with
    | nil => exact iff_of_true ⟨.empty, rfl⟩ (.inl rfl)
    | cons first rest => exact iff_of_false (fun h => nomatch h) (by simp)

end Blank

/-! ## The grammar of some pairs -/

theorem Productions.mem_pairs_ofPairs {given : List (Symbol × List Symbol)}
    {pair : Symbol × List Symbol} : pair ∈ (ofPairs given).pairs ↔ pair ∈ given := by
  obtain ⟨A, rhs⟩ := pair
  rw [mem_pairs]
  simp only [ofPairs, List.mem_map, mem_distinct, Prod.mk.injEq]
  constructor
  · rintro ⟨bodies, ⟨lhs, -, rfl, rfl⟩, hr⟩
    obtain ⟨⟨B, body⟩, hb, rfl⟩ := List.mem_map.1 hr
    obtain ⟨hm, he⟩ := List.mem_filter.1 hb
    obtain rfl : B = lhs := of_decide_eq_true he
    exact hm
  · intro hm
    refine ⟨_, ⟨A, ⟨(A, rhs), hm, rfl⟩, rfl, rfl⟩, ?_⟩
    exact List.mem_map.2 ⟨(A, rhs), List.mem_filter.2 ⟨hm, by simp⟩, rfl⟩

theorem Grammar.isNonterminal_ofPairs {given : List (Symbol × List Symbol)} {start x : Symbol} :
    (Grammar.ofPairs given start).isNonterminal x = true ↔ ∃ rhs, (x, rhs) ∈ given := by
  rw [isNonterminal_iff, nonterminals, ofPairs, Productions.keys_ofPairs, mem_distinct]
  simp

/-- Gathering the members of a list by a key leaves all of them, if no key is missing. -/
theorem perm_gather {α κ : Type} [DecidableEq κ] {keys : List κ} {f : α → κ} (hn : keys.Nodup)
    {xs : List α} (h : ∀ x ∈ xs, f x ∈ keys) :
    (keys.flatMap fun k => xs.filter (f · = k)).Perm xs := by
  induction keys generalizing xs with
  | nil =>
    have hnil : xs = [] := List.eq_nil_iff_forall_not_mem.2 fun x hx => List.not_mem_nil (h x hx)
    subst hnil
    exact .nil
  | cons k keys ih =>
    obtain ⟨hk, hkeys⟩ := List.nodup_cons.1 hn
    let others := xs.filter fun x => !decide (f x = k)
    have hothers : (keys.flatMap fun k' => xs.filter (f · = k')) =
        keys.flatMap fun k' => others.filter (f · = k') := by
      refine List.flatMap_congr fun k' hk' => ?_
      rw [List.filter_filter]
      refine List.filter_congr fun x _ => ?_
      have hne : k' ≠ k := fun e => hk (e ▸ hk')
      by_cases hx : f x = k' <;> simp [hx, hne]
    have hin : ∀ x ∈ others, f x ∈ keys := by
      intro x hx
      obtain ⟨hx, hne⟩ := List.mem_filter.1 hx
      exact (List.mem_cons.1 (h x hx)).resolve_left (by simpa using hne)
    rw [List.flatMap_cons, hothers]
    exact ((ih hkeys hin).append_left _).trans (List.filter_append_perm (f · = k) xs)

/-- The pairs with a given left-hand side, taken apart and put together. -/
theorem Productions.map_alternatives (lhs : Symbol) (given : List (Symbol × List Symbol)) :
    ((given.filter (·.1 = lhs)).map (·.2)).map (lhs, ·) = given.filter (·.1 = lhs) := by
  have same : ∀ pair ∈ given.filter (·.1 = lhs), (lhs, pair.2) = pair := by
    intro pair hp
    obtain rfl : pair.1 = lhs := of_decide_eq_true (List.mem_filter.1 hp).2
    rfl
  rw [List.map_map]
  exact (List.map_congr_left same).trans (List.map_id _)

theorem Productions.perm_pairs_ofPairs (given : List (Symbol × List Symbol)) :
    (ofPairs given).pairs.Perm given := by
  have hpairs : (ofPairs given).pairs =
      (distinct (given.map (·.1))).flatMap fun lhs => given.filter (·.1 = lhs) := by
    rw [pairs, ofPairs, List.flatMap_map]
    exact List.flatMap_congr fun lhs _ => map_alternatives lhs given
  rw [hpairs]
  refine perm_gather (nodup_distinct _) fun pair hp => ?_
  exact mem_distinct.2 (List.mem_map_of_mem hp)

theorem Productions.map_numbered (ps : Productions) (earlier : List Symbol)
    (given : List (Symbol × List Symbol)) :
    (ps.numbered earlier given).map (fun rule => (rule.lhs, rule.rhs)) = given := by
  induction given generalizing earlier with
  | nil => rfl
  | cons pair given ih => rw [numbered, List.map_cons, ih]

theorem Productions.map_lhs_numbered (ps : Productions) (earlier : List Symbol)
    (given : List (Symbol × List Symbol)) :
    (ps.numbered earlier given).map (·.lhs) = given.map (·.1) := by
  have hpairs := congrArg (List.map (·.1)) (map_numbered ps earlier given)
  rwa [List.map_map] at hpairs

/-- The classes of symbols that belong to a grammar. -/
structure SymbolClasses.Of (g : Grammar) (classes : SymbolClasses) : Prop where
  terminals : ∀ x, x ∈ classes.terminals ↔ x ∈ g.bodySymbols ∧ g.isNonterminal x = false
  nonterminals : ∀ x, x ∈ classes.nonterminals ↔ g.isNonterminal x = true

/-- The symbol classes of a listing, from the pairs that it was made of. -/
theorem Listing.classes_ofPairs (given : List (Symbol × List Symbol)) (start : Symbol) :
    (ofPairs given start).classes =
      { nonterminals := distinct (given.map (·.1))
        terminals := distinct <| (given.flatMap (·.2)).filter fun x =>
          !(distinct (given.map (·.1))).contains x } := by
  have hrules : (ofPairs given start).rules.map (fun rule => (rule.lhs, rule.rhs)) = given :=
    Productions.map_numbered _ _ _
  have hlhs : (ofPairs given start).rules.map (·.lhs) = given.map (·.1) :=
    Productions.map_lhs_numbered _ _ _
  have hrhs : (ofPairs given start).rules.flatMap (·.rhs) = given.flatMap (·.2) := by
    conv_rhs => rw [← hrules, List.flatMap_map]
  rw [classes, SymbolClasses.ofRules, hlhs, hrhs]

theorem classes_ofPairs (given : List (Symbol × List Symbol)) (start : Symbol) :
    (Listing.ofPairs given start).classes.Of (Grammar.ofPairs given start) := by
  have hnt : ∀ x, x ∈ distinct (given.map (·.1)) ↔
      (Grammar.ofPairs given start).isNonterminal x = true := by
    intro x
    rw [mem_distinct, Grammar.isNonterminal_ofPairs]
    simp
  rw [Listing.classes_ofPairs]
  refine ⟨fun x => ?_, hnt⟩
  have hbody : x ∈ given.flatMap (·.2) ↔ x ∈ (Grammar.ofPairs given start).bodySymbols := by
    simp only [Grammar.bodySymbols, List.mem_flatMap]
    exact exists_congr fun _ => and_congr_left fun _ => Productions.mem_pairs_ofPairs.symm
  rw [mem_distinct, List.mem_filter, hbody, Bool.not_eq_true', ← Bool.not_eq_true,
    List.contains_iff_mem, hnt, Bool.not_eq_true]

/-! ## Reading -/

/-- A value computed from a result that is there. -/
theorem exists_ok_of_toOption {ε α β : Type} {result : Except ε α} {f : α → β} {y : β}
    (h : result.toOption.map f = some y) : ∃ v, result = .ok v ∧ f v = y := by
  cases result with
  | error e => cases h
  | ok v => exact ⟨v, rfl, Option.some.inj h⟩

/-- What a text that is read gives: at least one pair, and a listing of the pairs. -/
theorem exists_pairs_of_read {text : String} {listing : Listing}
    (h : Listing.read text = .ok listing) : ∃ first rest,
      readLines 1 (Text.lines text.toList) = .ok (first :: rest) ∧
        listing = .ofPairs (first :: rest) first.1 := by
  unfold Listing.read at h
  split at h
  · cases h
  · cases h
  · next first rest hp =>
    cases h
    exact ⟨first, rest, hp, rfl⟩

theorem wellFormed_of_read {text : String} {listing : Listing}
    (h : Listing.read text = .ok listing) : listing.WellFormed := by
  obtain ⟨⟨S, body⟩, rest, hread, rfl⟩ := exists_pairs_of_read h
  have hu := unreserved_of_readLines hread
  have unreserved : ∀ x ∈ (Grammar.ofPairs ((S, body) :: rest) S).symbols, Unreserved x := by
    intro x hx
    rcases Grammar.mem_symbols.1 hx with hx | hx
    · obtain ⟨rhs, hm⟩ := Grammar.isNonterminal_ofPairs.1 hx
      exact (hu _ hm).1
    · obtain ⟨A, rhs, hm, hx⟩ := Grammar.mem_bodySymbols.1 hx
      exact (hu _ (Productions.mem_pairs_ofPairs.1 hm)).2 x hx
  exact ⟨Grammar.isNonterminal_ofPairs.2 ⟨body, List.mem_cons_self⟩,
    fun hm => (unreserved _ hm).2 rfl, fun hm => (unreserved _ hm).1 rfl⟩

theorem classes_of_read {text : String} {listing : Listing}
    (h : Listing.read text = .ok listing) : listing.classes.Of listing.toGrammar := by
  obtain ⟨first, rest, -, rfl⟩ := exists_pairs_of_read h
  exact classes_ofPairs _ _

end CanonicalLR
