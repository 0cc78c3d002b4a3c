import CanonicalLR.Text.Split
import Mathlib.Data.List.Chain
import Mathlib.Data.List.TakeWhile

/-!
# Texts put together from parts

What the functions on texts make of a text is said by how the text was put together.  Blanks at the
ends belong to no word, and at least one blank between two words keeps them apart.  The first arrow
of a text is the one behind a part without an arrow.  Pieces and lines are joined by what separates
them; a carriage return and a line feed that meet are one line break, so an empty line between them
is lost (`lines_append_break`).
-/

namespace CanonicalLR.Text

/-- Whether a text consists of blanks. -/
def Blank (cs : List Char) : Prop := ∀ c ∈ cs, isBlank c = true

/-- Whether no blank occurs in a text. -/
def Solid (cs : List Char) : Prop := ∀ c ∈ cs, isBlank c = false

/-- Whether `->` occurs nowhere in a text. -/
def Arrowless (cs : List Char) : Prop := ¬ ['-', '>'] <:+: cs

/-- The ways to end a line. -/
def LineBreak (cs : List Char) : Prop := cs = ['\r', '\n'] ∨ cs = ['\r'] ∨ cs = ['\n']

/-- Whether a text is a part of one line. -/
def Unbroken (cs : List Char) : Prop := ∀ c ∈ cs, c ≠ '\r' ∧ c ≠ '\n'

-- these search the text; an instance that is looked up may run through all characters instead
instance (cs : List Char) : Decidable (Blank cs) :=
  List.decidableBAll (fun c => isBlank c = true) cs

instance (cs : List Char) : Decidable (Solid cs) :=
  List.decidableBAll (fun c => isBlank c = false) cs

instance (cs : List Char) : Decidable (Arrowless cs) := inferInstanceAs (Decidable (¬ _))

instance (cs : List Char) : Decidable (Unbroken cs) :=
  List.decidableBAll (fun c => c ≠ '\r' ∧ c ≠ '\n') cs

variable {c sep : Char} {cs gap left right rest line word : List Char}

/-! ## Blanks at the ends -/

@[simp] theorem blank_nil : Blank [] := by simp [Blank]

@[simp] theorem blank_cons : Blank (c :: cs) ↔ isBlank c = true ∧ Blank cs := by simp [Blank]

@[simp] theorem blank_append : Blank (cs ++ rest) ↔ Blank cs ∧ Blank rest := by
  simp [Blank, or_imp, forall_and]

theorem Blank.not_mem (h : Blank cs) (hc : isBlank c = false) : c ∉ cs := by
  intro hm
  rw [h c hm] at hc
  cases hc

theorem ne_of_isBlank {d : Char} (hc : isBlank c = true) (hd : isBlank d = false) : c ≠ d := by
  rintro rfl
  rw [hc] at hd
  cases hd

/-- A text is what is left of it after stripping, between blanks. -/
theorem exists_strip (cs : List Char) :
    ∃ before after, Blank before ∧ Blank after ∧ cs = before ++ strip cs ++ after := by
  have blank : ∀ xs : List Char, Blank (xs.takeWhile isBlank) :=
    fun xs c hc => List.mem_takeWhile_imp hc
  have hend : ∀ xs : List Char, xs = stripEnd xs ++ (xs.reverse.takeWhile isBlank).reverse := by
    intro xs
    rw [stripEnd, ← List.reverse_append, List.takeWhile_append_dropWhile, List.reverse_reverse]
  refine ⟨cs.takeWhile isBlank, ((cs.dropWhile isBlank).reverse.takeWhile isBlank).reverse,
    blank cs, fun c hc => blank _ c (List.mem_reverse.1 hc), ?_⟩
  rw [strip, List.append_assoc, ← hend, List.takeWhile_append_dropWhile]

theorem strip_eq_nil_iff : strip cs = [] ↔ Blank cs := by
  constructor
  · intro h
    obtain ⟨before, after, hb, ha, hcs⟩ := exists_strip cs
    rw [h, List.append_nil] at hcs
    rw [hcs, blank_append]
    exact ⟨hb, ha⟩
  · intro h
    rw [strip, List.dropWhile_eq_nil_iff.2 h]
    rfl

/-! ## Words -/

theorem words_blank_append (h : Blank gap) : words (gap ++ cs) = words cs := by
  induction gap with
  | nil => rfl
  | cons c gap ih =>
    obtain ⟨hc, hgap⟩ := blank_cons.1 h
    rw [List.cons_append, words, if_pos hc, ih hgap]

theorem words_of_blank (h : Blank gap) : words gap = [] := by
  rw [← List.append_nil gap, words_blank_append h, words]

theorem words_append_blank (h : Blank gap) : words (cs ++ gap) = words cs := by
  induction cs with
  | nil => exact words_of_blank h
  | cons c cs ih =>
    rw [List.cons_append, words, words, ih]
    -- the character behind `c` is a blank in both texts, or none of them ends here
    have hhead : (cs ++ gap).head?.all isBlank = cs.head?.all isBlank := by
      cases cs with
      | cons => rfl
      | nil =>
        cases gap with
        | nil => rfl
        | cons d gap => simp [(blank_cons.1 h).1]
    rw [hhead]

/-- A word ends at a blank or with the text. -/
theorem words_word_append (hne : word ≠ []) (hw : Solid word)
    (hrest : rest.head?.all isBlank = true) : words (word ++ rest) = word :: words rest := by
  induction word with
  | nil => exact absurd rfl hne
  | cons c word ih =>
    have hc : isBlank c = false := hw c List.mem_cons_self
    have hword : Solid word := fun d hd => hw d (List.mem_cons_of_mem _ hd)
    rw [List.cons_append, words, if_neg (by simp [hc])]
    cases word with
    | nil => rw [List.nil_append, if_pos hrest]
    | cons d word =>
      have hd : isBlank d = false := hword d List.mem_cons_self
      rw [if_neg (by simp [hd]), ih (by simp) hword]
      rfl

theorem words_of_solid (hne : word ≠ []) (hw : Solid word) : words word = [word] := by
  have hrest : ([] : List Char).head?.all isBlank = true := rfl
  have hword := words_word_append hne hw hrest
  rwa [List.append_nil, words] at hword

/-- A text that begins with a word begins with its first word. -/
theorem exists_words_prefix (hc : isBlank c = false) (cs : List Char) :
    ∃ first others, words (c :: cs) = first :: others ∧ first <+: c :: cs := by
  have hn : ¬ isBlank c = true := by simp [hc]
  induction cs generalizing c with
  | nil => exact ⟨[c], [], by simp [words, hc], List.prefix_refl _⟩
  | cons d cs ih =>
    rw [words, if_neg hn]
    by_cases hd : isBlank d = true
    · exact ⟨[c], words (d :: cs), if_pos hd, by simp⟩
    · obtain ⟨first, others, hwords, hprefix⟩ := ih (by simpa using hd) hd
      refine ⟨c :: first, others, ?_, List.cons_prefix_cons.2 ⟨rfl, hprefix⟩⟩
      rw [if_neg (by simpa using hd), hwords]
      rfl

/-- A word is a part of its text, it is not empty, and no blank is in it. -/
theorem mem_words (h : word ∈ words cs) : word ≠ [] ∧ Solid word ∧ word <:+: cs := by
  induction cs generalizing word with
  | nil => cases h
  | cons c cs ih =>
    have later : word ∈ words cs → word ≠ [] ∧ Solid word ∧ word <:+: c :: cs := fun h =>
      (ih h).imp_right (And.imp_right fun hpart => hpart.trans (List.suffix_cons c cs).isInfix)
    rw [words] at h
    split at h
    · exact later h
    · next hc =>
      have hc : isBlank c = false := by simpa using hc
      split at h
      · rcases List.mem_cons.1 h with rfl | h
        · exact ⟨by simp, by simpa [Solid] using hc, (List.prefix_append [c] cs).isInfix⟩
        · exact later h
      · next hhead =>
        -- the word goes on, so the first word of the rest begins at its beginning
        obtain ⟨d, cs, rfl⟩ := List.exists_cons_of_ne_nil (l := cs) (by rintro rfl; simp at hhead)
        obtain ⟨first, others, hwords, hprefix⟩ :=
          exists_words_prefix (c := d) (by simpa using hhead) cs
        rw [hwords] at h ih later
        rcases List.mem_cons.1 h with rfl | h
        · obtain ⟨-, hsolid, -⟩ := ih List.mem_cons_self
          refine ⟨by simp, ?_, (List.cons_prefix_cons.2 ⟨rfl, hprefix⟩).isInfix⟩
          intro e he
          rcases List.mem_cons.1 he with rfl | he
          · exact hc
          · exact hsolid e he
        · exact later (List.mem_cons_of_mem _ h)

/-! ## The first arrow -/

theorem arrowless_iff_isChain :
    Arrowless cs ↔ cs.IsChain fun a b => ¬ (a = '-' ∧ b = '>') := by
  unfold Arrowless
  induction cs with
  | nil => simp
  | cons c cs ih =>
    rw [List.infix_cons_iff, not_or, ih, List.isChain_cons]
    refine and_congr_left fun _ => ?_
    cases cs with
    | nil => simp
    | cons d cs => simp [eq_comm]

@[simp] theorem arrowless_nil : Arrowless [] := by simp [Arrowless]

theorem arrowless_of_not_mem (h : '-' ∉ cs) : Arrowless cs := by
  rintro ⟨before, after, rfl⟩
  simp at h

theorem Arrowless.of_part (h : Arrowless cs) (hpart : rest <:+: cs) : Arrowless rest :=
  fun harrow => h (harrow.trans hpart)

/-- Two parts without an arrow make none if another character stands between them. -/
theorem Arrowless.append_cons (hl : Arrowless left) (hr : Arrowless right) (hd : c ≠ '-')
    (hg : c ≠ '>') : Arrowless (left ++ c :: right) := by
  rw [arrowless_iff_isChain] at hl hr ⊢
  refine List.isChain_append.2 ⟨hl, List.isChain_cons.2 ⟨?_, hr⟩, ?_⟩
  · rintro b - ⟨h, -⟩
    exact hd h
  · rintro a - b hb ⟨-, h⟩
    obtain rfl : c = b := Option.some.inj hb
    exact hg h

theorem arrowless_of_blank (h : Blank gap) : Arrowless gap :=
  arrowless_of_not_mem (h.not_mem (by decide))

theorem Arrowless.blank_append (h : Arrowless cs) (hgap : Blank gap) : Arrowless (gap ++ cs) := by
  induction gap with
  | nil => exact h
  | cons c gap ih =>
    obtain ⟨hc, hgap⟩ := blank_cons.1 hgap
    exact arrowless_nil.append_cons (ih hgap) (ne_of_isBlank hc (by decide))
      (ne_of_isBlank hc (by decide))

/-- A gap keeps a dash at the end of one part from an angle at the beginning of the next. -/
theorem Arrowless.append_gap (hl : Arrowless left) (hr : Arrowless right) (hgap : Blank gap)
    (hne : gap ≠ []) : Arrowless (left ++ (gap ++ right)) := by
  obtain ⟨c, gap, rfl⟩ := List.exists_cons_of_ne_nil hne
  obtain ⟨hc, hgap⟩ := blank_cons.1 hgap
  exact hl.append_cons (hr.blank_append hgap) (ne_of_isBlank hc (by decide))
    (ne_of_isBlank hc (by decide))

theorem Arrowless.append_blank (h : Arrowless cs) (hgap : Blank gap) : Arrowless (cs ++ gap) := by
  by_cases hne : gap = []
  · rwa [hne, List.append_nil]
  · have happend := h.append_gap arrowless_nil hgap hne
    rwa [List.append_nil] at happend

theorem cutArrow_cons (h : ¬ (c = '-' ∧ cs.head? = some '>')) :
    cutArrow (c :: cs) = (cutArrow cs).map fun cut => (c :: cut.1, cut.2) := by
  rw [cutArrow]
  rintro rest rfl rfl
  exact h ⟨rfl, rfl⟩

theorem cutArrow_eq_none_iff : cutArrow cs = none ↔ Arrowless cs := by
  rw [arrowless_iff_isChain]
  induction cs with
  | nil => simp [cutArrow]
  | cons c cs ih =>
    by_cases h : c = '-' ∧ cs.head? = some '>'
    · obtain ⟨rfl, hhead⟩ := h
      obtain ⟨d, cs, rfl⟩ := List.exists_cons_of_ne_nil (l := cs) (by rintro rfl; cases hhead)
      cases hhead
      simp [cutArrow]
    · rw [cutArrow_cons h, Option.map_eq_none_iff, ih, List.isChain_cons, iff_and_self]
      rintro - d hd ⟨rfl, rfl⟩
      exact h ⟨rfl, hd⟩

theorem cutArrow_append (h : Arrowless left) :
    cutArrow (left ++ '-' :: '>' :: right) = some (left, right) := by
  rw [arrowless_iff_isChain] at h
  induction left with
  | nil => rfl
  | cons c left ih =>
    obtain ⟨hc, hleft⟩ := List.isChain_cons.1 h
    rw [List.cons_append, cutArrow_cons, ih hleft]
    · rfl
    · rintro ⟨rfl, hhead⟩
      cases left with
      | nil => simp at hhead
      | cons d left => exact hc d rfl ⟨rfl, by simpa using hhead⟩

/-- A cut is made at the first arrow. -/
theorem cutArrow_eq_some (h : cutArrow cs = some (left, right)) :
    Arrowless left ∧ cs = left ++ '-' :: '>' :: right := by
  induction cs generalizing left with
  | nil => cases h
  | cons c cs ih =>
    by_cases hc : c = '-' ∧ cs.head? = some '>'
    · obtain ⟨rfl, hhead⟩ := hc
      obtain ⟨d, cs, rfl⟩ := List.exists_cons_of_ne_nil (l := cs) (by rintro rfl; cases hhead)
      cases hhead
      cases h
      exact ⟨arrowless_nil, rfl⟩
    · rw [cutArrow_cons hc, Option.map_eq_some_iff] at h
      obtain ⟨⟨before, after⟩, hcut, he⟩ := h
      cases he
      obtain ⟨hbefore, rfl⟩ := ih hcut
      refine ⟨?_, rfl⟩
      rw [arrowless_iff_isChain, List.isChain_cons, ← arrowless_iff_isChain]
      refine ⟨?_, hbefore⟩
      rintro d hd ⟨rfl, rfl⟩
      cases before with
      | nil => cases hd
      | cons e before => exact hc ⟨rfl, by simpa using hd⟩

theorem cutArrow_blank_append (h : Blank gap) :
    cutArrow (gap ++ cs) = (cutArrow cs).map fun cut => (gap ++ cut.1, cut.2) := by
  induction gap with
  | nil => simp
  | cons c gap ih =>
    obtain ⟨hc, hgap⟩ := blank_cons.1 h
    have hdash : ¬ (c = '-' ∧ (gap ++ cs).head? = some '>') :=
      fun h => ne_of_isBlank hc (by decide) h.1
    rw [List.cons_append, cutArrow_cons hdash, ih hgap, Option.map_map]
    rfl

theorem cutArrow_append_blank (h : Blank gap) :
    cutArrow (cs ++ gap) = (cutArrow cs).map fun cut => (cut.1, cut.2 ++ gap) := by
  cases hcut : cutArrow cs with
  | none =>
    rw [cutArrow_eq_none_iff] at hcut
    exact cutArrow_eq_none_iff.2 (hcut.append_blank h)
  | some cut =>
    obtain ⟨hleft, rfl⟩ := cutArrow_eq_some hcut
    rw [List.append_assoc]
    exact cutArrow_append hleft

/-! ## Pieces -/

theorem pieces_of_not_mem (h : sep ∉ cs) : pieces sep cs = [cs] := by
  induction cs with
  | nil => rfl
  | cons c cs ih =>
    rw [List.mem_cons, not_or] at h
    rw [pieces, if_neg (Ne.symm h.1), ih h.2]
    rfl

theorem pieces_append_sep (h : sep ∉ cs) :
    pieces sep (cs ++ sep :: rest) = cs :: pieces sep rest := by
  induction cs with
  | nil => simp [pieces]
  | cons c cs ih =>
    rw [List.mem_cons, not_or] at h
    rw [List.cons_append, pieces, if_neg (Ne.symm h.1), ih h.2]
    rfl

theorem exists_pieces_append (h : sep ∉ gap) (cs : List Char) : ∃ init last,
    pieces sep cs = init ++ [last] ∧ pieces sep (cs ++ gap) = init ++ [last ++ gap] := by
  induction cs with
  | nil => exact ⟨[], [], rfl, pieces_of_not_mem h⟩
  | cons c cs ih =>
    obtain ⟨init, last, hcs, hgap⟩ := ih
    rw [List.cons_append, pieces, pieces, hcs, hgap]
    by_cases hc : c = sep
    · exact ⟨[] :: init, last, by simp [hc], by simp [hc]⟩
    · rw [if_neg hc, if_neg hc]
      cases init with
      | nil => exact ⟨[], c :: last, rfl, rfl⟩
      | cons first init => exact ⟨(c :: first) :: init, last, rfl, rfl⟩

theorem pieces_ne_nil : pieces sep cs ≠ [] := by
  obtain ⟨init, last, h, -⟩ := exists_pieces_append (List.not_mem_nil (a := sep)) cs
  simp [h]

/-- A piece is a part of its text, without the separator. -/
theorem mem_pieces {piece : List Char} (h : piece ∈ pieces sep cs) :
    sep ∉ piece ∧ piece <:+: cs := by
  have hall : ∀ cs : List Char, ∃ first others, pieces sep cs = first :: others ∧
      (sep ∉ first ∧ first <+: cs) ∧ ∀ piece ∈ others, sep ∉ piece ∧ piece <:+: cs := by
    intro cs
    induction cs with
    | nil => exact ⟨[], [], rfl, ⟨by simp, List.prefix_refl _⟩, by simp⟩
    | cons c cs ih =>
      obtain ⟨first, others, hpieces, hfirst, hothers⟩ := ih
      have hsuffix : cs <:+: c :: cs := (List.suffix_cons c cs).isInfix
      rw [pieces, hpieces]
      by_cases hc : c = sep
      · refine ⟨[], first :: others, if_pos hc, ⟨by simp, List.nil_prefix⟩, fun piece hp => ?_⟩
        rcases List.mem_cons.1 hp with rfl | hp
        · exact hfirst.imp_right fun hprefix => hprefix.isInfix.trans hsuffix
        · exact (hothers piece hp).imp_right fun hpart => hpart.trans hsuffix
      · refine ⟨c :: first, others, if_neg hc, ⟨?_, ?_⟩, fun piece hp => ?_⟩
        · simp [Ne.symm hc, hfirst.1]
        · exact List.cons_prefix_cons.2 ⟨rfl, hfirst.2⟩
        · exact (hothers piece hp).imp_right fun hpart => hpart.trans hsuffix
  obtain ⟨first, others, hpieces, hfirst, hothers⟩ := hall cs
  rw [hpieces] at h
  rcases List.mem_cons.1 h with rfl | h
  · exact hfirst.imp_right List.IsPrefix.isInfix
  · exact hothers piece h

/-! ## Lines -/

theorem unbroken_cons : Unbroken (c :: cs) ↔ (c ≠ '\r' ∧ c ≠ '\n') ∧ Unbroken cs := by
  simp [Unbroken]

/-- A line goes on until the next line break. -/
theorem lines_append {ls : List (List Char)} (h : Unbroken line) (hcs : lines cs = [] :: ls) :
    lines (line ++ cs) = line :: ls := by
  induction line with
  | nil => exact hcs
  | cons c line ih =>
    obtain ⟨hc, hline⟩ := unbroken_cons.1 h
    have hstep : lines (c :: (line ++ cs)) = extendFirst c (lines (line ++ cs)) := by
      rw [lines]
      · simp [hc]
      · rintro rest rfl
        exact absurd rfl hc.1
    rw [List.cons_append, hstep, ih hline]
    rfl

theorem lines_of_unbroken (h : Unbroken line) : lines line = [line] := by
  have hend : lines [] = [[]] := by rw [lines]
  have hline := lines_append h hend
  rwa [List.append_nil] at hline

/-- A line break ends a line, and if it meets another one, both may be one. -/
theorem lines_append_break {brk : List Char} (h : Unbroken line) (hb : LineBreak brk) :
    lines (line ++ brk ++ cs) = line :: lines cs ∨
      ∃ ls, lines cs = [] :: ls ∧ lines (line ++ brk ++ cs) = line :: ls := by
  rw [List.append_assoc]
  rcases hb with rfl | rfl | rfl
  · left
    exact lines_append h (by simp [lines])
  · by_cases hcs : ∃ rest, cs = '\n' :: rest
    · obtain ⟨rest, rfl⟩ := hcs
      right
      exact ⟨lines rest, by simp [lines], lines_append h (by simp [lines])⟩
    · left
      apply lines_append h
      rw [List.singleton_append, lines]
      · simp
      · rintro rest - rfl
        exact hcs ⟨rest, rfl⟩
  · left
    exact lines_append h (by simp [lines])

/-- The lines of a text do not depend on the way in which they are ended. -/
theorem lines_unifyBreaks (cs : List Char) : lines (unifyBreaks cs) = lines cs := by
  fun_induction lines cs with
  | case1 => simp [unifyBreaks, lines]
  | case2 cs ih => simp [unifyBreaks, lines, ih]
  | case3 c cs hne hc ih =>
    have hstep : unifyBreaks (c :: cs) = '\n' :: unifyBreaks cs := by
      rw [unifyBreaks]
      · rcases hc with rfl | rfl <;> simp
      · exact hne
    rw [hstep, lines, if_pos (.inr rfl), ih]
    · simp
  | case4 c cs hne hc ih =>
    have hcr : c ≠ '\r' := fun e => hc (.inl e)
    have hstep : unifyBreaks (c :: cs) = c :: unifyBreaks cs := by
      rw [unifyBreaks, if_neg hcr]
      exact hne
    rw [hstep, lines, if_neg hc, ih]
    · exact fun rest e => absurd e hcr

theorem blank_extendFirst {ps : List (List Char)} :
    (∀ p ∈ extendFirst c ps, Blank p) ↔ isBlank c = true ∧ ∀ p ∈ ps, Blank p := by
  cases ps with
  | nil => simp [extendFirst]
  | cons p ps => simp [extendFirst, and_assoc]

theorem blank_lines_iff : (∀ line ∈ lines cs, Blank line) ↔ Blank cs := by
  fun_induction lines cs with
  | case1 => simp
  | case2 cs ih =>
    have hr : isBlank '\r' = true := by decide
    have hn : isBlank '\n' = true := by decide
    simp [ih, hr, hn]
  | case3 c cs _ hc ih =>
    have hblank : isBlank c = true := by
      rcases hc with rfl | rfl <;> decide
    simp [ih, hblank]
  | case4 c cs _ _ ih => rw [blank_extendFirst, ih, blank_cons]

end CanonicalLR.Text
