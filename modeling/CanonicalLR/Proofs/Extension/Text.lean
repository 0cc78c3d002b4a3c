import CanonicalLR.Proofs.Reading

/-!
# Texts on new lines

A text that is continued on new lines has the lines of both parts, up to blank ones: where two line
breaks meet, an empty line can be lost (`Text.Continued.nonblank_lines`).  Blank lines are skipped,
and the numbers of lines matter for errors only.  So if both parts are read, the whole is read as
the pairs of the first part followed by those of the second (`readLines_of_continued`).
-/

namespace CanonicalLR

namespace Text

/-- Whether a text is `cs` followed by `ds` on new lines: a line break stands between them, or at
the end of the first part, or at the beginning of the second. -/
inductive Continued (cs ds : List Char) : List Char → Prop
  | between {brk : List Char} (h : LineBreak brk) : Continued cs ds (cs ++ brk ++ ds)
  | behind {before brk : List Char} (h : LineBreak brk) (hcs : cs = before ++ brk) :
      Continued cs ds (cs ++ ds)
  | ahead {after brk : List Char} (h : LineBreak brk) (hds : ds = brk ++ after) :
      Continued cs ds (cs ++ ds)

/-- The lines that are not blank. -/
def nonblank (ls : List (List Char)) : List (List Char) := ls.filter fun line => ¬ Blank line

variable {cs ds whole line brk : List Char}

theorem nonblank_append (ls more : List (List Char)) :
    nonblank (ls ++ more) = nonblank ls ++ nonblank more :=
  List.filter_append _ _

theorem nonblank_cons (line : List Char) (ls : List (List Char)) :
    nonblank (line :: ls) = nonblank [line] ++ nonblank ls := nonblank_append [line] ls

theorem nonblank_lines_nil : nonblank (lines []) = [] := by
  rw [lines]
  rfl

/-- A text has a first line break unless it is one line. -/
theorem unbroken_or_exists_break (cs : List Char) : Unbroken cs ∨
    ∃ line brk rest, Unbroken line ∧ LineBreak brk ∧ cs = line ++ brk ++ rest := by
  induction cs with
  | nil => exact .inl (by simp [Unbroken])
  | cons c cs ih =>
    by_cases hc : c = '\r' ∨ c = '\n'
    · have hb : LineBreak [c] := by
        rcases hc with rfl | rfl
        · exact .inr (.inl rfl)
        · exact .inr (.inr rfl)
      exact .inr ⟨[], [c], cs, by simp [Unbroken], hb, rfl⟩
    · rw [not_or] at hc
      rcases ih with h | ⟨line, brk, rest, hline, hb, rfl⟩
      · exact .inl (unbroken_cons.2 ⟨hc, h⟩)
      · exact .inr ⟨c :: line, brk, rest, unbroken_cons.2 ⟨hc, hline⟩, hb, rfl⟩

/-- The line that is lost where two line breaks meet is empty. -/
theorem nonblank_lines_append_break (h : Unbroken line) (hb : LineBreak brk) :
    nonblank (lines (line ++ brk ++ cs)) = nonblank [line] ++ nonblank (lines cs) := by
  have hlines : lines (line ++ brk ++ cs) = line :: lines cs ∨ _ := lines_append_break h hb
  rcases hlines with hsplit | ⟨ls, hcs, hsplit⟩
  · rw [hsplit, nonblank_cons]
  · rw [hsplit, hcs, nonblank_cons, nonblank_cons []]
    rfl

theorem nonblank_lines_append (hb : LineBreak brk) (cs ds : List Char) :
    nonblank (lines (cs ++ brk ++ ds)) = nonblank (lines cs) ++ nonblank (lines ds) := by
  -- a text that is not one line is shorter without its first line
  induction hn : cs.length using Nat.strong_induction_on generalizing cs with
  | _ n ih =>
    rcases unbroken_or_exists_break cs with hcs | ⟨line, first, rest, hline, hfirst, rfl⟩
    · rw [nonblank_lines_append_break hcs hb, lines_of_unbroken hcs]
    · have hshorter : rest.length < n := by
        have hne : 0 < first.length := by rcases hfirst with rfl | rfl | rfl <;> decide
        rw [← hn, List.length_append, List.length_append]
        omega
      have hassoc : line ++ first ++ rest ++ brk ++ ds = line ++ first ++ (rest ++ brk ++ ds) := by
        simp only [List.append_assoc]
      rw [hassoc, nonblank_lines_append_break hline hfirst,
        nonblank_lines_append_break hline hfirst,
        ih _ hshorter rest rfl, List.append_assoc]

theorem Continued.nonblank_lines (h : Continued cs ds whole) :
    nonblank (lines whole) = nonblank (lines cs) ++ nonblank (lines ds) := by
  cases h with
  | between hb => exact nonblank_lines_append hb cs ds
  | @behind before brk hb hcs =>
    -- behind a line break at its end the first part has an empty line
    have hfirst := nonblank_lines_append hb before []
    rw [List.append_nil, nonblank_lines_nil, List.append_nil] at hfirst
    rw [hcs, nonblank_lines_append hb, hfirst]
  | @ahead after brk hb hds =>
    have hlater := nonblank_lines_append hb [] after
    rw [List.nil_append, nonblank_lines_nil, List.nil_append] at hlater
    rw [hds, ← List.append_assoc, nonblank_lines_append hb, hlater]

end Text

section Lines

variable {raws more : List (List Char)} {pairs later : List (Symbol × List Symbol)}

/-- Neither blank lines nor the number of the first line matter to lines that are read. -/
theorem readLines_nonblank (number other : Nat) :
    readLines number raws = .ok pairs ↔ readLines other (Text.nonblank raws) = .ok pairs := by
  induction raws generalizing number other pairs with
  | nil => exact .rfl
  | cons raw raws ih =>
    by_cases hb : Text.Blank raw
    · have hkept : Text.nonblank (raw :: raws) = Text.nonblank raws :=
        List.filter_cons_of_neg (by simpa using hb)
      rw [readLines_blank_cons hb, hkept]
      exact ih _ _
    · have hkept : Text.nonblank (raw :: raws) = raw :: Text.nonblank raws :=
        List.filter_cons_of_pos (by simpa using hb)
      rw [hkept, readLines_cons_eq_ok hb, readLines_cons_eq_ok hb]
      simp only [ih (number + 1) (other + 1)]

theorem readLines_append {number other : Nat} (h : readLines number raws = .ok pairs)
    (hm : readLines other more = .ok later) :
    readLines number (raws ++ more) = .ok (pairs ++ later) := by
  induction raws generalizing number pairs with
  | nil =>
    cases h
    exact (readLines_nonblank _ _).2 ((readLines_nonblank _ 0).1 hm)
  | cons raw raws ih =>
    rw [List.cons_append]
    by_cases hb : Text.Blank raw
    · rw [readLines_blank_cons hb] at h ⊢
      exact ih h
    · obtain ⟨first, rest, hf, hrest, rfl⟩ := (readLines_cons_eq_ok hb).1 h
      exact (readLines_cons_eq_ok hb).2
        ⟨first, rest ++ later, hf, ih hrest, List.append_assoc _ _ _⟩

/-- The pairs of a text that is continued are those of both parts. -/
theorem readLines_of_continued {cs ds whole : List Char} (h : Text.Continued cs ds whole)
    (hcs : readLines 1 (Text.lines cs) = .ok pairs)
    (hds : readLines 1 (Text.lines ds) = .ok later) :
    readLines 1 (Text.lines whole) = .ok (pairs ++ later) := by
  rw [readLines_nonblank 1 1] at hcs hds ⊢
  rw [h.nonblank_lines]
  exact readLines_append hcs hds

end Lines

end CanonicalLR
