import CanonicalLR.Table.Basic
import Mathlib

/-!
# Texts of cells

The text of a cell tells what the cell is (`Cell.ofText?_render`): nothing, `acc`, a letter with a
numeral, or a numeral alone.  No numeral begins with a letter, so the four look different.
-/

namespace CanonicalLR

namespace Cell

/-- The cell that a text shows. -/
def ofText? (text : String) : Option Cell :=
  match text.toList with
  | [] => some .blank
  | ['a', 'c', 'c'] => some (.action .accept)
  | 's' :: number => (String.ofList number).toInt?.map fun target => .action (.shift target)
  | 'r' :: number => (String.ofList number).toInt?.map fun rule => .action (.reduce rule)
  | _ => text.toInt?.map .goto

theorem isDigit_of_mem_numeral {n : Nat} {c : Char} (h : c ∈ (toString n).toList) :
    c.isDigit = true := by
  rw [Nat.toString_eq_repr, Nat.repr_eq_ofList_toDigits, String.toList_ofList] at h
  exact Nat.isDigit_of_mem_toDigits (by decide) (by decide) h

/-- The characters of a numeral: digits, and the minus sign. -/
theorem mem_numeral {n : Int} {c : Char} (h : c ∈ (toString n).toList) :
    c = '-' ∨ c.isDigit = true := by
  rw [Int.toString_eq_repr] at h
  cases n with
  | ofNat m => exact .inr (isDigit_of_mem_numeral (n := m) h)
  | negSucc m =>
    have hlist : (Int.negSucc m).repr.toList = '-' :: (m + 1).repr.toList := String.toList_append
    rw [hlist, List.mem_cons] at h
    exact h.imp_right isDigit_of_mem_numeral

/-- A numeral begins with a digit or with a minus sign. -/
theorem exists_toList_numeral (n : Int) :
    ∃ c cs, (toString n).toList = c :: cs ∧ (c = '-' ∨ c.isDigit = true) := by
  have digits : ∀ m : Nat, ∃ c cs, m.repr.toList = c :: cs ∧ c.isDigit = true := by
    intro m
    rw [Nat.repr_eq_ofList_toDigits, String.toList_ofList]
    obtain ⟨c, cs, h⟩ := List.exists_cons_of_ne_nil (Nat.toDigits_ne_nil (b := 10) (n := m))
    exact ⟨c, cs, h, Nat.isDigit_of_mem_toDigits (by decide) (by decide) (h ▸ List.mem_cons_self)⟩
  rw [Int.toString_eq_repr]
  cases n with
  | ofNat m =>
    obtain ⟨c, cs, h, hc⟩ := digits m
    exact ⟨c, cs, h, .inr hc⟩
  | negSucc m => exact ⟨'-', _, String.toList_append, .inl rfl⟩

theorem toInt?_toString (n : Int) : (toString n).toInt? = some n := by
  rw [Int.toString_eq_repr, Int.toInt?_repr]

/-- The text of a cell tells what the cell is. -/
theorem ofText?_render (cell : Cell) : ofText? cell.render = some cell := by
  cases cell with
  | blank => rfl
  | action act =>
    cases act with
    | accept => rfl
    | shift target =>
      have hlist : ("s" ++ toString target).toList = 's' :: (toString target).toList :=
        String.toList_append
      simp only [ofText?, render, Action.render, hlist, String.ofList_toList, toInt?_toString,
        Option.map_some]
    | reduce rule =>
      have hlist : ("r" ++ toString rule).toList = 'r' :: (toString rule).toList :=
        String.toList_append
      simp only [ofText?, render, Action.render, hlist, String.ofList_toList, toInt?_toString,
        Option.map_some]
  | goto target =>
    -- a numeral begins with none of the letters
    obtain ⟨c, cs, hlist, hc⟩ := exists_toList_numeral target
    have ha : c ≠ 'a' ∧ c ≠ 's' ∧ c ≠ 'r' := by
      refine ⟨?_, ?_, ?_⟩ <;> (rintro rfl; revert hc; decide)
    unfold ofText? render
    rw [hlist]
    split
    · next h => cases h
    · next h => exact absurd (List.cons.inj h).1 ha.1
    · next h => exact absurd (List.cons.inj h).1 ha.2.1
    · next h => exact absurd (List.cons.inj h).1 ha.2.2
    · rw [toInt?_toString, Option.map_some]

/-- The text of a cell is made of letters, digits and the minus sign. -/
theorem mem_render {cell : Cell} {c : Char} (h : c ∈ cell.render.toList) :
    c = '-' ∨ c.isAlphanum = true := by
  have alphanum : ∀ n : Int, c ∈ (toString n).toList → c = '-' ∨ c.isAlphanum = true :=
    fun n hn => (mem_numeral hn).imp_right fun hd => by simp [Char.isAlphanum, hd]
  cases cell with
  | blank => cases h
  | goto target => exact alphanum target h
  | action act =>
    cases act with
    | accept =>
      have hletters : c ∈ ['a', 'c', 'c'] := h
      fin_cases hletters <;> decide
    | shift target =>
      rw [render, Action.render, String.toList_append, List.mem_append] at h
      rcases h with h | h
      · rw [List.mem_singleton.1 h]
        decide
      · exact alphanum target h
    | reduce rule =>
      rw [render, Action.render, String.toList_append, List.mem_append] at h
      rcases h with h | h
      · rw [List.mem_singleton.1 h]
        decide
      · exact alphanum rule h

theorem render_injective {a b : Cell} (h : a.render = b.render) : a = b := by
  apply Option.some.inj
  rw [← ofText?_render a, h, ofText?_render]

theorem render_eq_empty_iff {cell : Cell} : cell.render = "" ↔ cell = .blank :=
  ⟨fun h => render_injective (b := .blank) h, fun h => h ▸ rfl⟩

end Cell

end CanonicalLR
