/-!
# Code points

A text from outside need not be well formed: an escape in JSON can name one half of a surrogate pair
alone.  Such a text is a list of code points.  A code point is a character or a surrogate, one of
the numbers from U+D800 to U+DFFF, which stand for no character.  `ofPoints?` undoes `points`, and
finds no text only where there is a surrogate.
-/

namespace CanonicalLR

/-- A character, or a surrogate that stands alone. -/
inductive CodePoint where
  | char (c : Char)
  | surrogate (offset : Fin 0x800)
deriving DecidableEq, Repr

namespace CodePoint

/-- The number of a code point. -/
def value : CodePoint → Nat
  | char c => c.toNat
  | surrogate offset => 0xD800 + offset.val

/-- The code point with a given number below 0x110000. -/
def ofNat (n : Nat) : CodePoint :=
  if 0xD800 ≤ n ∧ n < 0xE000 then surrogate (Fin.ofNat 0x800 (n - 0xD800)) else char (Char.ofNat n)

theorem value_ofNat {n : Nat} (h : n < 0x110000) : (ofNat n).value = n := by
  unfold ofNat
  split
  · next hn =>
    have hlt : n - 0xD800 < 0x800 := by omega
    simp only [value, Fin.ofNat, Nat.mod_eq_of_lt hlt]
    omega
  · next hn =>
    have valid : n.isValidChar := by unfold Nat.isValidChar; omega
    show (Char.ofNat n).toNat = n
    rw [Char.ofNat, dif_pos valid]
    rfl

/-- The character of a code point, if it has one. -/
def toChar? : CodePoint → Option Char
  | char c => some c
  | surrogate _ => none

/-- Whether a code point is the first half of a surrogate pair. -/
def isHigh (p : CodePoint) : Bool := 0xD800 ≤ p.value && p.value < 0xDC00

/-- Whether a code point is the second half of a surrogate pair. -/
def isLow (p : CodePoint) : Bool := 0xDC00 ≤ p.value && p.value < 0xE000

/-- The character that a surrogate pair stands for. -/
def ofPair (high low : CodePoint) : CodePoint :=
  ofNat (0x10000 + (high.value - 0xD800) * 0x400 + (low.value - 0xDC00))

end CodePoint

namespace Text

/-- The code points of a well-formed text. -/
def points (text : String) : List CodePoint := text.toList.map .char

/-- The well-formed text with given code points; there is none if one of them is a surrogate. -/
def ofPoints? (points : List CodePoint) : Option String :=
  (points.mapM CodePoint.toChar?).map String.ofList

@[simp] theorem ofPoints?_points (text : String) : ofPoints? (points text) = some text := by
  have hchars : ∀ cs : List Char, (cs.map CodePoint.char).mapM CodePoint.toChar? = some cs := by
    intro cs
    induction cs with
    | nil => rfl
    | cons c cs ih => simp [List.mapM_cons, CodePoint.toChar?, ih]
  rw [ofPoints?, points, hchars, Option.map_some, String.ofList_toList]

/-- Only a surrogate keeps code points from being a text. -/
theorem exists_surrogate_of_ofPoints? {points : List CodePoint} (h : ofPoints? points = none) :
    ∃ offset, .surrogate offset ∈ points := by
  rw [ofPoints?, Option.map_eq_none_iff] at h
  induction points with
  | nil => cases h
  | cons p points ih =>
    cases p with
    | surrogate offset => exact ⟨offset, List.mem_cons_self⟩
    | char c =>
      rw [List.mapM_cons] at h
      cases hrest : points.mapM CodePoint.toChar? with
      | none =>
        obtain ⟨offset, hmem⟩ := ih hrest
        exact ⟨offset, List.mem_cons_of_mem _ hmem⟩
      | some cs => simp [CodePoint.toChar?, hrest] at h

end Text

end CanonicalLR
