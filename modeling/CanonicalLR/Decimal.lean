/-!
# The shortest decimal of a binary number

A finite binary number stands for the interval of reals that round to it.  `Binary.shortest` finds
the decimal with the fewest digits in that interval, and of several the nearest to the number; of
two equally near ones it takes the one with an even last digit.  All comparisons are exact, on
natural numbers.
-/

namespace CanonicalLR

/-- The number `mantissa * 2 ^ exponent`.  The gap to the number below may be half the usual one. -/
structure Binary where
  mantissa : Nat
  exponent : Int
  narrowBelow : Bool
deriving DecidableEq, Repr

/-- The number `digits * 10 ^ exponent`. -/
structure Decimal where
  digits : Nat
  exponent : Int
deriving DecidableEq, Repr

namespace Binary

/-- The size of a finite number in the 64-bit format, by its bits. -/
def ofBits (bits : UInt64) : Binary :=
  let scale := ((bits >>> 52) &&& 0x7FF).toNat
  let fraction := (bits &&& 0xFFFFFFFFFFFFF).toNat
  if scale = 0 then ⟨fraction, -1074, false⟩
  else ⟨Nat.pow 2 52 + fraction, (scale : Int) - 1075, fraction = 0 && 1 < scale⟩

/-- Compares `n * 2 ^ i` with `d * 10 ^ j`. -/
def compareDecimal (n : Nat) (i : Int) (d : Nat) (j : Int) : Ordering :=
  compare (n * Nat.pow 2 i.toNat * Nat.pow 10 (-j).toNat)
    (d * Nat.pow 10 j.toNat * Nat.pow 2 (-i).toNat)

/-- Whether a decimal lies among the reals that round to the number.  The ends of the interval
belong to it when the mantissa is even. -/
def covers (x : Binary) (d : Decimal) : Bool :=
  let low := 4 * x.mantissa - (if x.narrowBelow then 1 else 2)
  let high := 4 * x.mantissa + 2
  let closed := x.mantissa % 2 = 0
  let fromLow := compareDecimal low (x.exponent - 2) d.digits d.exponent
  let fromHigh := compareDecimal high (x.exponent - 2) d.digits d.exponent
  (fromLow = .lt || (closed && fromLow = .eq)) && (fromHigh = .gt || (closed && fromHigh = .eq))

/-- The largest multiple of `10 ^ j` that is not above the number, counted in that unit. -/
def floorAt (x : Binary) (j : Int) : Nat :=
  (x.mantissa * Nat.pow 2 x.exponent.toNat * Nat.pow 10 (-j).toNat) /
    (Nat.pow 2 (-x.exponent).toNat * Nat.pow 10 j.toNat)

/-- The least `k` with the number below `10 ^ k`, for a number that is not zero. -/
def decimalScale (x : Binary) : Int :=
  let guess := ((x.mantissa.log2 + x.exponent) * 30103).fdiv 100000
  let isBelow := fun (k : Int) => compareDecimal x.mantissa x.exponent 1 k = .lt
  if isBelow guess then guess
  else if isBelow (guess + 1) then guess + 1
  else guess + 2

/-- The better of the two neighbours of the number among the multiples of `10 ^ j`, if one of them
rounds to the number. -/
def pick? (x : Binary) (j : Int) : Option Decimal :=
  let below : Decimal := ⟨x.floorAt j, j⟩
  let above : Decimal := ⟨x.floorAt j + 1, j⟩
  match x.covers below, x.covers above with
  | false, false => none
  | true, false => some below
  | false, true => some above
  | true, true =>
    match compareDecimal (2 * x.mantissa) x.exponent (2 * below.digits + 1) j with
    | .lt => some below
    | .gt => some above
    | .eq => some (if below.digits % 2 = 0 then below else above)

/-- Searches for a decimal with a growing number of digits. -/
def search (x : Binary) (scale : Int) : Nat → Nat → Decimal
  | 0, count => ⟨x.floorAt (scale - count), scale - count⟩
  | tries + 1, count => (x.pick? (scale - count)).getD (search x scale tries (count + 1))

/-- The decimal with the fewest digits that rounds to the number. -/
def shortest (x : Binary) : Decimal :=
  if x.mantissa = 0 then ⟨0, 0⟩ else x.search x.decimalScale 17 1

end Binary

end CanonicalLR
