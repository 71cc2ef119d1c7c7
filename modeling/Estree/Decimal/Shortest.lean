namespace Estree

-- The number `digits * 10 ^ exponent`.
structure Decimal where
  digits : Nat
  exponent : Int
  deriving DecidableEq

namespace Decimal

-- The positive number `mantissa * 2 ^ exponent`, in the one way a double holds it.
structure Binary where
  mantissa : Nat
  exponent : Int
  deriving DecidableEq

-- Which of two neighbours on a grid is taken for a number that lies exactly between them.
inductive Tie where
  | up
  | even

namespace Binary

-- The magnitude of the finite double with the given bits.
def ofBits (bits : UInt64) : Binary :=
  let fraction : Nat := bits.toNat % Nat.pow 2 52
  let biased : Nat := bits.toNat / Nat.pow 2 52 % Nat.pow 2 11
  if biased = 0 then ⟨fraction, -1074⟩ else ⟨Nat.pow 2 52 + fraction, biased - 1075⟩

-- Four times the ends of the interval of reals that round to the number, in units of
-- `2 ^ exponent`. Below a power of two the doubles are twice as dense.
def lower (b : Binary) : Nat :=
  if b.mantissa = Nat.pow 2 52 ∧ b.exponent ≠ -1074 then 4 * b.mantissa - 1 else 4 * b.mantissa - 2

def upper (b : Binary) : Nat :=
  4 * b.mantissa + 2

-- `c * 10 ^ k` relates to `x * 2 ^ (exponent - 2)` as `c * tens` relates to `x * twos`.
def tens (b : Binary) (k : Int) : Nat :=
  Nat.pow 10 k.toNat * Nat.pow 2 (2 - b.exponent).toNat

def twos (b : Binary) (k : Int) : Nat :=
  Nat.pow 2 (b.exponent - 2).toNat * Nat.pow 10 (-k).toNat

-- Whether `c * 10 ^ k` rounds to the number. The ends of the interval do if the mantissa is even.
def readsBack (b : Binary) (k : Int) (c : Nat) : Bool :=
  let value := c * b.tens k
  let low := b.lower * b.twos k
  let high := b.upper * b.twos k
  if b.mantissa % 2 = 0 then low ≤ value ∧ value ≤ high else low < value ∧ value < high

-- The multiple of `10 ^ k` at or below the number.
def gridFloor (b : Binary) (k : Int) : Nat :=
  4 * b.mantissa * b.twos k / b.tens k

-- The multiple of `10 ^ k` nearest to the number among those that round to it.
def onGrid? (tie : Tie) (b : Binary) (k : Int) : Option Nat :=
  let below := b.gridFloor k
  match b.readsBack k below, b.readsBack k (below + 1) with
  | false, false => none
  | true, false => some below
  | false, true => some (below + 1)
  | true, true =>
    match compare (8 * b.mantissa * b.twos k) ((2 * below + 1) * b.tens k), tie with
    | .lt, _ => some below
    | .gt, _ => some (below + 1)
    | .eq, .up => some (below + 1)
    | .eq, .even => some (if below % 2 = 0 then below else below + 1)

-- An exponent whose power of ten exceeds the number.
def bound (b : Binary) : Int :=
  (b.exponent + b.mantissa.log2 + 1) * 301 / 1000 + 1

-- Tries the grids `10 ^ k`, `10 ^ (k - 1)`, … down to one on which the number itself lies.
def search (tie : Tie) (b : Binary) (k : Int) : Decimal :=
  match b.onGrid? tie k with
  | some c => ⟨c, k⟩
  | none => if k ≤ min b.exponent 0 then ⟨b.gridFloor k, k⟩ else search tie b (k - 1)
termination_by (k - min b.exponent 0).toNat

-- The decimal with the fewest digits that rounds to the number, and of those the nearest one.
def shortest (tie : Tie) (b : Binary) : Decimal :=
  b.search tie b.bound

end Binary

end Decimal

end Estree
