import Estree.Decimal.Shortest

namespace Estree.Decimal

-- How a double is written in decimal digits.
structure NumeralStyle where
  -- The powers of ten of the first digit for which no exponent is written
  positionalFrom : Int
  positionalTo : Int
  -- What follows an integer that is written without an exponent
  afterInteger : String
  -- The text of zero, and of a zero with a sign
  zero : String
  negativeZero : String
  tie : Tie

-- Digits around a decimal point: the first digit counts `10 ^ power`.
def positional (style : NumeralStyle) (digits : List Char) (power : Int) : List Char :=
  let whole := (power + 1).toNat
  if power < 0 then
    ['0', '.'] ++ List.replicate (-power - 1).toNat '0' ++ digits
  else if digits.length ≤ whole then
    digits ++ List.replicate (whole - digits.length) '0' ++ style.afterInteger.toList
  else
    digits.take whole ++ '.' :: digits.drop whole

-- One digit before the point, and the power of ten with its sign.
def scientific (digits : List Char) (power : Int) : List Char :=
  let fraction := digits.drop 1
  digits.take 1 ++ (if fraction = [] then [] else '.' :: fraction) ++ 'e' ::
    (if power < 0 then '-' else '+') :: Nat.toDigits 10 power.natAbs

-- The text of a positive number.
def magnitude (style : NumeralStyle) (b : Binary) : List Char :=
  let decimal := b.shortest style.tie
  let digits := Nat.toDigits 10 decimal.digits
  let power := decimal.exponent + digits.length - 1
  if style.positionalFrom ≤ power ∧ power ≤ style.positionalTo then
    positional style digits power
  else
    scientific digits power

-- The text of a double. Zero is told by its bits, and all that is not finite goes by name.
def numeral (style : NumeralStyle) (x : Float) : String :=
  let bits := x.toBits
  let negative := Nat.pow 2 63 ≤ bits.toNat
  if bits.toNat % Nat.pow 2 63 = 0 then
    if negative then style.negativeZero else style.zero
  else if x.isNaN then
    "NaN"
  else if x.isInf then
    if negative then "-Infinity" else "Infinity"
  else
    String.ofList ((if negative then ['-'] else []) ++ magnitude style (Binary.ofBits bits))

end Estree.Decimal
