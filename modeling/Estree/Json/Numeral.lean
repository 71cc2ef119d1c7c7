import Estree.Json.Fault
import Estree.Json.Value

namespace Estree.Json

-- A number as it is written: `significand * 10 ^ exponent`, with a sign. The significand holds as
-- many leading digits as fit in 64 bits; further digits only count for the exponent.
structure Numeral where
  negative : Bool
  significand : Nat
  exponent : Int
  isInteger : Bool

namespace Numeral

def digit (c : Char) : Nat :=
  c.toNat - '0'.toNat

-- Appends leading digits of the text to a significand, as long as they fit.
def absorb (significand : Nat) : List Char → Nat × List Char
  | [] => (significand, [])
  | c :: cs =>
    if c.isDigit && significand * 10 + digit c < Nat.pow 2 64 then
      absorb (significand * 10 + digit c) cs
    else
      (significand, c :: cs)

-- The digits before the point, with the number of those that did not fit. A leading zero stands
-- alone.
def integerPart : List Char → Except Fault (Nat × Nat × List Char)
  | [] => .error .endInValue
  | '0' :: cs => if cs.head?.any Char.isDigit then .error .invalidNumber else .ok (0, 0, cs)
  | c :: cs =>
    if c.isDigit then
      let (significand, rest) := absorb (digit c) cs
      .ok (significand, (rest.takeWhile Char.isDigit).length, rest.dropWhile Char.isDigit)
    else
      .error .invalidNumber

-- The digits after the point, if there is one, with the number of those that were appended to the
-- significand.
def fractionPart (significand : Nat) (cs : List Char) :
    Except Fault (Nat × Option Nat × List Char) :=
  match cs with
  | '.' :: c :: cs =>
    if c.isDigit then
      let (significand, rest) := absorb significand (c :: cs)
      .ok (significand, some ((c :: cs).length - rest.length), rest.dropWhile Char.isDigit)
    else
      .error .invalidNumber
  | ['.'] => .error .endInValue
  | cs => .ok (significand, none, cs)

-- The digits of a power of ten, with a sign before them or not.
def power (cs : List Char) : Except Fault (Int × List Char) :=
  let (negative, digits) := match cs with
    | '-' :: cs => (true, cs)
    | '+' :: cs => (false, cs)
    | cs => (false, cs)
  match digits with
  | [] => .error .endInValue
  | c :: _ =>
    if c.isDigit then
      let power := (digits.takeWhile Char.isDigit).foldl (fun n c => n * 10 + digit c) 0
      .ok (if negative then -power else power, digits.dropWhile Char.isDigit)
    else
      .error .invalidNumber

-- The power of ten, if there is one.
def exponentPart (cs : List Char) : Except Fault (Option Int × List Char) :=
  match cs with
  | 'e' :: cs
  | 'E' :: cs => (power cs).map fun (power, rest) => (some power, rest)
  | cs => .ok (none, cs)

def minus : List Char → Bool × List Char
  | '-' :: cs => (true, cs)
  | cs => (false, cs)

-- Reads the number a text begins with, up to the first character that does not continue it.
def read (cs : List Char) : Except Fault (Numeral × List Char) := do
  let (negative, cs) := minus cs
  let (significand, skipped, cs) ← integerPart cs
  let (significand, appended, cs) ← fractionPart significand cs
  let (power, cs) ← exponentPart cs
  let exponent := skipped - appended.getD 0 + power.getD 0
  let isInteger := skipped = 0 && appended.isNone && power.isNone
  return (⟨negative, significand, exponent, isInteger⟩, cs)

def powerOfTen (e : Nat) : Float :=
  Float.ofScientific 1 false e

-- Multiplies by a power of ten, rounding once for every power that is a double of its own. What
-- becomes infinite is out of range.
def scale (x : Float) (e : Int) : Except Fault Float :=
  if e.natAbs ≤ 308 then
    if 0 ≤ e then
      let scaled := x * powerOfTen e.natAbs
      if scaled.isInf then .error .numberOutOfRange else .ok scaled
    else
      .ok (x / powerOfTen e.natAbs)
  else if x == 0 then
    .ok x
  else if 0 ≤ e then
    .error .numberOutOfRange
  else
    scale (x / powerOfTen 308) (e + 308)
termination_by e.natAbs

-- The number that is written. Integers are exact as long as they fit in 64 bits with their sign,
-- and a negative zero is a double.
def value (n : Numeral) : Except Fault Number :=
  let magnitude := Float.ofNat n.significand
  if n.isInteger then
    if !n.negative then
      .ok (.int n.significand)
    else if 0 < n.significand && n.significand ≤ Nat.pow 2 63 then
      .ok (.int (-n.significand))
    else
      .ok (.float (-magnitude))
  else do
    let scaled ← scale magnitude n.exponent
    return .float (if n.negative then -scaled else scaled)

theorem length_absorb_le (significand : Nat) (cs : List Char) :
    (absorb significand cs).2.length ≤ cs.length := by
  fun_induction absorb <;> grind

theorem length_dropWhile_le (p : Char → Bool) (cs : List Char) :
    (cs.dropWhile p).length ≤ cs.length :=
  (List.dropWhile_suffix p).length_le

theorem length_integerPart_lt {cs rest : List Char} {significand skipped : Nat}
    (h : integerPart cs = .ok (significand, skipped, rest)) : rest.length < cs.length := by
  unfold integerPart at h
  grind [length_absorb_le, length_dropWhile_le]

theorem length_fractionPart_le {cs rest : List Char} {before after : Nat} {appended : Option Nat}
    (h : fractionPart before cs = .ok (after, appended, rest)) : rest.length ≤ cs.length := by
  unfold fractionPart at h
  grind [length_absorb_le, length_dropWhile_le]

theorem length_power_le {cs rest : List Char} {e : Int} (h : power cs = .ok (e, rest)) :
    rest.length ≤ cs.length := by
  unfold power at h
  grind [length_dropWhile_le]

theorem length_exponentPart_le {cs rest : List Char} {e : Option Int}
    (h : exponentPart cs = .ok (e, rest)) : rest.length ≤ cs.length := by
  unfold exponentPart Except.map at h
  repeat' split at h
  all_goals grind [→ length_power_le]

theorem length_minus_le (cs : List Char) : (minus cs).2.length ≤ cs.length := by
  unfold minus
  split <;> simp

-- A number takes at least one character.
theorem length_read_lt {cs rest : List Char} {n : Numeral} (h : read cs = .ok (n, rest)) :
    rest.length < cs.length := by
  have := length_minus_le cs
  unfold read at h
  simp only [bind, Except.bind, pure, Except.pure] at h
  repeat' split at h
  all_goals grind [→ length_integerPart_lt, → length_fractionPart_le, → length_exponentPart_le]

end Numeral

end Estree.Json
