import ClassForge.Number.Binary

/-!
# The fewest digits that read back

Among the decimals that round to a given binary number, the ones with the
fewest digits are wanted, and of these the one that is nearest to the number.
The search is the definition turned into a loop: for one digit, two digits and
so on, try the two neighbours of the number on the decimal grid of that many
digits.
-/

namespace ClassForge

/-- The decimal `digits * 10 ^ exponent`. -/
structure Decimal where
  digits : Nat
  exponent : Int
  deriving DecidableEq, Repr

/-- A positive binary number with the interval of reals that round to it. -/
structure RoundingInterval where
  mantissa : Nat
  exponent : Int
  /-- The gap below is half the gap above. -/
  narrowBelow : Bool

namespace RoundingInterval

/-- The interval of a positive number of a format. -/
def of (format : BinaryFormat) (mantissa : Nat) (exponent : Int) :
    RoundingInterval where
  mantissa := mantissa
  exponent := exponent
  narrowBelow :=
    mantissa == Nat.pow 2 format.fractionBits && exponent > format.minExponent

/-- Order of `left * 10 ^ i` and `right * 2 ^ j`. -/
def cmpScaled (left : Nat) (i : Int) (right : Nat) (j : Int) : Ordering :=
  compare (left * Nat.pow 10 i.toNat * Nat.pow 2 (-j).toNat)
    (right * Nat.pow 2 j.toNat * Nat.pow 10 (-i).toNat)

/-- Whether a decimal rounds to the number: it lies between the midpoints to
the two neighbours, and a midpoint itself rounds to the even mantissa. -/
def contains (interval : RoundingInterval) (decimal : Decimal) : Bool :=
  let quarter := 4 * interval.mantissa
  let lower := if interval.narrowBelow then quarter - 1 else quarter - 2
  let scale := interval.exponent - 2
  let even := interval.mantissa % 2 == 0
  let atLower := cmpScaled decimal.digits decimal.exponent lower scale
  let atUpper := cmpScaled decimal.digits decimal.exponent (quarter + 2) scale
  (atLower == .gt || (even && atLower == .eq)) &&
    (atUpper == .lt || (even && atUpper == .eq))

/-- The greatest multiple of `10 ^ step` that does not exceed the number. -/
def floorOn (interval : RoundingInterval) (step : Int) : Nat :=
  interval.mantissa * Nat.pow 2 interval.exponent.toNat * Nat.pow 10 (-step).toNat /
    (Nat.pow 2 (-interval.exponent).toNat * Nat.pow 10 step.toNat)

/-- The number of digits before the decimal point; zero and below for numbers
less than one. -/
def magnitude (interval : RoundingInterval) : Int :=
  let places := 400
  let scaled := interval.floorOn (-places)
  (Nat.toDigits 10 scaled).length - places

/-- The better of the two neighbours on one grid, if any reads back.  When both
do and both are equally near, the upper one is taken. -/
def onGrid (interval : RoundingInterval) (step : Int) : Option Decimal :=
  let below := interval.floorOn step
  let lower : Decimal := ⟨below, step⟩
  let upper : Decimal := ⟨below + 1, step⟩
  match interval.contains lower, interval.contains upper with
  | true, true =>
      -- The number is compared with the midpoint of the two neighbours.
      match cmpScaled (2 * below + 1) step (2 * interval.mantissa)
          interval.exponent with
      | .gt => some lower
      | _ => some upper
  | true, false => some lower
  | false, true => some upper
  | false, false => none

/-- The exact value as a decimal. -/
def exact (interval : RoundingInterval) : Decimal :=
  if 0 ≤ interval.exponent then
    ⟨interval.mantissa * Nat.pow 2 interval.exponent.toNat, 0⟩
  else
    ⟨interval.mantissa * Nat.pow 5 (-interval.exponent).toNat, interval.exponent⟩

/-- Seventeen digits are enough for every number of the double format. -/
def maxDigits : Nat := 17

end RoundingInterval

namespace Decimal

/-- Move trailing zeros of the digits into the exponent. -/
def strip : (fuel : Nat) → Decimal → Decimal
  | 0, decimal => decimal
  | fuel + 1, decimal =>
      if decimal.digits ≠ 0 ∧ decimal.digits % 10 = 0 then
        strip fuel ⟨decimal.digits / 10, decimal.exponent + 1⟩
      else decimal

/-- The shortest decimal that rounds to a positive number. -/
def shortest (interval : RoundingInterval) : Decimal :=
  let magnitude := interval.magnitude
  let grids := (List.range RoundingInterval.maxDigits).map fun (count : Nat) =>
    magnitude - 1 - count
  let found := (grids.findSome? interval.onGrid).getD interval.exact
  found.strip (Nat.toDigits 10 found.digits).length

end Decimal

end ClassForge
