/-!
# Binary floating point numbers

A binary floating point format is given by the widths of its two fields.  This
module reads a bit pattern as the number it stands for, rounds `m * 2 ^ q` to
the nearest number of a format (ties to even), and puts the two formats of the
machine on top: `Binary64` for values and `Binary32` for short constants.  Both
are bit patterns, so equality is decidable and keeps apart what equality of
numbers would not: the two zeros, and one not-a-number from another.

Classification, comparison, remainder and the conversions are computed exactly
from the bit patterns.  The rounded operations and the elementary functions are
those of the floating point unit.
-/

namespace ClassForge

/-- Field widths of a binary floating point format. -/
structure BinaryFormat where
  fractionBits : Nat
  exponentBits : Nat
  deriving DecidableEq, Repr

/-- What a bit pattern stands for. -/
inductive BinaryDatum where
  | nan
  | infinite (negative : Bool)
  /-- The number `± mantissa * 2 ^ exponent`. -/
  | finite (negative : Bool) (mantissa : Nat) (exponent : Int)
  deriving DecidableEq, Repr

namespace BinaryFormat

/-- The format of 32 bits. -/
def single : BinaryFormat := ⟨23, 8⟩
/-- The format of 64 bits. -/
def double : BinaryFormat := ⟨52, 11⟩

/-- Bits of a full mantissa, the hidden bit included. -/
def precision (format : BinaryFormat) : Nat :=
  format.fractionBits + 1

/-- Exponent of the least positive number of the format. -/
def minExponent (format : BinaryFormat) : Int :=
  2 - (Nat.pow 2 (format.exponentBits - 1) : Nat) - format.fractionBits

/-- Bit pattern of positive infinity. -/
def infinityBits (format : BinaryFormat) : Nat :=
  (Nat.pow 2 format.exponentBits - 1) * Nat.pow 2 format.fractionBits

/-- The bit that holds the sign. -/
def signBit (format : BinaryFormat) : Nat :=
  Nat.pow 2 (format.exponentBits + format.fractionBits)

/-- Read a bit pattern. -/
def decode (format : BinaryFormat) (bits : Nat) : BinaryDatum :=
  let negative := bits / format.signBit % 2 == 1
  let magnitude := bits % format.signBit
  let field := magnitude / Nat.pow 2 format.fractionBits
  let fraction := magnitude % Nat.pow 2 format.fractionBits
  if magnitude > format.infinityBits then .nan
  else if magnitude = format.infinityBits then .infinite negative
  else if field = 0 then .finite negative fraction format.minExponent
  else
    .finite negative (Nat.pow 2 format.fractionBits + fraction)
      (format.minExponent + field - 1)

/-- Divide by a power of two and round to the nearest integer, ties to even. -/
def roundShift (mantissa shift : Nat) : Nat :=
  let unit := Nat.pow 2 shift
  let quotient := mantissa / unit
  let doubled := 2 * (mantissa % unit)
  if doubled > unit || (doubled == unit && quotient % 2 == 1) then
    quotient + 1
  else quotient

/-- Bit pattern of the number of the format that is nearest to
`± mantissa * 2 ^ exponent`, ties to even; infinity when it is too large.

A rounded mantissa that reaches the next power of two carries into the exponent
field by the addition itself. -/
def encode (format : BinaryFormat) (negative : Bool) (mantissa : Nat)
    (exponent : Int) : Nat :=
  let sign := if negative then format.signBit else 0
  if mantissa = 0 then sign
  else
    let ideal := exponent + (mantissa.log2 + 1 : Nat) - format.precision
    let scale := max ideal format.minExponent
    let rounded :=
      if scale ≤ exponent then mantissa * Nat.pow 2 (exponent - scale).toNat
      else roundShift mantissa (scale - exponent).toNat
    let field := (scale - format.minExponent).toNat
    let magnitude := field * Nat.pow 2 format.fractionBits + rounded
    sign + min magnitude format.infinityBits

end BinaryFormat

/-- A number of the double format, as its bit pattern. -/
structure Binary64 where
  bits : UInt64
  deriving DecidableEq, Repr

/-- A number of the single format, as its bit pattern. -/
structure Binary32 where
  bits : UInt32
  deriving DecidableEq, Repr

/-- The integer part of a number, where there is one. -/
inductive Whole where
  | nan
  | below
  | int (value : Int)
  | above
  deriving DecidableEq, Repr

namespace Binary32

/-- The number that the bits stand for. -/
def datum (x : Binary32) : BinaryDatum :=
  BinaryFormat.single.decode x.bits.toNat

/-- The nearest number to `± mantissa * 2 ^ exponent`. -/
def nearest (negative : Bool) (mantissa : Nat) (exponent : Int) : Binary32 :=
  ⟨(BinaryFormat.single.encode negative mantissa exponent).toUInt32⟩

/-- The nearest number to an integer. -/
def ofInt (value : Int) : Binary32 :=
  nearest (value < 0) value.natAbs 0

/-- Widen to the double format; no finite number changes. -/
def toBinary64 (x : Binary32) : Binary64 :=
  match x.datum with
  | .nan =>
      let sign : UInt64 := (x.bits &&& 0x80000000).toUInt64 <<< 32
      let payload : UInt64 := (x.bits &&& 0x7fffff).toUInt64 <<< 29
      ⟨sign ||| payload ||| (0x7ff8000000000000 : UInt64)⟩
  | .infinite negative =>
      ⟨if negative then 0xfff0000000000000 else 0x7ff0000000000000⟩
  | .finite negative mantissa exponent =>
      ⟨(BinaryFormat.double.encode negative mantissa exponent).toUInt64⟩

end Binary32

namespace Binary64

/-- The number that the bits stand for. -/
def datum (x : Binary64) : BinaryDatum :=
  BinaryFormat.double.decode x.bits.toNat

/-- Positive zero. -/
def zero : Binary64 := ⟨0⟩

/-- The result of an operation that has none. -/
def invalid : Binary64 := ⟨0xfff8000000000000⟩

/-- Whether the bits stand for no number. -/
def isNaN (x : Binary64) : Bool :=
  x.bits &&& 0x7fffffffffffffff > 0x7ff0000000000000

/-- The same not-a-number with the quiet bit set. -/
def quiet (x : Binary64) : Binary64 :=
  ⟨x.bits ||| 0x0008000000000000⟩

/-- The nearest number to `± mantissa * 2 ^ exponent`. -/
def nearest (negative : Bool) (mantissa : Nat) (exponent : Int) : Binary64 :=
  ⟨(BinaryFormat.double.encode negative mantissa exponent).toUInt64⟩

/-- The nearest number to an integer. -/
def ofInt (value : Int) : Binary64 :=
  nearest (value < 0) value.natAbs 0

/-- Round to the single format. -/
def toBinary32 (x : Binary64) : Binary32 :=
  match x.datum with
  | .nan =>
      let sign : UInt32 := (x.bits >>> 32).toUInt32 &&& 0x80000000
      let payload : UInt32 := (x.bits >>> 29).toUInt32 &&& 0x3fffff
      ⟨sign ||| payload ||| (0x7fc00000 : UInt32)⟩
  | .infinite negative => ⟨if negative then 0xff800000 else 0x7f800000⟩
  | .finite negative mantissa exponent =>
      Binary32.nearest negative mantissa exponent

/-- Round to the single format and widen again. -/
def roundSingle (x : Binary64) : Binary64 :=
  x.toBinary32.toBinary64

/-- The integer part, rounding toward zero. -/
def whole (x : Binary64) : Whole :=
  match x.datum with
  | .nan => .nan
  | .infinite true => .below
  | .infinite false => .above
  | .finite negative mantissa exponent =>
      let magnitude : Nat :=
        if 0 ≤ exponent then mantissa * Nat.pow 2 exponent.toNat
        else mantissa / Nat.pow 2 (-exponent).toNat
      .int (if negative then -magnitude else magnitude)

/-! ## Order -/

/-- Position among the numbers; the two zeros share one. -/
def rank (x : Binary64) : Int :=
  let magnitude : Int := (x.bits &&& 0x7fffffffffffffff).toNat
  if x.bits &&& 0x8000000000000000 = 0 then magnitude else -magnitude

/-- Less than, which no comparison with a NaN is. -/
def lt (x y : Binary64) : Bool :=
  !x.isNaN && !y.isNaN && x.rank < y.rank

/-- Equality of numbers, which zeros of either sign satisfy. -/
def eq (x y : Binary64) : Bool :=
  !x.isNaN && !y.isNaN && x.rank == y.rank

/-! ## Operations -/

/-- The number with the other sign. -/
def neg (x : Binary64) : Binary64 :=
  ⟨x.bits ^^^ 0x8000000000000000⟩

/-- The number without its sign. -/
def abs (x : Binary64) : Binary64 :=
  ⟨x.bits &&& 0x7fffffffffffffff⟩

/-- Apply a function of the floating point unit.  A not-a-number passes through
quieted, and an argument outside the domain gives `invalid`. -/
def lift (f : Float → Float) (x : Binary64) : Binary64 :=
  let result := f (Float.ofBits x.bits)
  if x.isNaN then x.quiet
  else if result.isNaN then invalid
  else ⟨result.toBits⟩

/-- Apply an operation of the floating point unit.  Of two not-a-numbers the
left one passes through. -/
def lift₂ (f : Float → Float → Float) (x y : Binary64) : Binary64 :=
  let result := f (Float.ofBits x.bits) (Float.ofBits y.bits)
  if result.isNaN then
    if x.isNaN then x.quiet else if y.isNaN then y.quiet else invalid
  else ⟨result.toBits⟩

/-- The rounded sum. -/
def add : Binary64 → Binary64 → Binary64 := lift₂ (· + ·)
/-- The rounded difference. -/
def sub : Binary64 → Binary64 → Binary64 := lift₂ (· - ·)
/-- The rounded product. -/
def mul : Binary64 → Binary64 → Binary64 := lift₂ (· * ·)
/-- The rounded quotient. -/
def div : Binary64 → Binary64 → Binary64 := lift₂ (· / ·)

/-- The remainder of truncated division, which is exact and has the sign of the
dividend. -/
def rem (x y : Binary64) : Binary64 :=
  match x.datum, y.datum with
  | .nan, _ => x.quiet
  | _, .nan => y.quiet
  | .infinite _, _ => invalid
  | .finite .., .infinite _ => x
  | .finite negative mantissa exponent, .finite _ divisor scale =>
      if divisor = 0 then invalid
      else
        let common := min exponent scale
        let dividend := mantissa * Nat.pow 2 (exponent - common).toNat
        let divisor := divisor * Nat.pow 2 (scale - common).toNat
        nearest negative (dividend % divisor) common

/-- The lesser number; a not-a-number gives way to the other argument. -/
def min (x y : Binary64) : Binary64 :=
  if x.isNaN then y else if y.lt x then y else x

/-- The greater number; a not-a-number gives way to the other argument. -/
def max (x y : Binary64) : Binary64 :=
  if x.isNaN then y else if x.lt y then y else x

end Binary64

end ClassForge
