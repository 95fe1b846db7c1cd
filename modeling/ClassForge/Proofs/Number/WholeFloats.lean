import ClassForge.Number.Binary
import Mathlib.Data.Nat.Bitwise
import Mathlib.Data.Rat.Floor

/-!
# Whole numbers as floats

A finite float stands for a rational number.  A whole number is a float when it has at most 53 bits
before the zeros that it ends with and is not too large; the whole part of a finite float is such a
number.  The nearest float of a whole number that is a float keeps its bits, so these numbers are
ordered as floats the way they are as integers.
-/

namespace ClassForge

namespace BinaryFormat

/-! ## Bits of whole numbers -/

/-- Bit pattern of the double that is nearest to a natural number. -/
def nearestDouble (number : Nat) : Nat :=
  double.encode false number 0

/-- The first 53 bits of a number, rounded. -/
def significand (number : Nat) : Nat :=
  if number.log2 ≤ 52 then number * 2 ^ (52 - number.log2)
  else roundShift number (number.log2 - 52)

theorem nearestDouble_eq {number : Nat} (positive : number ≠ 0) :
    nearestDouble number =
      min ((number.log2 + 1022) * 2 ^ 52 + significand number) (2047 * 2 ^ 52) := by
  have ideal : (0 : Int) + (number.log2 + 1 : Nat) - double.precision = number.log2 - 52 := by
    change (0 : Int) + (number.log2 + 1 : Nat) - (53 : Nat) = _
    omega
  have scale : max ((number.log2 : Int) - 52) double.minExponent = number.log2 - 52 :=
    Int.max_eq_left (by change (-1074 : Int) ≤ _; omega)
  have field : ((number.log2 : Int) - 52 - double.minExponent).toNat = number.log2 + 1022 := by
    change ((number.log2 : Int) - 52 - (-1074)).toNat = _
    omega
  unfold nearestDouble encode significand
  rw [if_neg positive]
  dsimp only
  rw [ideal, scale, field, if_neg Bool.false_ne_true, Nat.zero_add]
  have whole : ((number.log2 : Int) - 52 ≤ 0) ↔ number.log2 ≤ 52 := by omega
  have up : ((0 : Int) - (number.log2 - 52)).toNat = 52 - number.log2 := by omega
  have down : ((number.log2 : Int) - 52 - 0).toNat = number.log2 - 52 := by omega
  rw [up, down, if_congr whole rfl rfl]
  rfl

/-- A whole number that is a float. -/
def IsExact (number : Nat) : Prop :=
  ∃ mantissa shift, mantissa < 2 ^ 53 ∧ shift ≤ 971 ∧ number = mantissa * 2 ^ shift

namespace IsExact

variable {number : Nat}

variable (exact : IsExact number)
include exact

/-- A whole number that is a float has at most 53 bits before the zeros that it ends with. -/
theorem exists_shift (positive : number ≠ 0) :
    ∃ shift, shift ≤ 971 ∧ number.log2 < 53 + shift ∧ 2 ^ shift ∣ number := by
  obtain ⟨mantissa, shift, few, small, isProduct⟩ := exact
  refine ⟨shift, small, (Nat.log2_lt positive).mpr ?_, isProduct ▸ Nat.dvd_mul_left _ _⟩
  rw [isProduct, Nat.pow_add]
  exact Nat.mul_lt_mul_of_pos_right few (Nat.two_pow_pos shift)

theorem dvd (positive : number ≠ 0) :
    2 ^ (number.log2 - 52) ∣ number := by
  obtain ⟨shift, -, short, isMultiple⟩ := exact.exists_shift positive
  exact (Nat.pow_dvd_pow 2 (by omega)).trans isMultiple

/-- Its significand is the number itself, shifted to 53 bits. -/
theorem significand_mul (positive : number ≠ 0) :
    significand number * 2 ^ (number.log2 - 52) = number * 2 ^ (52 - number.log2) := by
  unfold significand
  split
  · next short => rw [Nat.sub_eq_zero_of_le short, Nat.pow_zero, Nat.mul_one]
  · next long =>
      have isMultiple := exact.dvd positive
      have rounded : roundShift number (number.log2 - 52) = number / 2 ^ (number.log2 - 52) := by
        have rest : number % Nat.pow 2 (number.log2 - 52) = 0 := Nat.mod_eq_zero_of_dvd isMultiple
        have room : ¬ 2 * 0 > Nat.pow 2 (number.log2 - 52) := by omega
        have notHalf : (2 * 0 == Nat.pow 2 (number.log2 - 52)) = false :=
          beq_false_of_ne (Nat.ne_of_lt (Nat.two_pow_pos _))
        unfold roundShift
        dsimp only
        rw [rest, notHalf, decide_eq_false room]
        rfl
      rw [rounded, Nat.div_mul_cancel isMultiple,
        Nat.sub_eq_zero_of_le (by omega : 52 ≤ number.log2), Nat.pow_zero, Nat.mul_one]

theorem le_significand (positive : number ≠ 0) :
    2 ^ 52 ≤ significand number := by
  refine Nat.le_of_mul_le_mul_right ?_ (Nat.two_pow_pos (number.log2 - 52))
  rw [exact.significand_mul positive]
  calc 2 ^ 52 * 2 ^ (number.log2 - 52)
      = 2 ^ number.log2 * 2 ^ (52 - number.log2) := by
        rw [← Nat.pow_add, ← Nat.pow_add]
        exact congrArg (2 ^ ·) (by omega)
    _ ≤ number * 2 ^ (52 - number.log2) :=
        Nat.mul_le_mul_right _ (Nat.log2_self_le positive)

theorem significand_lt (positive : number ≠ 0) :
    significand number < 2 ^ 53 := by
  refine Nat.lt_of_mul_lt_mul_right (a := 2 ^ (number.log2 - 52)) ?_
  rw [exact.significand_mul positive]
  calc number * 2 ^ (52 - number.log2)
      < 2 ^ (number.log2 + 1) * 2 ^ (52 - number.log2) :=
        Nat.mul_lt_mul_of_pos_right Nat.lt_log2_self (Nat.two_pow_pos _)
    _ = 2 ^ 53 * 2 ^ (number.log2 - 52) := by
        rw [← Nat.pow_add, ← Nat.pow_add]
        exact congrArg (2 ^ ·) (by omega)

theorem nearestDouble_eq (positive : number ≠ 0) :
    nearestDouble number = (number.log2 + 1022) * 2 ^ 52 + significand number := by
  obtain ⟨shift, small, short, -⟩ := exact.exists_shift positive
  have := exact.significand_lt positive
  rw [BinaryFormat.nearestDouble_eq positive, Nat.min_eq_left (by omega)]

end IsExact

theorem nearestDouble_zero : nearestDouble 0 = 0 :=
  rfl

theorem nearestDouble_le (number : Nat) : nearestDouble number ≤ 2047 * 2 ^ 52 := by
  by_cases zero : number = 0
  · rw [zero, nearestDouble_zero]
    exact Nat.zero_le _
  · rw [nearestDouble_eq zero]
    exact Nat.min_le_right _ _

/-- Whole numbers that are floats keep their order. -/
theorem nearestDouble_lt {lesser greater : Nat} (isLesser : IsExact lesser)
    (isGreater : IsExact greater) (less : lesser < greater) :
    nearestDouble lesser < nearestDouble greater := by
  have positive : greater ≠ 0 := Nat.ne_of_gt (Nat.zero_lt_of_lt less)
  have high := isGreater.le_significand positive
  rw [isGreater.nearestDouble_eq positive]
  by_cases zero : lesser = 0
  · rw [zero, nearestDouble_zero]
    omega
  rw [isLesser.nearestDouble_eq zero]
  have low := isLesser.significand_lt zero
  have grows : lesser.log2 ≤ greater.log2 :=
    (Nat.le_log2 positive).mpr ((Nat.log2_self_le zero).trans less.le)
  rcases Nat.lt_or_eq_of_le grows with shorter | same
  · omega
  · have scaled : significand lesser * 2 ^ (greater.log2 - 52) <
        significand greater * 2 ^ (greater.log2 - 52) := by
      rw [isGreater.significand_mul positive, ← same, isLesser.significand_mul zero]
      exact Nat.mul_lt_mul_of_pos_right less (Nat.two_pow_pos _)
    have := Nat.lt_of_mul_lt_mul_right scaled
    omega

theorem encode_eq (negative : Bool) (number : Nat) :
    double.encode negative number 0 = (if negative then 2 ^ 63 else 0) + nearestDouble number := by
  have sign : double.signBit = 2 ^ 63 := rfl
  unfold nearestDouble encode
  rw [sign]
  dsimp only
  split
  · rfl
  · rw [if_neg Bool.false_ne_true, Nat.zero_add]

end BinaryFormat

namespace Binary64

open BinaryFormat

/-! ## Order -/

theorem toNat_low (bits : UInt64) :
    (bits &&& 0x7fffffffffffffff).toNat = bits.toNat % 2 ^ 63 := by
  rw [UInt64.toNat_and]
  exact Nat.and_two_pow_sub_one_eq_mod _ 63

theorem high_eq_zero_iff (bits : UInt64) :
    bits &&& 0x8000000000000000 = 0 ↔ bits.toNat < 2 ^ 63 := by
  have bound : bits.toNat < 2 ^ 64 := bits.toNat_lt
  rw [← UInt64.toNat_inj, UInt64.toNat_and, Nat.and_comm]
  change 2 ^ 63 &&& bits.toNat = 0 ↔ _
  rw [Nat.two_pow_and, Nat.mul_eq_zero, or_iff_right (Nat.two_pow_pos 63).ne', Bool.toNat_eq_zero,
    Nat.testBit_eq_decide_div_mod_eq, decide_eq_false_iff_not]
  omega

theorem toNat_ofInt (value : Int) :
    (ofInt value).bits.toNat = (if value < 0 then 2 ^ 63 else 0) + nearestDouble value.natAbs := by
  have small := nearestDouble_le value.natAbs
  unfold ofInt nearest
  rw [encode_eq, Nat.toUInt64_eq, UInt64.toNat_ofNat_of_lt']
  · simp only [decide_eq_true_eq]
  · simp only [decide_eq_true_eq]
    change _ < 2 ^ 64
    split <;> omega

/-- The nearest float of an integer is ordered by its magnitude, on the side of its sign. -/
theorem rank_ofInt (value : Int) :
    (ofInt value).rank =
      if value < 0 then -(nearestDouble value.natAbs : Int) else nearestDouble value.natAbs := by
  have small := nearestDouble_le value.natAbs
  have isBits := toNat_ofInt value
  unfold rank
  simp only [toNat_low, high_eq_zero_iff, isBits]
  by_cases negative : value < 0
  · simp only [if_pos negative]
    rw [if_neg (by omega)]
    omega
  · simp only [if_neg negative]
    rw [if_pos (by omega)]
    omega

theorem isNaN_ofInt (value : Int) : (ofInt value).isNaN = false := by
  have small := nearestDouble_le value.natAbs
  unfold isNaN
  refine decide_eq_false ?_
  rw [gt_iff_lt, UInt64.lt_iff_toNat_lt, toNat_low, toNat_ofInt, Nat.not_lt]
  refine Nat.le_trans (m := nearestDouble value.natAbs) ?_ small
  split <;> omega

section Order

variable {left right : Int}

theorem rank_ofInt_lt (isLeft : IsExact left.natAbs) (isRight : IsExact right.natAbs)
    (less : left < right) : (ofInt left).rank < (ofInt right).rank := by
  rw [rank_ofInt, rank_ofInt]
  rcases Int.lt_or_le left 0 with negative | nonneg
  · rw [if_pos negative]
    rcases Int.lt_or_le right 0 with alsoNegative | nonneg
    · have := nearestDouble_lt isRight isLeft (by omega)
      rw [if_pos alsoNegative]
      omega
    · have := nearestDouble_lt ⟨0, 0, by decide, by decide, rfl⟩ isLeft (by omega : 0 < left.natAbs)
      rw [if_neg (by omega)]
      omega
  · have := nearestDouble_lt isLeft isRight (by omega)
    rw [if_neg (by omega), if_neg (by omega)]
    omega

/-- Integers that are floats are ordered as floats the way they are as integers. -/
theorem lt_ofInt (isLeft : IsExact left.natAbs) (isRight : IsExact right.natAbs) :
    (ofInt left).lt (ofInt right) = decide (left < right) := by
  unfold lt
  rw [isNaN_ofInt, isNaN_ofInt]
  change decide _ = _
  rw [decide_eq_decide]
  refine ⟨fun less => ?_, rank_ofInt_lt isLeft isRight⟩
  by_contra notLess
  rcases Int.lt_or_eq_of_le (Int.not_lt.mp notLess) with greater | rfl
  · have := rank_ofInt_lt isRight isLeft greater
    omega
  · exact Int.lt_irrefl _ less

end Order

end Binary64

/-! ## Whole parts -/

/-- The whole part of a number, rounding toward zero. -/
def wholePart (number : ℚ) : Int :=
  if 0 ≤ number then ⌊number⌋ else ⌈number⌉

theorem wholePart_neg (number : ℚ) : wholePart (-number) = -wholePart number := by
  unfold wholePart
  rcases lt_trichotomy number 0 with negative | rfl | positive
  · rw [if_pos (neg_nonneg.mpr negative.le), if_neg negative.not_ge, Int.floor_neg]
  · simp
  · rw [if_neg (by simpa using positive), if_pos positive.le, Int.ceil_neg]

namespace BinaryFormat

/-- The whole part of `mantissa * 2 ^ exponent`. -/
def scaled (mantissa : Nat) (exponent : Int) : Nat :=
  if 0 ≤ exponent then mantissa * 2 ^ exponent.toNat else mantissa / 2 ^ (-exponent).toNat

theorem wholePart_scaled (mantissa : Nat) (exponent : Int) :
    wholePart (mantissa * 2 ^ exponent) = scaled mantissa exponent := by
  have isNonneg : (0 : ℚ) ≤ mantissa * 2 ^ exponent :=
    mul_nonneg (Nat.cast_nonneg _) (zpow_nonneg (by norm_num) _)
  unfold wholePart scaled
  rw [if_pos isNonneg]
  split
  · next up =>
      obtain ⟨shift, rfl⟩ := Int.eq_ofNat_of_zero_le up
      have same : (mantissa * 2 ^ (shift : Int) : ℚ) = (mantissa * 2 ^ shift : Nat) := by
        rw [zpow_natCast]
        norm_cast
      rw [same, Int.floor_natCast]
      rfl
  · next down =>
      obtain ⟨shift, rfl⟩ := Int.exists_eq_neg_ofNat (Int.le_of_lt (Int.not_le.mp down))
      have same : (mantissa * 2 ^ (-shift : Int) : ℚ) = mantissa / (2 ^ shift : Nat) := by
        rw [zpow_neg, zpow_natCast, div_eq_mul_inv]
        norm_cast
      rw [same, Rat.floor_natCast_div_natCast, Int.neg_neg, Int.toNat_natCast]
      rfl

/-- The fields of a finite float are in range. -/
theorem decode_finite {bits : Nat} {negative : Bool} {mantissa : Nat} {exponent : Int}
    (isFinite : double.decode bits = .finite negative mantissa exponent) :
    mantissa < 2 ^ 53 ∧ exponent ≤ 971 := by
  have limit : double.infinityBits = 2047 * 2 ^ 52 := rfl
  have least : double.minExponent = -1074 := rfl
  have room : Nat.pow 2 double.fractionBits = 2 ^ 52 := rfl
  unfold decode at isFinite
  dsimp only at isFinite
  rw [limit, least, room] at isFinite
  generalize bits % double.signBit = magnitude at isFinite
  split at isFinite
  · cases isFinite
  split at isFinite
  · cases isFinite
  split at isFinite
  · cases isFinite
    omega
  · cases isFinite
    omega

theorem isExact_scaled {mantissa : Nat} {exponent : Int} (few : mantissa < 2 ^ 53)
    (small : exponent ≤ 971) : IsExact (scaled mantissa exponent) := by
  unfold scaled
  split
  · exact ⟨mantissa, exponent.toNat, few, by omega, rfl⟩
  · exact ⟨mantissa / 2 ^ (-exponent).toNat, 0, (Nat.div_le_self _ _).trans_lt few, by decide,
      (Nat.mul_one _).symm⟩

end BinaryFormat

namespace Binary64

open BinaryFormat

/-- The number that a float stands for, if it is finite. -/
def value? (x : Binary64) : Option ℚ :=
  match x.datum with
  | .finite negative mantissa exponent =>
      some ((if negative then -1 else 1) * (mantissa * 2 ^ exponent))
  | _ => none

/-- The whole part of a finite float is the whole part of its number, and is a float itself. -/
theorem whole_eq {x : Binary64} {number : ℚ} (isNumber : x.value? = some number) :
    x.whole = .int (wholePart number) ∧ IsExact (wholePart number).natAbs := by
  unfold value? at isNumber
  split at isNumber
  · next negative mantissa exponent isFinite =>
      cases isNumber
      obtain ⟨few, small⟩ := decode_finite isFinite
      have exact := isExact_scaled few small
      have isWhole : x.whole = .int
          (if negative then -(scaled mantissa exponent : Int) else scaled mantissa exponent) := by
        unfold whole
        rw [isFinite]
        rfl
      have isPart := wholePart_scaled mantissa exponent
      cases negative with
      | true =>
          rw [if_pos rfl, neg_one_mul, wholePart_neg, isPart, Int.natAbs_neg, Int.natAbs_natCast]
          exact ⟨isWhole, exact⟩
      | false =>
          rw [if_neg Bool.false_ne_true, one_mul, isPart, Int.natAbs_natCast]
          exact ⟨isWhole, exact⟩
  · cases isNumber

end Binary64

end ClassForge
