import ClassForge.Proofs.Number.IntegerValues
import ClassForge.Typing.Operators
import Mathlib.Data.Int.Bitwise

/-!
# Arithmetic on words

The machine computes on words of 32 or of 64 bits.  Which integer of a type a word stands for
depends on whether the type is signed, and so does the operation that computes the right word.
-/

namespace ClassForge

/-! ## Words of integers -/

namespace Word

variable {width : Nat}

/-- The bits of the word of an integer are those of the integer. -/
theorem getLsbD_ofInt (value : Int) (position : Nat) :
    (BitVec.ofInt width value).getLsbD position =
      (decide (position < width) && value.testBit position) := by
  cases value with
  | ofNat value => rw [Int.ofNat_eq_natCast, BitVec.ofInt_natCast, BitVec.getLsbD_ofNat]; rfl
  | negSucc value =>
      rw [BitVec.ofInt_negSucc_eq_not_ofNat, BitVec.getLsbD_not, BitVec.getLsbD_ofNat]
      cases decide (position < width) <;> rfl

theorem ofInt_land (left right : Int) :
    BitVec.ofInt width (left.land right) = BitVec.ofInt width left &&& BitVec.ofInt width right := by
  refine BitVec.eq_of_getLsbD_eq fun position within => ?_
  rw [BitVec.getLsbD_and, getLsbD_ofInt, getLsbD_ofInt, getLsbD_ofInt, Int.testBit_land,
    decide_eq_true within]
  rfl

theorem ofInt_lor (left right : Int) :
    BitVec.ofInt width (left.lor right) = BitVec.ofInt width left ||| BitVec.ofInt width right := by
  refine BitVec.eq_of_getLsbD_eq fun position within => ?_
  rw [BitVec.getLsbD_or, getLsbD_ofInt, getLsbD_ofInt, getLsbD_ofInt, Int.testBit_lor,
    decide_eq_true within]
  rfl

theorem ofInt_xor (left right : Int) :
    BitVec.ofInt width (left.xor right) = BitVec.ofInt width left ^^^ BitVec.ofInt width right := by
  refine BitVec.eq_of_getLsbD_eq fun position within => ?_
  rw [BitVec.getLsbD_xor, getLsbD_ofInt, getLsbD_ofInt, getLsbD_ofInt, Int.testBit_lxor,
    decide_eq_true within]
  rfl

theorem ofInt_sub (left right : Int) :
    BitVec.ofInt width (left - right) = BitVec.ofInt width left - BitVec.ofInt width right := by
  rw [Int.sub_eq_add_neg, BitVec.ofInt_add, BitVec.ofInt_neg, BitVec.sub_eq_add_neg]

/-- The complement of an integer is one less than its opposite. -/
theorem ofInt_complement (value : Int) :
    BitVec.ofInt width (-value - 1) = ~~~BitVec.ofInt width value := by
  rw [ofInt_sub, BitVec.ofInt_neg, BitVec.neg_eq_not_add]
  exact BitVec.add_sub_cancel _ _

/-- A shift to the left multiplies. -/
theorem ofInt_mul_pow (value : Int) (count : Nat) :
    BitVec.ofInt width (value * (2 ^ count : Nat)) = BitVec.ofInt width value <<< count := by
  rw [BitVec.ofInt_mul, BitVec.ofInt_natCast, BitVec.shiftLeft_eq_mul_twoPow]
  congr 1
  refine BitVec.eq_of_toNat_eq ?_
  rw [BitVec.toNat_ofNat, BitVec.toNat_twoPow]

/-- Integers have the same word if they have the same bits within its width. -/
theorem ofInt_congr {left right : Int}
    (same : left % (2 ^ width : Nat) = right % (2 ^ width : Nat)) :
    BitVec.ofInt width left = BitVec.ofInt width right := by
  refine BitVec.eq_of_toNat_eq ?_
  rw [BitVec.toNat_ofInt, BitVec.toNat_ofInt, same]

/-- The word of an integer that is not negative and not too large. -/
theorem toNat_ofInt {value : Int} (least : 0 ≤ value) (greatest : value < (2 ^ width : Nat)) :
    ((BitVec.ofInt width value).toNat : Int) = value := by
  rw [BitVec.toNat_ofInt, Int.emod_eq_of_lt least greatest, Int.toNat_of_nonneg least]

theorem toInt_emod (word : BitVec width) :
    word.toInt % (2 ^ width : Nat) = word.toNat := by
  rw [BitVec.toInt_eq_toNat_bmod, Int.bmod_emod]
  exact Int.emod_eq_of_lt (Int.natCast_nonneg _) (Int.ofNat_lt.mpr word.isLt)

/-- A word that stands for an integer that is not negative is this integer. -/
theorem toNat_of_toInt_nonneg {word : BitVec width} (least : 0 ≤ word.toInt) :
    word.toNat = word.toInt.toNat := by
  have reduced := toInt_emod word
  have below : word.toInt < (2 ^ width : Nat) := by
    have := @BitVec.toInt_lt width word
    have : ((2 ^ (width - 1) : Nat) : Int) ≤ (2 ^ width : Nat) :=
      Int.ofNat_le.mpr (Nat.pow_le_pow_right (by decide) (Nat.sub_le _ _))
    rw [Int.natCast_pow 2 (width - 1)] at this
    exact Int.lt_of_lt_of_le ‹_› this
  rw [Int.emod_eq_of_lt least below] at reduced
  omega

end Word

/-! ## Arithmetic -/

namespace Arith

section Words

variable {width : Nat}

/-- The amount of a shift: what the width of the word leaves of an operand. -/
def shiftAmount (amount : BitVec width) : Nat :=
  (amount.toInt % width).toNat

/-- Arithmetic on words of any width. -/
def word (op : ArithOp) (left right : BitVec width) : Except ArithError (BitVec width) :=
  match op with
  | .add => .ok (left + right)
  | .sub => .ok (left - right)
  | .mul => .ok (left * right)
  | .div => signed (left.sdiv right)
  | .rem => signed (left.srem right)
  | .divUnsigned => unsigned (left / right)
  | .remUnsigned => unsigned (left % right)
  | .and => .ok (left &&& right)
  | .or => .ok (left ||| right)
  | .xor => .ok (left ^^^ right)
  | .shl => .ok (left <<< shiftAmount right)
  | .shr => .ok (left.sshiftRight (shiftAmount right))
  | .shrUnsigned => .ok (left >>> shiftAmount right)
where
  unsigned (result : BitVec width) : Except ArithError (BitVec width) :=
    if right = 0 then .error .divideByZero else .ok result
  signed (result : BitVec width) : Except ArithError (BitVec width) :=
    if right = 0 then .error .divideByZero
    else if left = BitVec.intMin width ∧ right = -1 then .error .overflow
    else .ok result

end Words

/-- The remainder by the width, as the signed shifts of the machine take it. -/
theorem toNat_smod {width : Nat} {amount modulus : BitVec width} (isWidth : modulus.toInt = width)
    (filled : 0 < width) : (amount.smod modulus).toNat = shiftAmount amount := by
  have remainder : (amount.smod modulus).toInt = amount.toInt % width := by
    rw [BitVec.toInt_smod, isWidth, Int.fmod_eq_emod_of_nonneg _ (Int.natCast_nonneg _)]
  have least : 0 ≤ amount.toInt % (width : Int) :=
    Int.emod_nonneg _ (Int.natCast_ne_zero.mpr (Nat.ne_of_gt filled))
  rw [Word.toNat_of_toInt_nonneg (remainder ▸ least), remainder]
  rfl

/-- The remainder by the width, as the unsigned shifts of the machine take it. -/
theorem toNat_mod {width : Nat} {amount : BitVec width} (divides : width ∣ 2 ^ width) :
    amount.toNat % width = shiftAmount amount := by
  unfold shiftAmount
  rw [← Int.emod_emod_of_dvd amount.toInt (Int.natCast_dvd_natCast.mpr divides), Word.toInt_emod,
    ← Int.natCast_emod, Int.toNat_natCast]

/-- Arithmetic on 32-bit integers is arithmetic on their words. -/
theorem narrow_eq_word (op : ArithOp) (left right : Int32) :
    narrow op left right = (word op left.toBitVec right.toBitVec).map Int32.ofBitVec := by
  have isZero : (right = 0) = (right.toBitVec = 0) := by
    rw [← Int32.toBitVec_inj]
    rfl
  have isLeast : (left = Int32.minValue ∧ right = -1) =
      (left.toBitVec = BitVec.intMin 32 ∧ right.toBitVec = -1) := by
    rw [← Int32.toBitVec_inj, ← @Int32.toBitVec_inj right]
    rfl
  cases op with
  | div | rem =>
      simp only [narrow, word, word.signed, isZero, isLeast]
      split
      · rfl
      · split <;> rfl
  | divUnsigned | remUnsigned =>
      simp only [narrow, word, word.unsigned, isZero]
      split <;> rfl
  | shl =>
      have amount := @toNat_smod 32 right.toBitVec 32 rfl (by decide)
      rw [word, ← amount]
      rfl
  | shr =>
      have amount := @toNat_smod 32 right.toBitVec 32 rfl (by decide)
      rw [word, ← amount]
      rfl
  | shrUnsigned =>
      have amount := @toNat_mod 32 right.toBitVec (by decide)
      rw [word, ← amount]
      rfl
  | _ => rfl

/-- Arithmetic on 64-bit integers is arithmetic on their words. -/
theorem wide_eq_word (op : ArithOp) (left right : Int64) :
    wide op left right = (word op left.toBitVec right.toBitVec).map Int64.ofBitVec := by
  have isZero : (right = 0) = (right.toBitVec = 0) := by
    rw [← Int64.toBitVec_inj]
    rfl
  have isLeast : (left = Int64.minValue ∧ right = -1) =
      (left.toBitVec = BitVec.intMin 64 ∧ right.toBitVec = -1) := by
    rw [← Int64.toBitVec_inj, ← @Int64.toBitVec_inj right]
    rfl
  cases op with
  | div | rem =>
      simp only [wide, word, word.signed, isZero, isLeast]
      split
      · rfl
      · split <;> rfl
  | divUnsigned | remUnsigned =>
      simp only [wide, word, word.unsigned, isZero]
      split <;> rfl
  | shl =>
      have amount := @toNat_smod 64 right.toBitVec 64 rfl (by decide)
      rw [word, ← amount]
      rfl
  | shr =>
      have amount := @toNat_smod 64 right.toBitVec 64 rfl (by decide)
      rw [word, ← amount]
      rfl
  | shrUnsigned =>
      have amount := @toNat_mod 64 right.toBitVec (by decide)
      rw [word, ← amount]
      rfl
  | _ => rfl

/-- Comparison of words of any width. -/
def compareWord {width : Nat} (op : CompareOp) (left right : BitVec width) : Bool :=
  match op with
  | .eq => left == right
  | .gt => right.slt left
  | .gtUnsigned => right.ult left
  | .lt => left.slt right
  | .ltUnsigned => left.ult right

theorem compareNarrow_eq_word (op : CompareOp) (left right : Int32) :
    compareNarrow op left right = compareWord op left.toBitVec right.toBitVec := by
  cases op with
  | eq =>
      change (left == right) = (left.toBitVec == right.toBitVec)
      rw [Bool.eq_iff_iff, beq_iff_eq, beq_iff_eq, Int32.toBitVec_inj]
  | gt | lt =>
      rw [Bool.eq_iff_iff]
      exact decide_eq_true_iff
  | gtUnsigned | ltUnsigned => exact decide_eq_decide.mpr .rfl

theorem compareWide_eq_word (op : CompareOp) (left right : Int64) :
    compareWide op left right = compareWord op left.toBitVec right.toBitVec := by
  cases op with
  | eq =>
      change (left == right) = (left.toBitVec == right.toBitVec)
      rw [Bool.eq_iff_iff, beq_iff_eq, beq_iff_eq, Int64.toBitVec_inj]
  | gt | lt =>
      rw [Bool.eq_iff_iff]
      exact decide_eq_true_iff
  | gtUnsigned | ltUnsigned => exact decide_eq_decide.mpr .rfl

end Arith

/-! ## Integers of a type -/

namespace Prim

variable {prim : Prim} {value other : Int}

/-- Bits of the word that an integer of the type is on the stack. -/
def slot (prim : Prim) : Nat :=
  if prim.isWide then 64 else 32

/-- The word that an integer of the type is on the stack. -/
def word (prim : Prim) (value : Int) : BitVec prim.slot :=
  BitVec.ofInt prim.slot value

/-- The word of an integer of a signed type stands for it as a signed number. -/
theorem toInt_word (integral : prim.isIntegral = true) (signed : prim.isUnsigned = false)
    (holds : prim.Holds value) : (prim.word value).toInt = value := by
  obtain ⟨least, greatest⟩ := holds
  unfold word
  cases prim
  case bool | float32 | float64 => cases integral
  case char | uint8 | uint16 | uint32 | uint64 | uintPtr => cases signed
  all_goals
    exact BitVec.toInt_ofInt_eq_self (by decide) (Int.le_trans (by decide) least)
      (Int.lt_of_le_of_lt greatest (by decide))

/-- The word of an integer of an unsigned type stands for it as a number that is not negative. -/
theorem toNat_word (integral : prim.isIntegral = true) (unsigned : prim.isUnsigned = true)
    (holds : prim.Holds value) : ((prim.word value).toNat : Int) = value := by
  obtain ⟨least, greatest⟩ := holds
  unfold word
  cases prim
  case bool | float32 | float64 => cases integral
  case int8 | int16 | int32 | int64 | intPtr => cases unsigned
  all_goals exact Word.toNat_ofInt least (Int.lt_of_le_of_lt greatest (by decide))

/-- A word is that of the number that its bits are. -/
theorem word_toNat (word : BitVec prim.slot) : prim.word word.toNat = word := by
  rw [Prim.word, BitVec.ofInt_natCast, BitVec.ofNat_toNat, BitVec.setWidth_eq]

/-- The integers that have arithmetic fill the words that they are on the stack. -/
theorem slot_eq_width (integer : prim.isInteger = true) : prim.slot = prim.width := by
  cases prim
  case int32 | uint32 | int64 | uint64 | intPtr | uintPtr => rfl
  all_goals cases integer

theorem isIntegral_of_isInteger (integer : prim.isInteger = true) : prim.isIntegral = true := by
  cases prim
  case int32 | uint32 | int64 | uint64 | intPtr | uintPtr => rfl
  all_goals cases integer

/-- Reduction into the type keeps the word. -/
theorem word_wrap (integer : prim.isInteger = true) (value : Int) :
    prim.word (prim.wrap value) = prim.word value := by
  refine Word.ofInt_congr ?_
  rw [slot_eq_width integer]
  exact wrap_emod prim value

/-- Integers of a type with the same word are the same. -/
theorem word_inj (integral : prim.isIntegral = true) (holds : prim.Holds value)
    (also : prim.Holds other) : prim.word value = prim.word other ↔ value = other := by
  refine ⟨fun same => ?_, congrArg prim.word⟩
  cases signed : prim.isUnsigned with
  | false => rw [← toInt_word integral signed holds, same, toInt_word integral signed also]
  | true => rw [← toNat_word integral signed holds, same, toNat_word integral signed also]

/-! ## Operations on words -/

section Operations

variable {left right : Int}

theorem word_eq_zero (integer : prim.isInteger = true) (holds : prim.Holds right) :
    prim.word right = 0 ↔ right = 0 := by
  have zero : prim.Holds 0 := by
    cases prim <;> decide
  exact word_inj (isIntegral_of_isInteger integer) holds zero

section

variable (integral : prim.isIntegral = true)
include integral

/-- Signed division of words. -/
theorem word_sdiv (signed : prim.isUnsigned = false) (isLeft : prim.Holds left)
    (isRight : prim.Holds right) :
    (prim.word left).sdiv (prim.word right) = prim.word (left.tdiv right) := by
  rw [← @BitVec.ofInt_toInt _ ((prim.word left).sdiv _), BitVec.toInt_sdiv,
    toInt_word integral signed isLeft, toInt_word integral signed isRight]
  exact Word.ofInt_congr Int.bmod_emod

theorem word_srem (signed : prim.isUnsigned = false) (isLeft : prim.Holds left)
    (isRight : prim.Holds right) :
    (prim.word left).srem (prim.word right) = prim.word (left.tmod right) := by
  rw [← @BitVec.ofInt_toInt _ ((prim.word left).srem _), BitVec.toInt_srem,
    toInt_word integral signed isLeft, toInt_word integral signed isRight]
  rfl

/-- Unsigned division of words. -/
theorem word_udiv (unsigned : prim.isUnsigned = true) (isLeft : prim.Holds left)
    (isRight : prim.Holds right) :
    prim.word left / prim.word right = prim.word (left.tdiv right) := by
  have isX := toNat_word integral unsigned isLeft
  have isY := toNat_word integral unsigned isRight
  have isQuotient : left.tdiv right = ((prim.word left / prim.word right).toNat : Int) := by
    rw [BitVec.toNat_udiv, Int.natCast_ediv, isX, isY,
      Int.tdiv_eq_ediv_of_nonneg (isX ▸ Int.natCast_nonneg _)]
  rw [isQuotient, word_toNat]

theorem word_umod (unsigned : prim.isUnsigned = true) (isLeft : prim.Holds left)
    (isRight : prim.Holds right) :
    prim.word left % prim.word right = prim.word (left.tmod right) := by
  have isX := toNat_word integral unsigned isLeft
  have isY := toNat_word integral unsigned isRight
  have isRemainder : left.tmod right = ((prim.word left % prim.word right).toNat : Int) := by
    rw [BitVec.toNat_umod, Int.natCast_emod, isX, isY,
      Int.tmod_eq_emod_of_nonneg (isX ▸ Int.natCast_nonneg _)]
  rw [isRemainder, word_toNat]

/-- A shift to the right of a signed word divides, rounding down. -/
theorem word_sshiftRight (signed : prim.isUnsigned = false) (isLeft : prim.Holds left)
    (count : Nat) :
    (prim.word left).sshiftRight count = prim.word (left / (2 ^ count : Nat)) := by
  rw [← @BitVec.ofInt_toInt _ ((prim.word left).sshiftRight _), BitVec.toInt_sshiftRight,
    toInt_word integral signed isLeft, Int.shiftRight_eq_div_pow]
  rfl

/-- So does a shift to the right of an unsigned word. -/
theorem word_ushiftRight (unsigned : prim.isUnsigned = true) (isLeft : prim.Holds left)
    (count : Nat) :
    prim.word left >>> count = prim.word (left / (2 ^ count : Nat)) := by
  have isX := toNat_word integral unsigned isLeft
  have isQuotient : left / (2 ^ count : Nat) = ((prim.word left >>> count).toNat : Int) := by
    rw [BitVec.toNat_ushiftRight, Nat.shiftRight_eq_div_pow, Int.natCast_ediv, isX]
  rw [isQuotient, word_toNat]

end

/-- An integer shifts a word by what the width leaves of it. -/
theorem shiftAmount_word (integer : prim.isInteger = true) (amount : Int) :
    Arith.shiftAmount (prim.word amount) = (amount % prim.width).toNat := by
  have divides : (prim.slot : Int) ∣ (2 ^ prim.slot : Nat) := by
    cases prim <;> decide
  unfold Arith.shiftAmount word
  rw [BitVec.toInt_ofInt, ← Int.emod_emod_of_dvd _ divides, Int.bmod_emod,
    Int.emod_emod_of_dvd _ divides, slot_eq_width integer]

/-- The least integer of a signed type is the least word. -/
theorem word_eq_intMin (integer : prim.isInteger = true) (signed : prim.isUnsigned = false)
    (holds : prim.Holds left) : prim.word left = BitVec.intMin prim.slot ↔ left = prim.minValue := by
  have integral := isIntegral_of_isInteger integer
  have least : prim.Holds prim.minValue := by
    cases prim <;> decide
  have isLeast : BitVec.intMin prim.slot = prim.word prim.minValue := by
    cases prim
    case int32 | int64 | intPtr => rfl
    case uint32 | uint64 | uintPtr => cases signed
    all_goals cases integer
  rw [isLeast]
  exact word_inj integral holds least

/-- The word of -1 has every bit. -/
theorem word_eq_neg_one (integer : prim.isInteger = true) (signed : prim.isUnsigned = false)
    (holds : prim.Holds right) : prim.word right = -1 ↔ right = -1 := by
  have integral := isIntegral_of_isInteger integer
  have negative : prim.Holds (-1) := by
    cases prim
    case int32 | int64 | intPtr => decide
    case uint32 | uint64 | uintPtr => cases signed
    all_goals cases integer
  have isNegative : (-1 : BitVec prim.slot) = prim.word (-1) := by
    cases prim <;> rfl
  rw [isNegative]
  exact word_inj integral holds negative

end Operations

end Prim

end ClassForge
