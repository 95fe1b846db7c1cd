import ClassForge.Proofs.Number.IntegerWords

/-!
# Operators on integers

What the operators of the language mean for the integers of a type, and that the instructions that
the checker selects for them compute it.
-/

namespace ClassForge

namespace Operators

/-! ## What operators give for integers -/

/-- A quotient or a remainder of two integers of a type.  There is none for a zero divisor, and
none for the least integer of a signed type and the divisor -1. -/
def divided (prim : Prim) (left right result : Int) : Except ArithError Int :=
  if right = 0 then .error .divideByZero
  else if prim.isUnsigned = false ∧ left = prim.minValue ∧ right = -1 then .error .overflow
  else .ok result

/-- The integer that an operator gives for two integers of a type: the exact one, or the one in the
type with its low bits.  An amount to shift by counts up to the width of the type. -/
def integer? (op : BinaryOp) (prim : Prim) (left right : Int) : Option (Except ArithError Int) :=
  match op with
  | .add => some (.ok (prim.wrap (left + right)))
  | .sub => some (.ok (prim.wrap (left - right)))
  | .mul => some (.ok (prim.wrap (left * right)))
  | .div => some (divided prim left right (left.tdiv right))
  | .rem => some (divided prim left right (left.tmod right))
  | .bitAnd => some (.ok (prim.wrap (left.land right)))
  | .bitOr => some (.ok (prim.wrap (left.lor right)))
  | .bitXor => some (.ok (prim.wrap (left.xor right)))
  | .shl => some (.ok (prim.wrap (left * (2 ^ (right % prim.width).toNat : Nat))))
  | .shr => some (.ok (left / (2 ^ (right % prim.width).toNat : Nat)))
  | .min => some (.ok (if left ≤ right then left else right))
  | .max => some (.ok (if left ≤ right then right else left))
  | _ => none

/-- The truth value that an operator gives for two integers. -/
def truth? (op : BinaryOp) (left right : Int) : Option Bool :=
  match op with
  | .eq => some (left = right)
  | .ne => some (left ≠ right)
  | .lt => some (left < right)
  | .le => some (left ≤ right)
  | .gt => some (right < left)
  | .ge => some (right ≤ left)
  | _ => none

/-- The integer that an operator gives for one integer of a type. -/
def integer₁? (op : UnaryOp) (prim : Prim) (operand : Int) : Option (Except ArithError Int) :=
  match op with
  | .neg => some (.ok (prim.wrap (-operand)))
  | .bitNot => some (.ok (prim.wrap (-operand - 1)))
  | .abs => some (if operand = prim.minValue then .error .overflow else .ok operand.natAbs)
  | _ => none

/-! ## What the instructions compute -/

section Words

variable {prim : Prim} {left right : Int}

theorem unsigned_word (integer : prim.isInteger = true) (unsigned : prim.isUnsigned = true)
    (isRight : prim.Holds right) (result : Int) :
    Arith.word.unsigned (prim.word right) (prim.word result) =
      (divided prim left right result).map prim.word := by
  unfold Arith.word.unsigned divided
  rw [unsigned]
  by_cases zero : right = 0
  · rw [if_pos zero, if_pos ((Prim.word_eq_zero integer isRight).mpr zero)]
    rfl
  · rw [if_neg zero, if_neg (mt (Prim.word_eq_zero integer isRight).mp zero), if_neg (by simp)]
    rfl

theorem signed_word (integer : prim.isInteger = true) (signed : prim.isUnsigned = false)
    (isLeft : prim.Holds left) (isRight : prim.Holds right) (result : Int) :
    Arith.word.signed (prim.word left) (prim.word right) (prim.word result) =
      (divided prim left right result).map prim.word := by
  unfold Arith.word.signed divided
  have isLeast : (prim.word left = BitVec.intMin prim.slot ∧ prim.word right = -1) ↔
      left = prim.minValue ∧ right = -1 :=
    and_congr (Prim.word_eq_intMin integer signed isLeft) (Prim.word_eq_neg_one integer signed isRight)
  rw [signed]
  by_cases zero : right = 0
  · rw [if_pos zero, if_pos ((Prim.word_eq_zero integer isRight).mpr zero)]
    rfl
  rw [if_neg zero, if_neg (mt (Prim.word_eq_zero integer isRight).mp zero)]
  by_cases beyond : left = prim.minValue ∧ right = -1
  · rw [if_pos (isLeast.mpr beyond), if_pos ⟨rfl, beyond⟩]
    rfl
  · rw [if_neg (mt isLeast.mp beyond), if_neg fun both => beyond both.2]
    rfl

/-- The word of the integer that an operator gives is the one that its instruction computes. -/
theorem word_arithOp {op : BinaryOp} {result : Except ArithError Int}
    (integer : prim.isInteger = true) (isLeft : prim.Holds left)
    (isRight : op = .div ∨ op = .rem → prim.Holds right)
    (means : integer? op prim left right = some result) (notMin : op ≠ .min) (notMax : op ≠ .max) :
    Arith.word (arithOp op prim.isUnsigned) (prim.word left) (prim.word right) =
      result.map prim.word := by
  have integral := Prim.isIntegral_of_isInteger integer
  have reduced : ∀ {computed : BitVec prim.slot} {exact : Int}, computed = prim.word exact →
      (Except.ok computed : Except ArithError _) = (Except.ok (prim.wrap exact)).map prim.word :=
    fun same => congrArg Except.ok (same.trans (Prim.word_wrap integer _).symm)
  cases op <;> cases means
  case min => contradiction
  case max => contradiction
  case add => exact reduced (BitVec.ofInt_add left right).symm
  case sub => exact reduced (Word.ofInt_sub left right).symm
  case mul => exact reduced (BitVec.ofInt_mul left right).symm
  case bitAnd => exact reduced (Word.ofInt_land left right).symm
  case bitOr => exact reduced (Word.ofInt_lor left right).symm
  case bitXor => exact reduced (Word.ofInt_xor left right).symm
  case shl =>
    rw [← Prim.shiftAmount_word integer right]
    exact reduced (Word.ofInt_mul_pow left _).symm
  case shr =>
    rw [← Prim.shiftAmount_word integer right]
    cases signed : prim.isUnsigned with
    | false => exact congrArg Except.ok (Prim.word_sshiftRight integral signed isLeft _)
    | true => exact congrArg Except.ok (Prim.word_ushiftRight integral signed isLeft _)
  case div =>
    have isRight := isRight (.inl rfl)
    cases signed : prim.isUnsigned with
    | false =>
        rw [← signed_word integer signed isLeft isRight, ← Prim.word_sdiv integral signed isLeft isRight]
        rfl
    | true =>
        rw [← unsigned_word integer signed isRight, ← Prim.word_udiv integral signed isLeft isRight]
        rfl
  case rem =>
    have isRight := isRight (.inr rfl)
    cases signed : prim.isUnsigned with
    | false =>
        rw [← signed_word integer signed isLeft isRight, ← Prim.word_srem integral signed isLeft isRight]
        rfl
    | true =>
        rw [← unsigned_word integer signed isRight, ← Prim.word_umod integral signed isLeft isRight]
        rfl

end Words

/-! ## Results lie in the type -/

section Ranges

variable {prim : Prim} {left right : Int}

theorem minValue_of_unsigned (unsigned : prim.isUnsigned = true) : prim.minValue = 0 := by
  unfold Prim.minValue
  rw [unsigned]
  rfl

theorem minValue_of_signed (integral : prim.isIntegral = true) (signed : prim.isUnsigned = false) :
    prim.minValue = -prim.maxValue - 1 ∧ 1 ≤ prim.maxValue := by
  cases prim
  case bool | float32 | float64 => cases integral
  case char | uint8 | uint16 | uint32 | uint64 | uintPtr => cases signed
  all_goals decide

theorem holds_tdiv (integral : prim.isIntegral = true) (isLeft : prim.Holds left)
    (isRight : prim.Holds right) (notZero : right ≠ 0)
    (within : ¬ (prim.isUnsigned = false ∧ left = prim.minValue ∧ right = -1)) :
    prim.Holds (left.tdiv right) := by
  obtain ⟨least, greatest⟩ := isLeft
  cases signed : prim.isUnsigned with
  | true =>
      have zero := minValue_of_unsigned signed
      have isNonneg := isRight.1
      rw [zero] at least isNonneg
      refine ⟨zero ▸ Int.tdiv_nonneg least isNonneg, ?_⟩
      rw [Int.tdiv_eq_ediv_of_nonneg least]
      exact Int.le_trans (Int.ediv_le_self _ least) greatest
  | false =>
      obtain ⟨isLeast, filled⟩ := minValue_of_signed integral signed
      have size : (left.tdiv right).natAbs = left.natAbs / right.natAbs := Int.natAbs_tdiv _ _
      unfold Prim.Holds
      by_cases unit : right.natAbs = 1
      · rw [unit, Nat.div_one] at size
        by_cases one : right = 1
        · rw [one, Int.tdiv_one]
          omega
        · have : left ≠ prim.minValue := fun isMin => within ⟨signed, isMin, by omega⟩
          omega
      · have half : left.natAbs / right.natAbs ≤ left.natAbs / 2 :=
          Nat.div_le_div_left (by omega) (by decide)
        omega

theorem holds_tmod (integral : prim.isIntegral = true) (isLeft : prim.Holds left)
    (isRight : prim.Holds right) (notZero : right ≠ 0) : prim.Holds (left.tmod right) := by
  obtain ⟨least, greatest⟩ := isLeft
  cases signed : prim.isUnsigned with
  | true =>
      have zero := minValue_of_unsigned signed
      have isNonneg := isRight.1
      rw [zero] at least isNonneg
      refine ⟨zero ▸ Int.tmod_nonneg _ least, ?_⟩
      have := Int.tmod_lt_of_pos left (by omega : 0 < right)
      have := isRight.2
      omega
  | false =>
      obtain ⟨isLeast, filled⟩ := minValue_of_signed integral signed
      have size : (left.tmod right).natAbs = left.natAbs % right.natAbs := Int.natAbs_tmod _ _
      have small : left.natAbs % right.natAbs < right.natAbs := Nat.mod_lt _ (by omega)
      obtain ⟨low, high⟩ := isRight
      unfold Prim.Holds
      omega

/-- A shift to the right stays in the type. -/
theorem holds_shiftRight (isLeft : prim.Holds left) (spans : prim.minValue ≤ 0 ∧ 0 ≤ prim.maxValue)
    (count : Nat) : prim.Holds (left / (2 ^ count : Nat)) := by
  have pos : 0 < ((2 ^ count : Nat) : Int) := Int.natCast_pos.mpr (Nat.two_pow_pos count)
  obtain ⟨least, greatest⟩ := isLeft
  obtain negative | positive := Int.lt_or_le left 0
  · refine ⟨Int.le_trans least ((Int.le_ediv_iff_mul_le pos).mpr ?_),
      Int.le_trans (Int.le_of_lt (Int.ediv_neg_of_neg_of_pos negative pos)) spans.2⟩
    exact Int.le_trans (Int.mul_le_mul_of_nonpos_left (Int.le_of_lt negative) pos)
      (Int.le_of_eq (Int.mul_one left))
  · exact ⟨Int.le_trans spans.1 (Int.ediv_nonneg positive (Int.le_of_lt pos)),
      Int.le_trans (Int.ediv_le_self _ positive) greatest⟩

theorem divided_eq_ok {result number : Int} (done : divided prim left right result = .ok number) :
    number = result ∧ right ≠ 0 ∧
      ¬ (prim.isUnsigned = false ∧ left = prim.minValue ∧ right = -1) := by
  unfold divided at done
  split at done
  · cases done
  · next notZero =>
      split at done
      · cases done
      · next within =>
          cases done
          exact ⟨rfl, notZero, within⟩

/-- What an operator gives is an integer of the type. -/
theorem holds_of_integer? {op : BinaryOp} {number : Int} (integral : prim.isIntegral = true)
    (isLeft : prim.Holds left) (isRight : op ≠ .shl → op ≠ .shr → prim.Holds right)
    (means : integer? op prim left right = some (.ok number)) : prim.Holds number := by
  have notBool : prim ≠ .bool := by
    rintro rfl
    cases integral
  have spans : prim.minValue ≤ 0 ∧ 0 ≤ prim.maxValue := by
    cases prim <;> decide
  cases op
  case add | sub | mul | bitAnd | bitOr | bitXor | shl =>
    cases means
    exact Prim.holds_wrap notBool _
  case div =>
    obtain ⟨rfl, notZero, within⟩ := divided_eq_ok (Option.some.inj means)
    exact holds_tdiv integral isLeft (isRight (by decide) (by decide)) notZero within
  case rem =>
    obtain ⟨rfl, notZero, -⟩ := divided_eq_ok (Option.some.inj means)
    exact holds_tmod integral isLeft (isRight (by decide) (by decide)) notZero
  case shr =>
    cases means
    exact holds_shiftRight isLeft spans _
  case min | max =>
    cases means
    have isRight := isRight (by decide) (by decide)
    split <;> assumption
  all_goals cases means

theorem holds_of_integer₁? {op : UnaryOp} {number : Int} (integral : prim.isIntegral = true)
    (isOperand : prim.Holds left) (means : integer₁? op prim left = some (.ok number)) :
    prim.Holds number := by
  have notBool : prim ≠ .bool := by
    rintro rfl
    cases integral
  cases op
  case neg | bitNot =>
    cases means
    exact Prim.holds_wrap notBool _
  case abs =>
    have isAbs := Option.some.inj means
    split at isAbs
    · cases isAbs
    · next notLeast =>
        cases isAbs
        obtain ⟨least, greatest⟩ := isOperand
        cases signed : prim.isUnsigned with
        | true =>
            have zero := minValue_of_unsigned signed
            unfold Prim.Holds
            omega
        | false =>
            obtain ⟨isLeast, filled⟩ := minValue_of_signed integral signed
            unfold Prim.Holds
            omega
  all_goals cases means

end Ranges

end Operators

namespace Arith

/-! ## Values -/

section Values

variable {prim : Prim} {left right : Int}

/-- The value of a number depends on its word alone. -/
theorem intValue_word (integer : prim.isInteger = true) (value : Int) :
    intValue prim (prim.word value).toInt = intValue prim value := by
  cases prim
  case int32 | uint32 =>
    exact congrArg (fun word => Value.int32 (Int32.ofBitVec word)) BitVec.ofInt_toInt
  case int64 | uint64 =>
    exact congrArg (fun word => Value.int64 (Int64.ofBitVec word)) BitVec.ofInt_toInt
  case intPtr | uintPtr =>
    exact congrArg (fun word => Value.native (Int64.ofBitVec word)) BitVec.ofInt_toInt
  all_goals cases integer

/-- A 32-bit integer is the same integer of 64 bits. -/
theorem toInt64_ofInt (holds : Prim.int32.Holds right) :
    (Int32.ofInt right).toInt64 = Int64.ofInt right := by
  rw [← Int64.ofInt_int32ToInt, Int32.toInt_ofInt_of_le holds.1 (Int.lt_of_le_sub_one holds.2)]

theorem narrow_values (op : ArithOp) (left right : Int) :
    (narrow op (.ofInt left) (.ofInt right)).map Value.int32 =
      (word op (Prim.word .int32 left) (Prim.word .int32 right)).map fun word =>
        intValue .int32 word.toInt := by
  rw [narrow_eq_word]
  change ((word op (Prim.word .int32 left) (Prim.word .int32 right)).map Int32.ofBitVec).map _ = _
  cases word op (Prim.word .int32 left) (Prim.word .int32 right) with
  | error => rfl
  | ok word =>
      exact congrArg (fun word => Except.ok (Value.int32 (Int32.ofBitVec word)))
        BitVec.ofInt_toInt.symm

theorem wide_values (op : ArithOp) (left right : Int) (make : Int64 → Value) :
    (wide op (.ofInt left) (.ofInt right)).map make =
      (word op (Prim.word .int64 left) (Prim.word .int64 right)).map fun word =>
        make (.ofInt word.toInt) := by
  rw [wide_eq_word]
  change ((word op (Prim.word .int64 left) (Prim.word .int64 right)).map Int64.ofBitVec).map _ = _
  cases word op (Prim.word .int64 left) (Prim.word .int64 right) with
  | error => rfl
  | ok word =>
      exact congrArg (fun word => Except.ok (make (Int64.ofBitVec word))) BitVec.ofInt_toInt.symm

/-- Two integers of one type are combined as words. -/
theorem binary_values {op : ArithOp} (straight : isShift op = false)
    (integer : prim.isInteger = true) (left right : Int) :
    binary op (intValue prim left) (intValue prim right) =
      (word op (prim.word left) (prim.word right)).map fun word => intValue prim word.toInt := by
  unfold binary
  rw [straight, if_neg Bool.false_ne_true]
  cases prim
  case int32 | uint32 => exact narrow_values op left right
  case int64 | uint64 => exact wide_values op left right .int64
  case intPtr | uintPtr => exact wide_values op left right .native
  all_goals cases integer

/-- An address and a 32-bit offset are combined as words of an address. -/
theorem binary_offset {op : ArithOp} (straight : isShift op = false) (left : Int)
    (isOffset : Prim.int32.Holds right) :
    binary op (intValue .intPtr left) (intValue .int32 right) =
      (word op (Prim.word .intPtr left) (Prim.word .intPtr right)).map fun word =>
        intValue .intPtr word.toInt := by
  unfold binary
  rw [straight, if_neg Bool.false_ne_true]
  change (wide op (.ofInt left) (Int32.ofInt right).toInt64).map Value.native = _
  rw [toInt64_ofInt isOffset]
  exact wide_values op left right .native

/-- An integer is shifted as a word, by a 32-bit amount. -/
theorem binary_shift {op : ArithOp} (shifts : isShift op = true) (integer : prim.isInteger = true)
    (left : Int) (isAmount : Prim.int32.Holds right) :
    binary op (intValue prim left) (intValue .int32 right) =
      (word op (prim.word left) (prim.word right)).map fun word => intValue prim word.toInt := by
  unfold binary
  rw [shifts, if_pos rfl]
  cases prim
  case int32 | uint32 => exact narrow_values op left right
  case int64 | uint64 =>
    change (wide op (.ofInt left) (Int32.ofInt right).toInt64).map Value.int64 = _
    rw [toInt64_ofInt isAmount]
    exact wide_values op left right .int64
  case intPtr | uintPtr =>
    change (wide op (.ofInt left) (Int32.ofInt right).toInt64).map Value.native = _
    rw [toInt64_ofInt isAmount]
    exact wide_values op left right .native
  all_goals cases integer

/-- The word of a result, as a value. -/
theorem map_word (integer : prim.isInteger = true) (result : Except ArithError Int) :
    ((result.map prim.word).map fun word => intValue prim word.toInt) =
      result.map (intValue prim) := by
  cases result with
  | error => rfl
  | ok number => exact congrArg Except.ok (intValue_word integer number)

section Arithmetic

variable {op : BinaryOp} {result : Except ArithError Int}

/-- An arithmetic or bit operator computes what it means for two integers of a type. -/
theorem binary_eq (integer : prim.isInteger = true) (isLeft : prim.Holds left)
    (isRight : prim.Holds right) (means : Operators.integer? op prim left right = some result)
    (notMin : op ≠ .min) (notMax : op ≠ .max) (notShl : op ≠ .shl) (notShr : op ≠ .shr) :
    binary (Operators.arithOp op prim.isUnsigned) (intValue prim left) (intValue prim right) =
      result.map (intValue prim) := by
  have straight : isShift (Operators.arithOp op prim.isUnsigned) = false := by
    cases op
    case add | sub | mul | bitAnd | bitOr | bitXor => rfl
    case div | rem => cases prim.isUnsigned <;> rfl
    case min | max | shl | shr => contradiction
    all_goals cases means
  rw [binary_values straight integer, Operators.word_arithOp integer isLeft (fun _ => isRight) means
    notMin notMax, map_word integer]

/-- An address is moved by a 32-bit offset. -/
theorem binary_offset_eq (isLeft : Prim.intPtr.Holds left) (isOffset : Prim.int32.Holds right)
    (means : Operators.integer? op .intPtr left right = some result) (moves : op = .add ∨ op = .sub) :
    binary (Operators.arithOp op false) (intValue .intPtr left) (intValue .int32 right) =
      result.map (intValue .intPtr) := by
  have straight : isShift (Operators.arithOp op false) = false := by
    rcases moves with rfl | rfl <;> rfl
  have notDivision : op = .div ∨ op = .rem → Prim.intPtr.Holds right := by
    rcases moves with rfl | rfl <;> rintro (⟨⟨⟩⟩ | ⟨⟨⟩⟩)
  have notExtremum : op ≠ .min ∧ op ≠ .max := by
    rcases moves with rfl | rfl <;> decide
  rw [binary_offset straight left isOffset]
  have computed := Operators.word_arithOp rfl isLeft notDivision means notExtremum.1 notExtremum.2
  exact (congrArg _ computed).trans (map_word rfl result)

/-- A shift computes what it means for an integer of a type and a 32-bit amount. -/
theorem binary_shift_eq (integer : prim.isInteger = true) (isLeft : prim.Holds left)
    (isAmount : Prim.int32.Holds right)
    (means : Operators.integer? op prim left right = some result) (shifts : op = .shl ∨ op = .shr) :
    binary (Operators.arithOp op prim.isUnsigned) (intValue prim left) (intValue .int32 right) =
      result.map (intValue prim) := by
  have isShifted : isShift (Operators.arithOp op prim.isUnsigned) = true := by
    rcases shifts with rfl | rfl
    · rfl
    · cases prim.isUnsigned <;> rfl
  have notDivision : op = .div ∨ op = .rem → prim.Holds right := by
    rcases shifts with rfl | rfl <;> rintro (⟨⟨⟩⟩ | ⟨⟨⟩⟩)
  have notExtremum : op ≠ .min ∧ op ≠ .max := by
    rcases shifts with rfl | rfl <;> decide
  rw [binary_shift isShifted integer left isAmount,
    Operators.word_arithOp integer isLeft notDivision means notExtremum.1 notExtremum.2,
    map_word integer]

end Arithmetic

section Comparisons

/-- Two integers of one type are compared as words. -/
theorem compare_values (integral : prim.isIntegral = true) (op : CompareOp) (left right : Int) :
    compare op (intValue prim left) (intValue prim right) =
      .ok (compareWord op (prim.word left) (prim.word right)) := by
  cases prim
  case bool | float32 | float64 => cases integral
  case int64 | uint64 | intPtr | uintPtr => exact congrArg Except.ok (compareWide_eq_word op _ _)
  all_goals exact congrArg Except.ok (compareNarrow_eq_word op _ _)

variable (integral : prim.isIntegral = true) (isLeft : prim.Holds left) (isRight : prim.Holds right)

include integral isLeft isRight

theorem compare_eq : compare .eq (intValue prim left) (intValue prim right) =
    .ok (decide (left = right)) := by
  rw [compare_values integral]
  congr 1
  change (prim.word left == prim.word right) = _
  rw [Bool.eq_iff_iff, beq_iff_eq, decide_eq_true_iff]
  exact Prim.word_inj integral isLeft isRight

theorem compare_lt :
    compare (if prim.isUnsigned then .ltUnsigned else .lt) (intValue prim left) (intValue prim right) =
      .ok (decide (left < right)) := by
  rw [compare_values integral]
  congr 1
  rw [Bool.eq_iff_iff, decide_eq_true_iff]
  cases signed : prim.isUnsigned with
  | true =>
      rw [if_pos rfl]
      refine BitVec.ult_iff_toNat_lt.trans ?_
      rw [← Int.ofNat_lt, Prim.toNat_word integral signed isLeft,
        Prim.toNat_word integral signed isRight]
  | false =>
      rw [if_neg Bool.false_ne_true]
      refine BitVec.slt_iff_toInt_lt.trans ?_
      rw [Prim.toInt_word integral signed isLeft, Prim.toInt_word integral signed isRight]

/-- A comparison with exchanged operands. -/
theorem compare_gt :
    compare (if prim.isUnsigned then .gtUnsigned else .gt) (intValue prim left) (intValue prim right) =
      .ok (decide (right < left)) := by
  rw [← compare_lt integral isRight isLeft, compare_values integral, compare_values integral]
  cases prim.isUnsigned <;> rfl

end Comparisons

/-- Reduction into the type keeps the value. -/
theorem intValue_wrap (integer : prim.isInteger = true) (value : Int) :
    intValue prim (prim.wrap value) = intValue prim value := by
  rw [← intValue_word integer, Prim.word_wrap integer, intValue_word integer]

theorem neg_eq (integer : prim.isInteger = true) (value : Int) :
    neg (intValue prim value) = .ok (intValue prim (prim.wrap (-value))) := by
  have opposite (width : Nat) := (@BitVec.ofInt_neg width value).symm
  rw [intValue_wrap integer]
  cases prim
  case int32 | uint32 => exact congrArg (Except.ok ∘ Value.int32 ∘ Int32.ofBitVec) (opposite 32)
  case int64 | uint64 => exact congrArg (Except.ok ∘ Value.int64 ∘ Int64.ofBitVec) (opposite 64)
  case intPtr | uintPtr => exact congrArg (Except.ok ∘ Value.native ∘ Int64.ofBitVec) (opposite 64)
  all_goals cases integer

theorem not_eq (integer : prim.isInteger = true) (value : Int) :
    not (intValue prim value) = .ok (intValue prim (prim.wrap (-value - 1))) := by
  have complement (width : Nat) := (@Word.ofInt_complement width value).symm
  rw [intValue_wrap integer]
  cases prim
  case int32 | uint32 => exact congrArg (Except.ok ∘ Value.int32 ∘ Int32.ofBitVec) (complement 32)
  case int64 | uint64 => exact congrArg (Except.ok ∘ Value.int64 ∘ Int64.ofBitVec) (complement 64)
  case intPtr | uintPtr => exact congrArg (Except.ok ∘ Value.native ∘ Int64.ofBitVec) (complement 64)
  all_goals cases integer

end Values

end Arith

end ClassForge
