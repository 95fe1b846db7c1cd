import ClassForge.Proofs.Number.IntegerConversions
import ClassForge.Proofs.Number.WholeFloats

/-!
# Checked conversions from floats to integers

A checked conversion gives the whole part of a float, or it raises an exception when the type does
not hold that.  It compares floats, and the greatest integer of a 64-bit type is no float: the float
next to it stands for the integer after it, passes the comparison, and is brought back into the
range.  No other float gives a wrong integer.
-/

namespace ClassForge

namespace Prim

/-- The greatest integer whose float does not exceed the float of the greatest integer of a type. -/
def greatestFloat (prim : Prim) : Int :=
  if prim.isWide then prim.maxValue + 1 else prim.maxValue

end Prim

namespace BinaryFormat

theorem isExact_of_lt {number : Nat} (few : number < 2 ^ 53) : IsExact number :=
  ⟨number, 0, few, by decide, (Nat.mul_one number).symm⟩

theorem isExact_two_pow {shift : Nat} (small : shift ≤ 971) : IsExact (2 ^ shift) :=
  ⟨1, shift, by decide, small, (Nat.one_mul _).symm⟩

/-- The ends between which whole parts pass the comparison are floats. -/
theorem isExact_ends {target : Prim} (integral : target.isIntegral = true) :
    IsExact target.minValue.natAbs ∧ IsExact target.greatestFloat.natAbs := by
  cases target
  case bool | float32 | float64 => cases integral
  case int64 | intPtr =>
    have isPower := @isExact_two_pow 63 (by decide)
    exact ⟨isPower, isPower⟩
  case uint64 | uintPtr => exact ⟨isExact_of_lt (by decide), @isExact_two_pow 64 (by decide)⟩
  all_goals exact ⟨isExact_of_lt (by decide), isExact_of_lt (by decide)⟩

end BinaryFormat

namespace Arith

variable {target : Prim} {whole : Int}

theorem ofInt_greatestFloat (integral : target.isIntegral = true) :
    Binary64.ofInt target.maxValue = .ofInt target.greatestFloat := by
  cases target
  case bool | float32 | float64 => cases integral
  all_goals decide +kernel

/-- The comparison of floats lets one integer beyond the range of a 64-bit type pass. -/
theorem fits_eq (integral : target.isIntegral = true)
    (exact : BinaryFormat.IsExact whole.natAbs) :
    fits target whole = decide (target.minValue ≤ whole ∧ whole ≤ target.greatestFloat) := by
  obtain ⟨least, greatest⟩ := BinaryFormat.isExact_ends integral
  unfold fits
  dsimp only
  rw [ofInt_greatestFloat integral, Binary64.lt_ofInt exact least, Binary64.lt_ofInt greatest exact,
    Bool.decide_and]
  simp only [← decide_not, Int.not_lt]

/-- A checked conversion of a float whose whole part is an integer that is a float. -/
theorem convert_float {x : Binary64} (integral : target.isIntegral = true)
    (isWhole : x.whole = .int whole) (exact : BinaryFormat.IsExact whole.natAbs) :
    convert ⟨target, true, false⟩ (.float x) =
      if target.minValue ≤ whole ∧ whole ≤ target.greatestFloat then
        .ok (intValue target (min whole target.maxValue))
      else .error .overflow := by
  have converts : convert ⟨target, true, false⟩ (.float x) =
      if !fits target whole then .error .overflow
      else .ok (intValue target (target.wrap (clamp target whole))) := by
    change convertReal ⟨target, true, false⟩ x = _
    unfold convertReal
    rw [isWhole]
    cases target
    case bool | float32 | float64 => cases integral
    all_goals rfl
  rw [converts, fits_eq integral exact]
  by_cases inRange : target.minValue ≤ whole ∧ whole ≤ target.greatestFloat
  · have spans : target.minValue ≤ target.maxValue := by
      cases target <;> decide
    have clamped : clamp target whole = min whole target.maxValue := by
      unfold clamp
      omega
    have holds : target.Holds (min whole target.maxValue) :=
      ⟨by omega, Int.min_le_right _ _⟩
    rw [if_pos inRange, decide_eq_true inRange, clamped, Prim.wrap_of_holds holds]
    rfl
  · rw [if_neg inRange, decide_eq_false inRange]
    rfl

end Arith

namespace Machine

variable {image : Image} {context : LowerContext} {target : Prim}

/-- The code of a checked conversion of a finite float. -/
theorem Performs.of_checked {x : Binary64} {number : ℚ} (built : image.Built)
    (integral : target.isIntegral = true) (isFinite : x.value? = some number) :
    Performs image context (.convert target true false) [.float x]
      (if target.minValue ≤ wholePart number ∧ wholePart number ≤ target.greatestFloat then
        .ok (Arith.intValue target (min (wholePart number) target.maxValue))
      else .error .overflow) := by
  obtain ⟨isWhole, exact⟩ := Binary64.whole_eq isFinite
  refine .of_mapTop built (fun _ => rfl) ?_ fun error failed => ?_
  · rw [← Arith.convert_float integral isWhole exact]
    rfl
  · split at failed
    · cases failed
    · exact (Except.error.inj failed).symm

/-- A checked conversion of a finite float to an integer type gives the whole part of the number if
the type holds it, and otherwise the exception of an overflow, but for one number: where the whole
part is the integer after the greatest one of a 64-bit type, it gives the greatest one. -/
theorem checked_conversions (built : image.Built) (integral : target.isIntegral = true)
    {x : Binary64} {number : ℚ} (isFinite : x.value? = some number) :
    (∀ (typing : TypeContext) (prim : Prim) (operand : Core), prim.isFloat = true →
      operand.type = .prim prim → typing.unaryCore (.convert target true) (.ok operand) =
        .ok (.apply (.prim target) (.convert target true false) [operand])) ∧
    (target.Holds (wholePart number) →
      Performs image context (.convert target true false) [.float x]
        (.ok (Arith.intValue target (wholePart number)))) ∧
    (target.isWide = true → wholePart number = target.maxValue + 1 →
      Performs image context (.convert target true false) [.float x]
        (.ok (Arith.intValue target target.maxValue))) ∧
    (¬ target.Holds (wholePart number) →
      ¬ (target.isWide = true ∧ wholePart number = target.maxValue + 1) →
        Performs image context (.convert target true false) [.float x] (.error .overflow)) := by
  have performs := @Performs.of_checked image context target x number built integral isFinite
  have spans : target.minValue ≤ target.maxValue := by
    cases target <;> decide
  refine ⟨fun typing prim operand isFloat isType => ?_, fun holds => ?_, fun wide beyond => ?_,
    fun outside notNext => ?_⟩
  · have neither : ¬ (prim = .bool ∨ target = .bool) := by
      rintro (rfl | rfl)
      · cases isFloat
      · cases integral
    have signed : prim.isUnsigned = false := by
      cases prim <;> first | rfl | cases isFloat
    rw [typing.unaryCore_convert isType, if_neg neither, signed]
  · obtain ⟨least, greatest⟩ := holds
    have inRange : wholePart number ≤ target.greatestFloat := by
      unfold Prim.greatestFloat
      split <;> omega
    rwa [if_pos ⟨least, inRange⟩, Int.min_eq_left greatest] at performs
  · have passes : target.minValue ≤ wholePart number ∧ wholePart number ≤ target.greatestFloat := by
      unfold Prim.greatestFloat
      rw [if_pos wide]
      omega
    rwa [if_pos passes, Int.min_eq_right (by omega)] at performs
  · have fails : ¬ (target.minValue ≤ wholePart number ∧
        wholePart number ≤ target.greatestFloat) := by
      rintro ⟨least, greatest⟩
      unfold Prim.greatestFloat at greatest
      split at greatest
      · next wide =>
          have notAfter : wholePart number ≠ target.maxValue + 1 := fun same => notNext ⟨wide, same⟩
          exact outside ⟨least, by omega⟩
      · exact outside ⟨least, greatest⟩
    rwa [if_neg fails] at performs

/-- The float of the integer after the greatest signed 64-bit one. -/
theorem exists_value_next : ∃ number, (⟨0x43e0000000000000⟩ : Binary64).value? = some number ∧
    wholePart number = Prim.int64.maxValue + 1 := by
  have isWhole : (⟨0x43e0000000000000⟩ : Binary64).whole = .int (Prim.int64.maxValue + 1) := by
    decide +kernel
  obtain ⟨number, isNumber⟩ : ∃ number, (⟨0x43e0000000000000⟩ : Binary64).value? = some number :=
    ⟨_, rfl⟩
  exact ⟨number, isNumber, Whole.int.inj ((Binary64.whole_eq isNumber).1.symm.trans isWhole)⟩

/-- That float is converted to the greatest signed 64-bit integer. -/
theorem checked_conversions_next : ∃ number,
    (⟨0x43e0000000000000⟩ : Binary64).value? = some number ∧
    wholePart number = 9223372036854775808 ∧
    Performs .library ⟨.library, .empty, "", false⟩ (.convert .int64 true false)
      [.float ⟨0x43e0000000000000⟩] (.ok (.int64 9223372036854775807)) ∧
    Performs .library ⟨.library, .empty, "", false⟩ (.convert .int32 true false)
      [.float ⟨0x43e0000000000000⟩] (.error .overflow) := by
  obtain ⟨number, isNumber, isNext⟩ := exists_value_next
  obtain ⟨-, -, passes, -⟩ := @checked_conversions .library ⟨.library, .empty, "", false⟩ .int64
    .library rfl _ _ isNumber
  obtain ⟨-, -, -, refused⟩ := @checked_conversions .library ⟨.library, .empty, "", false⟩ .int32
    .library rfl _ _ isNumber
  refine ⟨number, isNumber, isNext, passes rfl isNext, refused ?_ ?_⟩
  · rw [isNext]
    decide
  · rintro ⟨⟨⟩, -⟩

/-- A checked conversion gives an integer that is not the whole part of the number. -/
theorem next_float_passes : ∃ number, (⟨0x43e0000000000000⟩ : Binary64).value? = some number ∧
    ¬ Prim.int64.Holds (wholePart number) ∧
    Arith.convert ⟨.int64, true, false⟩ (.float ⟨0x43e0000000000000⟩) =
      .ok (Arith.intValue .int64 Prim.int64.maxValue) := by
  obtain ⟨number, isNumber, isNext⟩ := exists_value_next
  refine ⟨number, isNumber, ?_, by decide +kernel⟩
  rw [isNext]
  decide

end Machine

end ClassForge
