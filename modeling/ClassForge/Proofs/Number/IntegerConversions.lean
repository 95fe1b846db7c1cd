import ClassForge.Proofs.Number.RunningOperators

/-!
# Conversions between integers

A conversion keeps the low bits that the type it leads to has room for.  When it is checked it
raises an exception for a number that this type does not hold.  A number that the type holds comes
back when it is converted back.
-/

namespace ClassForge

namespace Operators

/-- The integer that a conversion to a type gives. -/
def converted (target : Prim) (checked : Bool) (number : Int) : Except ArithError Int :=
  if checked = true ∧ ¬ target.Holds number then .error .overflow else .ok (target.wrap number)

variable {target : Prim} {number : Int}

theorem converted_unchecked : converted target false number = .ok (target.wrap number) :=
  if_neg fun refused => Bool.false_ne_true refused.1

theorem converted_of_holds (holds : target.Holds number) (checked : Bool) :
    converted target checked number = .ok number := by
  rw [converted, if_neg fun refused => refused.2 holds, Prim.wrap_of_holds holds]

theorem converted_checked :
    converted target true number =
      if target.Holds number then .ok number else .error .overflow := by
  by_cases holds : target.Holds number
  · rw [if_pos holds, converted_of_holds holds]
  · rw [if_neg holds]
    exact if_pos ⟨rfl, holds⟩

/-- A conversion has no result only where the number does not fit. -/
theorem exception_of_converted {checked : Bool} {error : ArithError}
    (failed : converted target checked number = .error error) : error = .overflow := by
  unfold converted at failed
  split at failed
  · exact (Except.error.inj failed).symm
  · cases failed

end Operators

/-- The checker refuses conversions of truth values and to them, and no others between primitive
types. -/
theorem TypeContext.unaryCore_convert (typing : TypeContext) {prim target : Prim} {checked : Bool}
    {operand : Core} (isType : operand.type = .prim prim) :
    typing.unaryCore (.convert target checked) (.ok operand) =
      if prim = .bool ∨ target = .bool then
        .error (.unsupportedOperator "convert" [.prim prim, .prim target])
      else
        .ok (.apply (.prim target) (.convert target checked prim.isUnsigned) [operand]) := by
  have numeric : (TypeContext.isNumeric (.prim prim) && target != .bool) =
      decide ¬ (prim = .bool ∨ target = .bool) := by
    cases prim <;> cases target <;> rfl
  change (if TypeContext.isNumeric operand.type && target != .bool then _ else _) = _
  rw [isType, numeric]
  by_cases refused : prim = .bool ∨ target = .bool
  · rw [if_pos refused, if_neg fun accepted => absurd refused (of_decide_eq_true accepted)]
    rfl
  · rw [if_neg refused, if_pos (decide_eq_true refused)]
    rfl

namespace Arith

variable {prim target : Prim} {number : Int}

/-- The number that the value of a number stands for. -/
theorem number?_intValue (integral : prim.isIntegral = true) (holds : prim.Holds number) :
    number? prim.isUnsigned (intValue prim number) = some (.int number) := by
  cases unsigned : prim.isUnsigned with
  | false =>
      have same := Prim.toInt_word integral unsigned holds
      cases prim
      case bool | float32 | float64 => cases integral
      case char | uint8 | uint16 | uint32 | uint64 | uintPtr => cases unsigned
      all_goals exact congrArg (fun number => some (Number.int number)) same
  | true =>
      have same := Prim.toNat_word integral unsigned holds
      cases prim
      case bool | float32 | float64 => cases integral
      case int8 | int16 | int32 | int64 | intPtr => cases unsigned
      all_goals exact congrArg (fun number => some (Number.int number)) same

/-- A conversion reads the number that a value stands for with the signedness of its type, and gives
the value of the converted number. -/
theorem convert_eq (integral : prim.isIntegral = true) (toIntegral : target.isIntegral = true)
    (holds : prim.Holds number) (checked : Bool) :
    convert ⟨target, checked, prim.isUnsigned⟩ (intValue prim number) =
      (Operators.converted target checked number).map (intValue target) := by
  unfold convert
  rw [number?_intValue integral holds]
  have converts : convertInt ⟨target, checked, prim.isUnsigned⟩ number =
      if checked = true ∧ ¬ target.Holds number then .error .overflow
      else .ok (intValue target (target.wrap number)) := by
    cases target
    case bool | float32 | float64 => cases toIntegral
    all_goals rfl
  dsimp only
  rw [converts]
  unfold Operators.converted
  split <;> rfl

end Arith

namespace Machine

open FrameStep

variable {image : Image} {context : LowerContext}

/-- An instruction on one operand whose result is that of an operation on values. -/
theorem Performs.of_mapTop {instr : Instr} {action : Value → Exec Value} {operand : Value}
    {answer : Except ArithError Value} (built : image.Built)
    (isMap : ∀ position, execute image position instr = FrameStep.mapTop action)
    (computes : action operand = Exec.ofArith image answer)
    (raises : ∀ error, answer = .error error → error = .overflow) :
    Performs image context (.instr instr) [operand] answer := by
  cases answer with
  | ok value =>
      refine of_computes fun store => .mapTop isMap ?_
      rw [computes]
      rfl
  | error error =>
      obtain rfl := raises error rfl
      have written (before : Emitter) :
          (Lower.emitAll [instr]).Writes before () (before.emits [instr]) :=
        Lower.writes_emitAll.mpr rfl
      refine fun before => ⟨_, written before, ?_⟩
      intro limit seat frame placed rest store
      obtain ⟨hasCode, -⟩ := Body.hasCode_of_writes (written before) placed
      exact .inl ⟨.overflow, rfl, Seat.throws_mapTop built (hasCode 0 _ rfl) (isMap _) computes⟩

variable {prim target : Prim} {number : Int}

/-- The code of a conversion computes the converted number. -/
theorem Performs.of_conversion (built : image.Built) (integral : prim.isIntegral = true)
    (toIntegral : target.isIntegral = true) (holds : prim.Holds number) (checked : Bool) :
    Performs image context (.convert target checked prim.isUnsigned) [Arith.intValue prim number]
      ((Operators.converted target checked number).map (Arith.intValue target)) := by
  have converts := Arith.convert_eq integral toIntegral holds checked
  have computes : convert image ⟨target, checked, prim.isUnsigned⟩ (Arith.intValue prim number) =
      Exec.ofArith image
        ((Operators.converted target checked number).map (Arith.intValue target)) := by
    rw [← converts]
    cases prim <;> rfl
  refine .of_mapTop built (fun _ => rfl) computes fun error failed => ?_
  cases isConverted : Operators.converted target checked number with
  | ok result =>
      rw [isConverted] at failed
      cases failed
  | error other =>
      rw [isConverted] at failed
      cases failed
      exact Operators.exception_of_converted isConverted

/-- The code that converts a number of a type to another type is exact.  Without a check it gives
the number of the other type with the same low bits, and with a check the number itself, or the
exception of an overflow where the other type does not hold it.  A number that passes the check
comes back when it is converted back. -/
structure Converts (image : Image) (context : LowerContext) (prim target : Prim) (number : Int) :
    Prop where
  unchecked : ∃ result, target.Holds result ∧ result % target.modulus = number % target.modulus ∧
    Performs image context (.convert target false prim.isUnsigned) [Arith.intValue prim number]
      (.ok (Arith.intValue target result))
  checked : Performs image context (.convert target true prim.isUnsigned)
    [Arith.intValue prim number]
    (if target.Holds number then .ok (Arith.intValue target number) else .error .overflow)
  undone : target.Holds number → ∀ checked,
    Performs image context (.convert prim checked target.isUnsigned) [Arith.intValue target number]
      (.ok (Arith.intValue prim number))

theorem Converts.of_holds (built : image.Built) (integral : prim.isIntegral = true)
    (toIntegral : target.isIntegral = true) (holds : prim.Holds number) :
    Converts image context prim target number := by
  have performs (checked : Bool) :=
    @Performs.of_conversion image context _ _ _ built integral toIntegral holds checked
  have notBool : target ≠ .bool := by
    rintro rfl
    cases toIntegral
  refine ⟨⟨target.wrap number, Prim.holds_wrap notBool number, target.wrap_emod number, ?_⟩, ?_,
    fun fits checked => ?_⟩
  · have unchecked := performs false
    rwa [Operators.converted_unchecked] at unchecked
  · have checked := performs true
    rw [Operators.converted_checked] at checked
    split at checked
    · next fits => rwa [if_pos fits]
    · next fails => rwa [if_neg fails]
  · have back := @Performs.of_conversion image context _ _ _ built toIntegral integral fits checked
    rwa [Operators.converted_of_holds holds] at back

/-- Conversions between integers are exact.  Of the types that are not floats the checker refuses
truth values, on either side, and accepts any other conversion. -/
theorem integer_conversions (built : image.Built) (isInteger : prim.isFloat = false)
    (toInteger : target.isFloat = false) :
    (∀ (typing : TypeContext) (checked : Bool) (operand : Core), operand.type = .prim prim →
      typing.unaryCore (.convert target checked) (.ok operand) =
        if prim = .bool ∨ target = .bool then
          .error (.unsupportedOperator "convert" [.prim prim, .prim target])
        else
          .ok (.apply (.prim target) (.convert target checked prim.isUnsigned) [operand])) ∧
      (prim ≠ .bool → target ≠ .bool → ∀ number, prim.Holds number →
        Converts image context prim target number) := by
  have integral {kind : Prim} (notFloat : kind.isFloat = false) (notBool : kind ≠ .bool) :
      kind.isIntegral = true := by
    cases kind <;> first | rfl | exact (notBool rfl).elim | cases notFloat
  constructor
  · intro typing checked operand isType
    exact typing.unaryCore_convert isType
  · intro notBool toNotBool number holds
    exact .of_holds built (integral isInteger notBool) (integral toInteger toNotBool) holds

/-- The greatest unsigned 32-bit integer, which stands on the stack as -1, is no signed 32-bit
integer, and comes back from the signed 64-bit integers. -/
theorem integer_conversions_greatest :
    Prim.uint32.Holds 4294967295 ∧
      Performs .library ⟨.library, .empty, "", false⟩ (.convert .int32 true true) [.int32 (-1)]
        (.error .overflow) ∧
      Performs .library ⟨.library, .empty, "", false⟩ (.convert .int64 true true) [.int32 (-1)]
        (.ok (.int64 4294967295)) ∧
      Performs .library ⟨.library, .empty, "", false⟩ (.convert .uint32 true false)
        [.int64 4294967295] (.ok (.int32 (-1))) := by
  have holds : Prim.uint32.Holds 4294967295 := by decide
  have narrow := (@integer_conversions .library ⟨.library, .empty, "", false⟩ .uint32 .int32
    .library rfl rfl).2 (by decide) (by decide) _ holds
  have wide := (@integer_conversions .library ⟨.library, .empty, "", false⟩ .uint32 .int64
    .library rfl rfl).2 (by decide) (by decide) _ holds
  have refused := narrow.checked
  have passed := wide.checked
  rw [if_neg (by decide)] at refused
  rw [if_pos (by decide)] at passed
  exact ⟨holds, refused, passed, wide.undone (by decide) true⟩

end Machine

end ClassForge
