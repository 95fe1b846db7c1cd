import ClassForge.Proofs.Number.IntegerOperators
import ClassForge.Proofs.Simulation.RunningCalls

/-!
# Integer functions of the platform

`Min`, `Max` and `Abs` work on words of 64 bits.  For the integers of a type they give the integer
that they mean.
-/

namespace ClassForge

namespace Native

/-- The word of 64 bits that the functions of the platform work on. -/
theorem toInt_ofInt {value : Int} (holds : Prim.int64.Holds value) :
    (Int64.ofInt value).toInt = value :=
  @Prim.toInt_word .int64 value rfl rfl holds

section Arguments

variable {prim : Prim} (sized : prim = .int32 ∨ prim = .int64)

include sized

theorem holds_wide {value : Int} (holds : prim.Holds value) : Prim.int64.Holds value := by
  obtain ⟨low, high⟩ := holds
  rcases sized with rfl | rfl
  · exact ⟨Int.le_trans (by decide) low, Int.le_trans high (by decide)⟩
  · exact ⟨low, high⟩

theorem run_intArg {args : List Value} {index : Nat} {value : Int} (holds : prim.Holds value)
    (isArg : args[index]? = some (Arith.intValue prim value)) (store : Store) :
    (intArg args index).run store = .ok (.ofInt value) store := by
  have isWord : (Arith.intValue prim value).int64? = some (.ofInt value) := by
    rcases sized with rfl | rfl
    · exact congrArg some (Arith.toInt64_ofInt holds)
    · rfl
  unfold intArg
  rw [EStateM.run_bind, run_arg index isArg]
  dsimp only
  rw [isWord]
  rfl

theorem intResult_ofInt (value : Int) :
    intResult prim.isWide (.ofInt value) = .value (Arith.intValue prim value) := by
  rcases sized with rfl | rfl
  · exact congrArg (fun word => Outcome.value (.int32 word)) Int64.toInt32_ofInt
  · rfl

variable {image : Image} {left right : Int} (isLeft : prim.Holds left) (isRight : prim.Holds right)

include isLeft isRight

/-- Words are ordered as their integers. -/
theorem lt_ofInt : Int64.ofInt left < Int64.ofInt right ↔ left < right := by
  rw [Int64.lt_iff_toInt_lt, toInt_ofInt (holds_wide sized isLeft),
    toInt_ofInt (holds_wide sized isRight)]

theorem run_intMin (store : Store) :
    (run image (.intMin prim.isWide) [Arith.intValue prim left, Arith.intValue prim right]).run store =
      .ok (.value (Arith.intValue prim (if left ≤ right then left else right))) store := by
  unfold run
  rw [EStateM.run_bind, run_intArg sized isLeft rfl]
  dsimp only
  rw [EStateM.run_bind, run_intArg sized isRight rfl]
  dsimp only
  by_cases ordered : left ≤ right
  · rw [if_pos ordered, if_neg (mt (lt_ofInt sized isRight isLeft).mp (Int.not_lt.mpr ordered)),
      intResult_ofInt sized]
    rfl
  · rw [if_neg ordered, if_pos ((lt_ofInt sized isRight isLeft).mpr (Int.not_le.mp ordered)),
      intResult_ofInt sized]
    rfl

theorem run_intMax (store : Store) :
    (run image (.intMax prim.isWide) [Arith.intValue prim left, Arith.intValue prim right]).run store =
      .ok (.value (Arith.intValue prim (if left ≤ right then right else left))) store := by
  unfold run
  rw [EStateM.run_bind, run_intArg sized isLeft rfl]
  dsimp only
  rw [EStateM.run_bind, run_intArg sized isRight rfl]
  dsimp only
  obtain before | rfl | after := Int.lt_trichotomy left right
  · rw [if_pos (Int.le_of_lt before), if_pos ((lt_ofInt sized isLeft isRight).mpr before),
      intResult_ofInt sized]
    rfl
  · rw [ite_self, ite_self, intResult_ofInt sized]
    rfl
  · rw [if_neg (Int.not_le.mpr after),
      if_neg (mt (lt_ofInt sized isLeft isRight).mp (Int.not_lt.mpr (Int.le_of_lt after))),
      intResult_ofInt sized]
    rfl

end Arguments

section Absolute

variable {prim : Prim} (sized : prim = .int32 ∨ prim = .int64) {image : Image} {value : Int}
variable (holds : prim.Holds value)

include sized holds

theorem ofInt_eq_minValue : Int64.ofInt value = Int64.ofInt prim.minValue ↔ value = prim.minValue := by
  have least : prim.Holds prim.minValue := by
    rcases sized with rfl | rfl <;> decide
  refine ⟨fun same => ?_, congrArg Int64.ofInt⟩
  rw [← toInt_ofInt (holds_wide sized holds), same, toInt_ofInt (holds_wide sized least)]

theorem abs_ofInt : (if Int64.ofInt value < 0 then -Int64.ofInt value else Int64.ofInt value) =
    Int64.ofInt value.natAbs := by
  have zero : prim.Holds 0 := by
    rcases sized with rfl | rfl <;> decide
  have isNegative := lt_ofInt sized holds zero
  rw [show Int64.ofInt 0 = 0 from rfl] at isNegative
  by_cases negative : value < 0
  · rw [if_pos (isNegative.mpr negative), ← Int64.ofInt_neg, Int.ofNat_natAbs_of_nonpos
      (Int.le_of_lt negative)]
  · rw [if_neg (mt isNegative.mp negative), Int.natAbs_of_nonneg (Int.not_lt.mp negative)]

/-- The least integer has no absolute value in its type. -/
theorem run_intAbs (store : Store) :
    (run image (.intAbs prim.isWide) [Arith.intValue prim value]).run store =
      if value = prim.minValue then (Exec.raise image .overflow).run store
      else .ok (.value (Arith.intValue prim value.natAbs)) store := by
  have isSame : (if prim.isWide = true then Int64.ofInt value
      else (Int64.ofInt value).toInt32.toInt64) = Int64.ofInt value := by
    rcases sized with rfl | rfl
    · rw [if_neg (by decide), Int64.toInt32_ofInt, Arith.toInt64_ofInt holds]
    · rfl
  have isLeast : (if prim.isWide = true then Int64.minValue else Int32.minValue.toInt64) =
      Int64.ofInt prim.minValue := by
    rcases sized with rfl | rfl <;> decide
  unfold run
  rw [EStateM.run_bind, run_intArg sized holds rfl]
  dsimp only
  rw [isSame, isLeast, abs_ofInt sized holds, intResult_ofInt sized]
  by_cases least : value = prim.minValue
  · rw [if_pos least, if_pos ((ofInt_eq_minValue sized holds).mpr least)]
  · rw [if_neg least, if_neg (mt (ofInt_eq_minValue sized holds).mp least)]
    rfl

end Absolute

end Native

namespace Image

/-- A method of the library without a body that needs no receiver and has a result. -/
def isRoutine (native : Native) (count : Nat) (method : MethodInfo) : Bool :=
  method.attrs.isStatic && method.params.length == count && !method.ret.isVoid &&
    method.implementation == .native native

/-- The method of the mathematics class that a name and operand types lead to. -/
def mathMethod? (image : Image) (name : Name) (operands : List RunTy) : Option MethodInfo :=
  (image.resolveMethod (.builtin (.named Platform.math)) name false operands).toOption.bind image.method?

/-- The integer functions of the library. -/
theorem library_math : ∀ prim ∈ [Prim.int32, .int64],
    ((library.mathMethod? "Min" [.prim prim, .prim prim]).any (isRoutine (.intMin prim.isWide) 2) &&
      (library.mathMethod? "Max" [.prim prim, .prim prim]).any (isRoutine (.intMax prim.isWide) 2) &&
      (library.mathMethod? "Abs" [.prim prim]).any (isRoutine (.intAbs prim.isWide) 1)) = true := by
  decide +kernel

end Image

end ClassForge
