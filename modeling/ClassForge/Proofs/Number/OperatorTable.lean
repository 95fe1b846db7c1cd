import ClassForge.Typing.Operators

/-!
# The operators of integers

Which operators the checker accepts for an integer of a type, and what it selects for them.
-/

namespace ClassForge

namespace Operators

/-- The operators that combine two integers of one type in one instruction. -/
def IsArithmetic (op : BinaryOp) : Prop :=
  op ∈ [.add, .sub, .mul, .div, .rem, .bitAnd, .bitOr, .bitXor]

instance (op : BinaryOp) : Decidable (IsArithmetic op) :=
  inferInstanceAs (Decidable (op ∈ _))

/-- What an operator does with an integer of a type and one of another type: the type of the result
and the action. -/
inductive Selects : BinaryOp → Prim → Prim → SourceTy → Action → Prop
  | arithmetic {op : BinaryOp} {prim : Prim} (isOp : IsArithmetic op)
      (integer : prim.isInteger = true) :
      Selects op prim prim (.prim prim) (.instr (.arith (arithOp op prim.isUnsigned)))
  | offset {op : BinaryOp} (isOp : op = .add ∨ op = .sub) :
      Selects op .intPtr .int32 .intPtr (.instr (.arith (arithOp op false)))
  | shift {op : BinaryOp} {prim : Prim} (isOp : op = .shl ∨ op = .shr)
      (integer : prim.isInteger = true) :
      Selects op prim .int32 (.prim prim) (.instr (.arith (arithOp op prim.isUnsigned)))
  | equal {prim : Prim} : Selects .eq prim prim .bool (.instr (.compare .eq))
  | unequal {prim : Prim} : Selects .ne prim prim .bool (.code (.compare .eq :: negation))
  | order {op : BinaryOp} {prim : Prim} (isOp : op ∈ [.lt, .le, .gt, .ge]) :
      Selects op prim prim .bool (.code (comparison op prim))
  | least {prim : Prim} (sized : prim = .int32 ∨ prim = .int64) :
      Selects .min prim prim (.prim prim) (math "Min" [.prim prim, .prim prim])
  | greatest {prim : Prim} (sized : prim = .int32 ∨ prim = .int64) :
      Selects .max prim prim (.prim prim) (math "Max" [.prim prim, .prim prim])

section Selection

variable {prim other shared : Prim} {allowed : Prim → Bool} {type : SourceTy} {action : Action}
variable {op : BinaryOp}

theorem eq_of_prim? {type : SourceTy} (isPrim : type.prim? = some prim) : type = .prim prim := by
  unfold Ty.prim? at isPrim
  split at isPrim
  · cases isPrim
    rfl
  · cases isPrim

/-- Operands share a primitive type when both have it. -/
theorem of_sharedPrim? {left right : SourceTy}
    (isShared : sharedPrim? left right allowed = some shared) :
    left = .prim shared ∧ right = .prim shared ∧ allowed shared = true := by
  obtain ⟨prim, isLeft, isShared⟩ := Option.bind_eq_some_iff.mp isShared
  obtain ⟨accepted, chosen⟩ := Option.ite_none_right_eq_some.mp isShared
  cases chosen
  obtain ⟨same, isAllowed⟩ := Bool.and_eq_true_iff.mp accepted
  exact ⟨eq_of_prim? isLeft, eq_of_prim? (beq_iff_eq.mp same), isAllowed⟩

theorem sharedPrim?_prim (isShared : sharedPrim? (.prim prim) (.prim other) allowed = some shared) :
    shared = prim ∧ other = prim ∧ allowed prim = true := by
  obtain ⟨⟨⟩, ⟨⟩, isAllowed⟩ := of_sharedPrim? isShared
  exact ⟨rfl, rfl, isAllowed⟩

/-- Values of primitive types are no references. -/
theorem not_isReference (typing : TypeContext) : typing.isReference (.prim prim) = false :=
  rfl

theorem sized_of_contains (integral : prim.isIntegral = true)
    (sized : [Prim.int32, .int64, .float64].contains prim = true) : prim = .int32 ∨ prim = .int64 := by
  cases prim
  case int32 => exact .inl rfl
  case int64 => exact .inr rfl
  case float64 => cases integral
  all_goals cases sized

theorem isInteger_of_arithmetic (integral : prim.isIntegral = true)
    (arithmetic : prim.isArithmetic = true) : prim.isInteger = true := by
  cases prim
  case float32 | float64 => cases integral
  all_goals exact arithmetic

theorem isInteger_of_bitwise (integral : prim.isIntegral = true)
    (bitwise : (prim == .bool || prim.isInteger) = true) : prim.isInteger = true := by
  cases prim
  case bool => cases integral
  all_goals exact bitwise

theorem selects_of_arithmetic? (isOp : IsArithmetic op) (integral : prim.isIntegral = true)
    (selected : arithmetic? op (.prim prim) (.prim other) = some (type, action)) :
    Selects op prim other type action := by
  unfold arithmetic? at selected
  rw [if_neg (by rintro ⟨-, ⟨⟩, -⟩)] at selected
  split at selected
  · next moves =>
      obtain ⟨isMove, ⟨⟩, ⟨⟩⟩ := moves
      cases selected
      exact .offset isMove
  · obtain ⟨shared, isShared, chosen⟩ := Option.bind_eq_some_iff.mp selected
    obtain ⟨rfl, rfl, isAllowed⟩ := sharedPrim?_prim isShared
    cases chosen
    exact .arithmetic isOp (isInteger_of_arithmetic integral isAllowed)

theorem selects_of_bitwise? (isOp : op = .bitAnd ∨ op = .bitOr ∨ op = .bitXor)
    (integral : prim.isIntegral = true)
    (selected : bitwise? op (.prim prim) (.prim other) = some (type, action)) :
    Selects op prim other type action := by
  obtain ⟨shared, isShared, chosen⟩ := Option.bind_eq_some_iff.mp selected
  obtain ⟨rfl, rfl, isAllowed⟩ := sharedPrim?_prim isShared
  cases chosen
  have integer := isInteger_of_bitwise integral isAllowed
  rcases isOp with rfl | rfl | rfl
  · exact .arithmetic (by decide) integer
  · exact .arithmetic (by decide) integer
  · exact .arithmetic (by decide) integer

theorem selects_of_shift? (isOp : op = .shl ∨ op = .shr)
    (selected : shift? op (.prim prim) (.prim other) = some (type, action)) :
    Selects op prim other type action := by
  obtain ⟨accepted, chosen⟩ := Option.ite_none_right_eq_some.mp selected
  cases chosen
  obtain ⟨integer, same⟩ := Bool.and_eq_true_iff.mp accepted
  obtain rfl := Option.some.inj (beq_iff_eq.mp same)
  exact .shift isOp integer

theorem isComparable_prim {typing : TypeContext}
    (comparable : isComparable typing (.prim prim) (.prim other) = true) : other = prim := by
  unfold isComparable at comparable
  rw [not_isReference, Bool.false_and, Bool.false_and, Bool.or_false] at comparable
  obtain ⟨shared, isShared⟩ := Option.isSome_iff_exists.mp comparable
  exact (sharedPrim?_prim isShared).2.1

theorem extremum_prim {name : Name} (integral : prim.isIntegral = true)
    (selected : binary?.extremum (.prim prim) (.prim other) name = some (type, action)) :
    other = prim ∧ (prim = .int32 ∨ prim = .int64) ∧ type = .prim prim ∧
      action = math name [.prim prim, .prim prim] := by
  obtain ⟨shared, isShared, chosen⟩ := Option.map_eq_some_iff.mp selected
  obtain ⟨rfl, rfl, sized⟩ := sharedPrim?_prim isShared
  cases chosen
  exact ⟨rfl, sized_of_contains integral sized, rfl, rfl⟩

theorem selects_of_binary {typing : TypeContext} (integral : prim.isIntegral = true)
    (selected : binary typing op (.prim prim) (.prim other) = .ok (type, action)) :
    Selects op prim other type action := by
  replace selected := binary?_of_binary selected
  cases op
  case add | sub | mul | div | rem =>
    exact selects_of_arithmetic? (by decide) integral selected
  case bitAnd | bitOr | bitXor => exact selects_of_bitwise? (by decide) integral selected
  case shl => exact selects_of_shift? (.inl rfl) selected
  case shr => exact selects_of_shift? (.inr rfl) selected
  case eq =>
    obtain ⟨comparable, chosen⟩ := Option.ite_none_right_eq_some.mp selected
    obtain rfl := isComparable_prim comparable
    cases chosen
    exact .equal
  case ne =>
    obtain ⟨comparable, chosen⟩ := Option.ite_none_right_eq_some.mp selected
    obtain rfl := isComparable_prim comparable
    cases chosen
    exact .unequal
  case lt | le | gt | ge =>
    obtain ⟨shared, isShared, chosen⟩ := Option.map_eq_some_iff.mp selected
    obtain ⟨rfl, rfl, -⟩ := sharedPrim?_prim isShared
    cases chosen
    exact .order (by decide)
  case pow | atan2 =>
    obtain ⟨shared, isShared, -⟩ := Option.map_eq_some_iff.mp selected
    obtain ⟨-, -, isFloat⟩ := sharedPrim?_prim isShared
    obtain rfl := beq_iff_eq.mp isFloat
    cases integral
  case min =>
    obtain ⟨rfl, sized, rfl, rfl⟩ := extremum_prim integral selected
    exact .least sized
  case max =>
    obtain ⟨rfl, sized, rfl, rfl⟩ := extremum_prim integral selected
    exact .greatest sized

/-- The operators of one integer. -/
inductive Selects₁ : UnaryOp → Prim → Action → Prop
  | neg {prim : Prim} (integer : prim.isInteger = true) : Selects₁ .neg prim (.instr .neg)
  | bitNot {prim : Prim} (integer : prim.isInteger = true) : Selects₁ .bitNot prim (.instr .not)
  | abs {prim : Prim} (sized : prim = .int32 ∨ prim = .int64) :
      Selects₁ .abs prim (math "Abs" [.prim prim])

theorem selects₁_of_unary {op : UnaryOp} (integral : prim.isIntegral = true)
    (selected : unary op (.prim prim) = .ok (type, action)) :
    type = .prim prim ∧ Selects₁ op prim action := by
  obtain ⟨accepted, chosen⟩ := Option.ite_none_right_eq_some.mp (unary?_of_unary selected)
  cases chosen
  refine ⟨rfl, ?_⟩
  cases op
  case neg =>
    refine .neg ?_
    cases prim
    case float32 | float64 => cases integral
    case int32 | int64 | intPtr => rfl
    all_goals cases accepted
  case bitNot => exact .bitNot accepted
  case abs => exact .abs (sized_of_contains integral accepted)
  all_goals
    obtain rfl := beq_iff_eq.mp accepted
    cases integral

end Selection

end Operators

end ClassForge
