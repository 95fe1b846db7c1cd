import ClassForge.Core.Action
import ClassForge.Operator
import ClassForge.Typing.Context

/-!
# Operators and their types

The result type and the action of an operator on operands of given types.  The
operand types have to be equal, except that an address can be moved by a 32-bit
offset and that the second operand of a shift is always a 32-bit integer.
Division, remainder, right shift and comparison follow the signedness of the
operands.
-/

namespace ClassForge

/-- Result type and action of an operator. -/
abbrev OperatorMeaning := SourceTy × Action

namespace Prim

/-- Integers that have arithmetic. -/
def isInteger (prim : Prim) : Bool :=
  [int32, uint32, int64, uint64, intPtr, uintPtr].contains prim

/-- Numbers that have arithmetic. -/
def isArithmetic (prim : Prim) : Bool :=
  prim.isInteger || prim.isFloat

/-- Types with an order: everything but truth values. -/
def isOrdered (prim : Prim) : Bool :=
  prim != .bool

end Prim

namespace Operators

/-- The code that turns a truth value into its opposite. -/
def negation : List Instr :=
  [.const (.int32 0), .compare .eq]

/-- A routine on the operands that the mathematics class of the platform has. -/
def math (name : Name) (operands : List SourceTy) : Action :=
  .routine (.named Platform.math) name operands

/-- The primitive type of both operands, when they have the same and it is
allowed. -/
def sharedPrim? (left right : SourceTy) (allowed : Prim → Bool) : Option Prim := do
  let prim ← left.prim?
  if right.isPrim prim && allowed prim then some prim else none

/-- The instruction of an arithmetic or bit operator. -/
def arithOp (op : BinaryOp) (isUnsigned : Bool) : ArithOp :=
  match op with
  | .add => .add
  | .sub => .sub
  | .mul => .mul
  | .div => if isUnsigned then .divUnsigned else .div
  | .rem => if isUnsigned then .remUnsigned else .rem
  | .bitAnd => .and
  | .bitOr => .or
  | .bitXor => .xor
  | .shl => .shl
  | _ => if isUnsigned then .shrUnsigned else .shr

/-- The code of an order comparison.  `<=` and `>=` are the negations of the
opposite strict comparisons; for floats the negated comparison is the one that
also holds when an operand is not a number, so that such an operand makes every
comparison false. -/
def comparison (op : BinaryOp) (prim : Prim) : List Instr :=
  let unordered := prim.isUnsigned || prim.isFloat
  match op with
  | .lt => [.compare (if prim.isUnsigned then .ltUnsigned else .lt)]
  | .gt => [.compare (if prim.isUnsigned then .gtUnsigned else .gt)]
  | .le => .compare (if unordered then .gtUnsigned else .gt) :: negation
  | _ => .compare (if unordered then .ltUnsigned else .lt) :: negation

/-- Meaning of an arithmetic operator. -/
def arithmetic? (op : BinaryOp) (left right : SourceTy) : Option OperatorMeaning :=
  if op = .add ∧ left = .string ∧ right = .string then
    some (.string, .routine .string "Concat" [.string, .string])
  else if (op = .add ∨ op = .sub) ∧ left = .intPtr ∧ right = .int32 then
    some (.intPtr, .instr (.arith (arithOp op false)))
  else do
    let prim ← sharedPrim? left right Prim.isArithmetic
    return (left, .instr (.arith (arithOp op prim.isUnsigned)))

/-- Meaning of a bit operator. -/
def bitwise? (op : BinaryOp) (left right : SourceTy) : Option OperatorMeaning := do
  let _ ← sharedPrim? left right fun prim => prim == .bool || prim.isInteger
  return (left, .instr (.arith (arithOp op false)))

/-- Meaning of a shift. -/
def shift? (op : BinaryOp) (left right : SourceTy) : Option OperatorMeaning := do
  let prim ← left.prim?
  if prim.isInteger && right.isPrim .int32 then
    some (left, .instr (.arith (arithOp op prim.isUnsigned)))
  else
    none

/-- Whether two operands can be compared for equality: values of one primitive
type, or references of related types. -/
def isComparable (context : TypeContext) (left right : SourceTy) : Bool :=
  (sharedPrim? left right fun _ => true).isSome ||
    (context.isReference left && context.isReference right &&
      context.areRelated left right)

/-- Meaning of a binary operator on operands of two types, if it has one. -/
def binary? (context : TypeContext) (op : BinaryOp) (left right : SourceTy) :
    Option OperatorMeaning :=
  match op with
  | .add | .sub | .mul | .div | .rem => arithmetic? op left right
  | .bitAnd | .bitOr | .bitXor => bitwise? op left right
  | .shl | .shr => shift? op left right
  | .eq =>
      if isComparable context left right then
        some (.bool, .instr (.compare .eq))
      else
        none
  | .ne =>
      if isComparable context left right then
        some (.bool, .code (.compare .eq :: negation))
      else
        none
  | .lt | .le | .gt | .ge =>
      (sharedPrim? left right Prim.isOrdered).map fun prim =>
        (.bool, .code (comparison op prim))
  | .pow => floating "Pow"
  | .atan2 => floating "Atan2"
  | .min => extremum "Min"
  | .max => extremum "Max"
where
  floating (name : Name) : Option OperatorMeaning :=
    (sharedPrim? left right (· == .float64)).map fun _ =>
      (left, math name [left, right])
  extremum (name : Name) : Option OperatorMeaning :=
    (sharedPrim? left right [.int32, .int64, .float64].contains).map fun _ =>
      (left, math name [left, right])

/-- Primitive operands that a unary operator takes. -/
def takes (op : UnaryOp) (prim : Prim) : Bool :=
  match op with
  | .neg => [.int32, .int64, .intPtr, .float32, .float64].contains prim
  | .bitNot => prim.isInteger
  | .not => prim == .bool
  | .abs => [.int32, .int64, .float64].contains prim
  | _ => prim == .float64

/-- What a unary operator does with an operand that it takes. -/
def unaryAction (op : UnaryOp) (operand : SourceTy) : Action :=
  match op with
  | .neg => .instr .neg
  | .bitNot => .instr .not
  | .not => .code negation
  | .abs => math "Abs" [operand]
  | .sqrt => math "Sqrt" [operand]
  | .sin => math "Sin" [operand]
  | .cos => math "Cos" [operand]
  | .tan => math "Tan" [operand]
  | .exp => math "Exp" [operand]
  | .log => math "Log" [operand]
  | .floor => math "Floor" [operand]
  | .ceiling => math "Ceiling" [operand]

/-- Meaning of a unary operator on an operand of a type, if it has one. -/
def unary? (op : UnaryOp) (operand : SourceTy) : Option OperatorMeaning := do
  let prim ← operand.prim?
  if takes op prim then some (operand, unaryAction op operand) else none

/-- Meaning of a binary operator. -/
def binary (context : TypeContext) (op : BinaryOp) (left right : SourceTy) :
    Except Diagnostic OperatorMeaning :=
  match binary? context op left right with
  | some meaning => .ok meaning
  | none => .error (.unsupportedOperator op.symbol [left, right])

/-- Meaning of a unary operator. -/
def unary (op : UnaryOp) (operand : SourceTy) : Except Diagnostic OperatorMeaning :=
  match unary? op operand with
  | some meaning => .ok meaning
  | none => .error (.unsupportedOperator op.symbol [operand])

/-- An accepted operator has the meaning that is selected. -/
theorem binary?_of_binary {context : TypeContext} {op : BinaryOp} {left right : SourceTy}
    {meaning : OperatorMeaning} (selected : binary context op left right = .ok meaning) :
    binary? context op left right = some meaning := by
  unfold binary at selected
  split at selected
  · next found => rw [found, Except.ok.inj selected]
  · cases selected

theorem unary?_of_unary {op : UnaryOp} {operand : SourceTy} {meaning : OperatorMeaning}
    (selected : unary op operand = .ok meaning) : unary? op operand = some meaning := by
  unfold unary at selected
  split at selected
  · next found => rw [found, Except.ok.inj selected]
  · cases selected

end Operators

end ClassForge
