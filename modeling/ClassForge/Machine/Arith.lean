import ClassForge.Code.Instr
import ClassForge.Machine.Memory

/-!
# Arithmetic

Arithmetic, comparison and conversion of run-time values.  The operands of an
instruction have to be of the same kind, except that an integer of the size of
an address combines with a 32-bit integer.
-/

namespace ClassForge

/-- Why an operation has no value. -/
inductive ArithError where
  | divideByZero
  | overflow
  /-- An operation with two operands of the wrong kinds. -/
  | operands (op : String) (left right : Value)
  /-- An operation with one operand of the wrong kind. -/
  | operand (op : String) (value : Value)
  | conversion (value : Value)
  deriving DecidableEq

namespace Arith

/-- Two integers of one kind. -/
inductive IntPair where
  | narrow (left right : Int32)
  | wide (left right : Int64)
  | native (left right : Int64)

/-- Bring two integers to one kind. -/
def intPair? : Value → Value → Option IntPair
  | .int32 left, .int32 right => some (.narrow left right)
  | .int64 left, .int64 right => some (.wide left right)
  | .native left, .native right => some (.native left right)
  | .native left, .int32 right => some (.native left right.toInt64)
  | .int32 left, .native right => some (.native left.toInt64 right)
  | _, _ => none

/-- Arithmetic on 32-bit integers. -/
def narrow (op : ArithOp) (x y : Int32) : Except ArithError Int32 :=
  match op with
  | .add => .ok (x + y)
  | .sub => .ok (x - y)
  | .mul => .ok (x * y)
  | .div =>
      if y = 0 then .error .divideByZero
      else if x = Int32.minValue ∧ y = -1 then .error .overflow
      else .ok (x / y)
  | .rem =>
      if y = 0 then .error .divideByZero
      else if x = Int32.minValue ∧ y = -1 then .error .overflow
      else .ok (x % y)
  | .divUnsigned =>
      if y = 0 then .error .divideByZero
      else .ok (x.toUInt32 / y.toUInt32).toInt32
  | .remUnsigned =>
      if y = 0 then .error .divideByZero
      else .ok (x.toUInt32 % y.toUInt32).toInt32
  | .and => .ok (x &&& y)
  | .or => .ok (x ||| y)
  | .xor => .ok (x ^^^ y)
  | .shl => .ok (x <<< y)
  | .shr => .ok (x >>> y)
  | .shrUnsigned => .ok (x.toUInt32 >>> y.toUInt32).toInt32

/-- Arithmetic on 64-bit integers. -/
def wide (op : ArithOp) (x y : Int64) : Except ArithError Int64 :=
  match op with
  | .add => .ok (x + y)
  | .sub => .ok (x - y)
  | .mul => .ok (x * y)
  | .div =>
      if y = 0 then .error .divideByZero
      else if x = Int64.minValue ∧ y = -1 then .error .overflow
      else .ok (x / y)
  | .rem =>
      if y = 0 then .error .divideByZero
      else if x = Int64.minValue ∧ y = -1 then .error .overflow
      else .ok (x % y)
  | .divUnsigned =>
      if y = 0 then .error .divideByZero
      else .ok (x.toUInt64 / y.toUInt64).toInt64
  | .remUnsigned =>
      if y = 0 then .error .divideByZero
      else .ok (x.toUInt64 % y.toUInt64).toInt64
  | .and => .ok (x &&& y)
  | .or => .ok (x ||| y)
  | .xor => .ok (x ^^^ y)
  | .shl => .ok (x <<< y)
  | .shr => .ok (x >>> y)
  | .shrUnsigned => .ok (x.toUInt64 >>> y.toUInt64).toInt64

/-- Arithmetic on floats, where it is defined. -/
def real? (op : ArithOp) (x y : Binary64) : Option Binary64 :=
  match op with
  | .add => some (x.add y)
  | .sub => some (x.sub y)
  | .mul => some (x.mul y)
  | .div => some (x.div y)
  | .rem => some (x.rem y)
  | _ => none

/-- Whether an operation shifts bits. -/
def isShift : ArithOp → Bool
  | .shl | .shr | .shrUnsigned => true
  | _ => false

/-- A shift; the amount is a 32-bit integer, whatever is shifted. -/
def shift (op : ArithOp) (value amount : Value) : Except ArithError Value :=
  match value, amount with
  | .int32 x, .int32 y => (narrow op x y).map .int32
  | .int64 x, .int32 y => (wide op x y.toInt64).map .int64
  | .native x, .int32 y => (wide op x y.toInt64).map .native
  | _, _ => .error (.operands op.mnemonic value amount)

/-- Arithmetic on two values. -/
def binary (op : ArithOp) (left right : Value) : Except ArithError Value :=
  if isShift op then
    shift op left right
  else
    match left, right with
    | .float x, .float y =>
        match real? op x y with
        | some z => .ok (.float z)
        | none => .error (.operands op.mnemonic left right)
    | _, _ =>
        match intPair? left right with
        | some (.narrow x y) => (narrow op x y).map .int32
        | some (.wide x y) => (wide op x y).map .int64
        | some (.native x y) => (wide op x y).map .native
        | none => .error (.operands op.mnemonic left right)

/-- Arithmetic negation. -/
def neg : Value → Except ArithError Value
  | .int32 x => .ok (.int32 (-x))
  | .int64 x => .ok (.int64 (-x))
  | .native x => .ok (.native (-x))
  | .float x => .ok (.float x.neg)
  | value => .error (.operand "neg" value)

/-- Bitwise complement. -/
def not : Value → Except ArithError Value
  | .int32 x => .ok (.int32 (~~~x))
  | .int64 x => .ok (.int64 (~~~x))
  | .native x => .ok (.native (~~~x))
  | value => .error (.operand "not" value)

/-! ## Comparison -/

/-- Compare floats; `.gtUnsigned` and `.ltUnsigned` also hold of unordered ones. -/
def compareReal (op : CompareOp) (x y : Binary64) : Bool :=
  let unordered := x.isNaN || y.isNaN
  match op with
  | .eq => x.eq y
  | .gt => y.lt x
  | .gtUnsigned => unordered || y.lt x
  | .lt => x.lt y
  | .ltUnsigned => unordered || x.lt y

/-- Compare words of 32 bits. -/
def compareNarrow (op : CompareOp) (x y : Int32) : Bool :=
  match op with
  | .eq => x == y
  | .gt => y < x
  | .gtUnsigned => y.toUInt32 < x.toUInt32
  | .lt => x < y
  | .ltUnsigned => x.toUInt32 < y.toUInt32

/-- Compare words of 64 bits. -/
def compareWide (op : CompareOp) (x y : Int64) : Bool :=
  match op with
  | .eq => x == y
  | .gt => y < x
  | .gtUnsigned => y.toUInt64 < x.toUInt64
  | .lt => x < y
  | .ltUnsigned => x.toUInt64 < y.toUInt64

/-- Equality of references: strings by content, other objects by identity, and
never an instance of a value type. -/
def sameReference : Value → Value → Bool
  | .null, .null => true
  | .string x, .string y => x == y
  | .ref x, .ref y => x == y
  | .method x, .method y => x == y
  | _, _ => false

/-- Comparison of two values.  References can be tested for equality, and for
not being null by an unsigned comparison with null. -/
def compare (op : CompareOp) (left right : Value) : Except ArithError Bool :=
  match left, right with
  | .float x, .float y => .ok (compareReal op x y)
  | _, _ =>
      match intPair? left right with
      | some (.narrow x y) => .ok (compareNarrow op x y)
      | some (.wide x y) => .ok (compareWide op x y)
      | some (.native x y) => .ok (compareWide op x y)
      | none =>
          match op with
          | .eq => .ok (sameReference left right)
          | .gtUnsigned => .ok (!left.isNull && right.isNull)
          | _ => .error (.operands op.mnemonic left right)

/-! ## Conversion -/

/-- A number on the way from one type to another. -/
inductive Number where
  | int (value : Int)
  | real (value : Binary64)

/-- The number that a value stands for. -/
def number? (unsigned : Bool) : Value → Option Number
  | .int32 x => some (.int (if unsigned then x.toUInt32.toNat else x.toInt))
  | .int64 x | .native x =>
      some (.int (if unsigned then x.toUInt64.toNat else x.toInt))
  | .float x => some (.real x)
  | _ => none

/-- The run-time value of an integer of a primitive type. -/
def intValue (prim : Prim) (value : Int) : Value :=
  match prim with
  | .int64 | .uint64 => .int64 (Int64.ofInt value)
  | .intPtr | .uintPtr => .native (Int64.ofInt value)
  | .bool => Value.ofBool (value != 0)
  | _ => .int32 (Int32.ofInt value)

/-- Convert an integer. -/
def convertInt (conversion : Conversion) (value : Int) :
    Except ArithError Value :=
  let target := conversion.target
  match target with
  | .float32 => .ok (.float (Binary32.ofInt value).toBinary64)
  | .float64 => .ok (.float (Binary64.ofInt value))
  | .bool => .ok (Value.ofBool (value != 0))
  | _ =>
      if conversion.checked ∧ ¬ target.Holds value then .error .overflow
      else .ok (intValue target (target.wrap value))

/-- Whether the float of a whole number lies between the floats of the least
and of the greatest value of a type.  The greatest value of a 64-bit type is no
float, so the float above it passes too. -/
def fits (target : Prim) (whole : Int) : Bool :=
  let value := Binary64.ofInt whole
  !value.lt (.ofInt target.minValue) && !(Binary64.ofInt target.maxValue).lt value

/-- Bring an integer into the range of a type by moving it to the nearer
end. -/
def clamp (target : Prim) (value : Int) : Int :=
  max target.minValue (min target.maxValue value)

/-- Convert a float.  An integer target takes its whole part, and where that is
out of range the nearer end of the range. -/
def convertReal (conversion : Conversion) (value : Binary64) :
    Except ArithError Value :=
  let target := conversion.target
  match target with
  | .float32 => .ok (.float value.roundSingle)
  | .float64 => .ok (.float value)
  | _ =>
      let (inRange, whole) : Bool × Int :=
        match value.whole with
        | .nan => (false, clamp target 0)
        | .below => (false, target.minValue)
        | .above => (false, target.maxValue)
        | .int whole => (fits target whole, clamp target whole)
      if conversion.checked && !inRange then .error .overflow
      else .ok (intValue target (target.wrap whole))

/-- Convert a value to a primitive type. -/
def convert (conversion : Conversion) (value : Value) : Except ArithError Value :=
  match number? conversion.unsignedSource value with
  | some (.int x) => convertInt conversion x
  | some (.real x) => convertReal conversion x
  | none => .error (.conversion value)

end Arith

end ClassForge
