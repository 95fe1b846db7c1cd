import ClassForge.Number.Binary
import ClassForge.Ty

/-!
# Literals

Constants that an expression can hold.  Each kind of number has its own
constructor over the integers of its width, so no literal is out of range.
-/

namespace ClassForge

/-- A constant value. -/
inductive Literal where
  | bool (value : Bool)
  | char (value : Char)
  | int8 (value : Int8)
  | uint8 (value : UInt8)
  | int16 (value : Int16)
  | uint16 (value : UInt16)
  | int32 (value : Int32)
  | uint32 (value : UInt32)
  | int64 (value : Int64)
  | uint64 (value : UInt64)
  | intPtr (value : Int64)
  | float32 (value : Binary32)
  | float64 (value : Binary64)
  | string (value : String)
  /-- The null reference of a reference type. -/
  | null (type : SourceTy)
  deriving DecidableEq

/-- The literal of a type for characters or integers, reduced to its width.  The
other types have none. -/
def Literal.ofInt? (type : Prim) (value : Int) : Option Literal :=
  match type with
  | .char => some (char (.ofNat value.toNat))
  | .int8 => some (int8 (.ofInt value))
  | .uint8 => some (uint8 (.ofInt value))
  | .int16 => some (int16 (.ofInt value))
  | .uint16 => some (uint16 (.ofInt value))
  | .int32 => some (int32 (.ofInt value))
  | .uint32 => some (uint32 (.ofInt value))
  | .int64 => some (int64 (.ofInt value))
  | .uint64 => some (uint64 (.ofInt value))
  | .intPtr => some (intPtr (.ofInt value))
  | .bool | .uintPtr | .float32 | .float64 => none

/-- The type of a literal. -/
def Literal.type : Literal → SourceTy
  | bool _ => .prim .bool
  | char _ => .prim .char
  | int8 _ => .prim .int8
  | uint8 _ => .prim .uint8
  | int16 _ => .prim .int16
  | uint16 _ => .prim .uint16
  | int32 _ => .prim .int32
  | uint32 _ => .prim .uint32
  | int64 _ => .prim .int64
  | uint64 _ => .prim .uint64
  | intPtr _ => .prim .intPtr
  | float32 _ => .prim .float32
  | float64 _ => .prim .float64
  | string _ => .string
  | null type => type

end ClassForge
