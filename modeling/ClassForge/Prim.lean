/-!
# Primitive types

The fourteen primitive value types that the instruction set understands, with
the facts about them that the rest of the library asks for: size, signedness,
the range of the integers, and the way an integer is reduced into that range.
-/

namespace ClassForge

/-- A primitive value type.  The order of the constructors is the order of the
types wherever types are sorted. -/
inductive Prim where
  | bool
  | char
  | int8
  | uint8
  | int16
  | uint16
  | int32
  | uint32
  | int64
  | uint64
  | intPtr
  | uintPtr
  | float32
  | float64
  deriving DecidableEq, Repr

namespace Prim

/-- Every primitive type, in order. -/
def all : List Prim :=
  [bool, char, int8, uint8, int16, uint16, int32, uint32, int64, uint64,
    intPtr, uintPtr, float32, float64]

/-- Every primitive type is listed. -/
theorem mem_all (prim : Prim) : prim ∈ all := by
  cases prim <;> decide

/-- Position of a primitive type in the order of all of them. -/
def rank (prim : Prim) : Nat :=
  all.idxOf prim

/-- The platform's name of a primitive type. -/
def name : Prim → String
  | bool => "Boolean"
  | char => "Char"
  | int8 => "SByte"
  | uint8 => "Byte"
  | int16 => "Int16"
  | uint16 => "UInt16"
  | int32 => "Int32"
  | uint32 => "UInt32"
  | int64 => "Int64"
  | uint64 => "UInt64"
  | intPtr => "IntPtr"
  | uintPtr => "UIntPtr"
  | float32 => "Single"
  | float64 => "Double"

/-- The primitive type of a platform name. -/
def ofName? (text : String) : Option Prim :=
  all.find? fun prim => prim.name = text

/-- The short name that tools write a primitive type with. -/
def shortName : Prim → String
  | bool => "bool"
  | char => "char"
  | int8 => "i8"
  | uint8 => "u8"
  | int16 => "i16"
  | uint16 => "u16"
  | int32 => "i32"
  | uint32 => "u32"
  | int64 => "i64"
  | uint64 => "u64"
  | intPtr => "intptr"
  | uintPtr => "uintptr"
  | float32 => "f32"
  | float64 => "f64"

/-- The primitive type of a short name. -/
def ofShortName? (text : String) : Option Prim :=
  all.find? fun prim => prim.shortName = text

/-- Bytes that one element occupies in memory. -/
def size : Prim → Nat
  | bool | int8 | uint8 => 1
  | char | int16 | uint16 => 2
  | int32 | uint32 | float32 => 4
  | int64 | uint64 | intPtr | uintPtr | float64 => 8

theorem size_pos (prim : Prim) : 0 < prim.size := by
  cases prim <;> decide

/-- Bits that one element occupies in memory. -/
def width (prim : Prim) : Nat :=
  8 * prim.size

/-- Integers and characters, but neither truth values nor floats. -/
def isIntegral : Prim → Bool
  | bool | float32 | float64 => false
  | _ => true

/-- Whether a primitive type is one of floats. -/
def isFloat : Prim → Bool
  | float32 | float64 => true
  | _ => false

/-- Types whose memory form is read with zero extension. -/
def isUnsigned : Prim → Bool
  | char | uint8 | uint16 | uint32 | uint64 | uintPtr => true
  | _ => false

/-- Types whose arrays may be pinned. -/
def isPinnable : Prim → Bool
  | bool | char => false
  | _ => true

/-- Integers that occupy a 64-bit stack slot. -/
def isWide : Prim → Bool
  | int64 | uint64 | intPtr | uintPtr => true
  | _ => false

/-- Integers of the size of an address. -/
def isPointer : Prim → Bool
  | intPtr | uintPtr => true
  | _ => false

/-- Least integer of the type.  Floats have no use for it. -/
def minValue (prim : Prim) : Int :=
  if prim.isUnsigned || prim == bool then 0 else -(Nat.pow 2 (prim.width - 1) : Nat)

/-- Greatest integer of the type.  Floats have no use for it. -/
def maxValue (prim : Prim) : Int :=
  if prim == bool then 1
  else if prim.isUnsigned then (Nat.pow 2 prim.width : Nat) - 1
  else (Nat.pow 2 (prim.width - 1) : Nat) - 1

/-- Whether an integer lies in the range of the type. -/
def Holds (prim : Prim) (value : Int) : Prop :=
  prim.minValue ≤ value ∧ value ≤ prim.maxValue

instance (prim : Prim) (value : Int) : Decidable (prim.Holds value) :=
  inferInstanceAs (Decidable (_ ∧ _))

/-- Keep the low bits that the type has room for, and read them back with the
signedness of the type. -/
def wrap (prim : Prim) (value : Int) : Int :=
  if prim.isUnsigned || prim == bool then value % (Nat.pow 2 prim.width : Nat)
  else value.bmod (Nat.pow 2 prim.width)

end Prim

end ClassForge
