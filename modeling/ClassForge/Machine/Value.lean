import ClassForge.Handle
import ClassForge.Number.Layout
import ClassForge.Text.Quoted

/-!
# Run-time values

What the evaluation stack, arguments, locals and fields hold.  Truth values,
characters and integers of up to 32 bits are 32-bit integers here, and floats
of either width are 64-bit floats.
-/

namespace ClassForge

/-- Position of an object in the heap. -/
structure ObjRef where
  index : Nat
  deriving DecidableEq, Repr

/-- A run-time value. -/
inductive Value where
  | null
  | int32 (value : Int32)
  | int64 (value : Int64)
  /-- An integer of the size of an address, raw addresses included. -/
  | native (value : Int64)
  | float (value : Binary64)
  | string (value : String)
  /-- A shared object: an instance of a class, a box, an array or a function. -/
  | ref (object : ObjRef)
  /-- An instance of a value type, copied whenever it is stored or passed. -/
  | struct (object : ObjRef)
  | method (handle : MethodHandle)
  /-- The address of an array element, as an array and a byte offset. -/
  | element (array : ObjRef) (offset : Nat)
  deriving DecidableEq

namespace Value

/-- A truth value on the evaluation stack. -/
def ofBool (truth : Bool) : Value :=
  .int32 (if truth then 1 else 0)

/-- The word of 32 bits that a value is. -/
def int32? : Value → Option Int32
  | int32 value => some value
  | _ => none

/-- Any integer, as a 64-bit one. -/
def int64? : Value → Option Int64
  | int32 value => some value.toInt64
  | int64 value | native value => some value
  | _ => none

/-- The float that a value is. -/
def float? : Value → Option Binary64
  | float value => some value
  | _ => none

/-- The string that a value is. -/
def string? : Value → Option String
  | string value => some value
  | _ => none

/-- The heap object that a value refers to. -/
def object? : Value → Option ObjRef
  | ref object | struct object => some object
  | _ => none

/-- Whether a value is null. -/
def isNull : Value → Bool
  | null => true
  | _ => false

/-- Whether a conditional branch counts the value as true. -/
def isTruthy : Value → Bool
  | null => false
  | int32 value => value != 0
  | int64 value | native value => value != 0
  | float value => !value.eq .zero
  | _ => true

/-- The value of a primitive variable that was never assigned. -/
def zero : Prim → Value
  | .int64 | .uint64 => int64 0
  | .intPtr | .uintPtr => native 0
  | .float32 | .float64 => float .zero
  | _ => int32 0

/-- Short text of a value. -/
def text : Value → String
  | null => "null"
  | int32 value => toString value.toInt
  | int64 value | native value => toString value.toInt
  | float value => value.text
  | string value => value
  | ref object => "ref#" ++ toString object.index
  | struct object => "struct#" ++ toString object.index
  | method handle => "&" ++ handle.text
  | element array offset =>
      "&ref#" ++ toString array.index ++ "+" ++ toString offset

/-- Description of a value with its kind, for messages about malformed code. -/
def describe : Value → String
  | null => "Null"
  | int32 value => "I32(" ++ toString value.toInt ++ ")"
  | int64 value => "I64(" ++ toString value.toInt ++ ")"
  | native value => "Native(" ++ toString value.toInt ++ ")"
  | float value => "F(" ++ value.explicitText ++ ")"
  | string value => "Str(" ++ Quoted.encode value ++ ")"
  | ref object => "Ref(ObjRef(" ++ toString object.index ++ "))"
  | struct object => "Struct(ObjRef(" ++ toString object.index ++ "))"
  | method handle => "FnPtr(MethodHandle(" ++ toString handle.index ++ "))"
  | element array offset =>
      "ElemRef \x7b array: ObjRef(" ++ toString array.index ++ "), offset: " ++
        toString offset ++ " \x7d"

end Value

end ClassForge
