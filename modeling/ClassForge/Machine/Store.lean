import ClassForge.Image.Library
import ClassForge.Machine.Error

/-!
# Machine state and object model

What a running program can change: the heap, the static fields and the console
text.  Instructions run in `Exec`, which keeps the state that a broken off
instruction has reached.
-/

namespace ClassForge

/-- The state that code can change. -/
structure Store where
  heap : Heap
  statics : Array Value
  output : String
  deriving DecidableEq

/-- Computations on the state that may break off. -/
abbrev Exec := EStateM Trap Store

namespace Exec

/-- Break off because the code is malformed. -/
def malformed {α : Type} (cause : Malformation) : Exec α :=
  throw (.fatal (.invalidProgram cause))

/-- Break off when an optional value is missing. -/
def require {α : Type} (value : Option α) (cause : Malformation) : Exec α :=
  match value with
  | some value => return value
  | none => malformed cause

/-- Break off when an image refuses a request. -/
def ofImage {α : Type} (result : Except ImageError α) : Exec α :=
  match result with
  | .ok value => return value
  | .error error => throw (.fatal (.image error))

/-- The objects so far. -/
def heap : Exec Heap :=
  return (← get).heap

/-- Run a computation on the heap alone. -/
def onHeap {α : Type} (action : Heap → α × Heap) : Exec α :=
  modifyGet fun store =>
    let (result, heap) := action store.heap
    (result, { store with heap })

/-- Change the objects. -/
def modifyHeap (change : Heap → Heap) : Exec Unit :=
  modify fun store => { store with heap := change store.heap }

/-- Add an object. -/
def alloc (object : HeapObject) : Exec ObjRef :=
  onHeap fun heap => heap.alloc object

/-- Copy an instance of a value type; other values are their own copies. -/
def copy (value : Value) : Exec Value :=
  match value with
  | .struct _ => onHeap fun heap => heap.copy value
  | value => return value

end Exec

namespace Store

/-! ## Types of values -/

/-- The type of a value at run time.  Numbers and null have none; arrays count
as plain objects. -/
def typeOf? (image : Image) (heap : Heap) : Value → Option TypeHandle
  | .string _ => image.builtin? .string
  | .ref object | .struct object =>
      match heap.get? object with
      | some (.instance type _) | some (.boxed type _)
      | some (.delegate type _ _) => some type
      | some (.array _ _ _) => image.builtin? .object
      | none => none
  | _ => none

/-- Name of the type of the object behind a value. -/
def typeName? (image : Image) (heap : Heap) (value : Value) : Option Name :=
  (typeOf? image heap value).bind image.typeName?

/-- The name of the type of a value, or a description of the value. -/
def describe (image : Image) (heap : Heap) (value : Value) : String :=
  (typeName? image heap value).getD value.describe

/-- Whether a value is a number. -/
def isNumber : Value → Bool
  | .int32 _ | .int64 _ | .native _ | .float _ => true
  | _ => false

/-- Whether a value is an instance of a type.  Null is an instance of none. -/
def isInstance (image : Image) (heap : Heap) (value : Value) (type : RunTy) :
    Except ImageError Bool :=
  if value.isNull then
    .ok false
  else
    match type with
    | .array element =>
        match heap.deref? value with
        | some (.array actual _ _) => .ok (actual == element)
        | _ => .ok false
    | .builtin .object => .ok (!isNumber value)
    | type => do
        let target ← image.handleOf type
        return (typeOf? image heap value).any fun actual =>
          image.derivesFrom actual target

end Store

namespace Exec

/-- Whether a value is an instance of a type, in the objects so far. -/
def isInstance (image : Image) (value : Value) (type : RunTy) : Exec Bool := do
  ofImage (Store.isInstance image (← heap) value type)

/-! ## Allocation -/

/-- Allocate an instance of a complete type with every field at its default.
The fields of the type itself come before those of its bases. -/
def instanceWith (image : Image) (default : RunTy → StateM Heap Value)
    (handle : TypeHandle) (info : TypeInfo) : StateM Heap ObjRef := do
  let fields := (image.lineage handle).flatMap fun info =>
    ((image.fieldsOf info).map (·.2)).filter fun field => !field.attrs.isStatic
  let slots ← fields.foldlM (fun slots field => do
      let value ← default field.type
      return slots.setIfInBounds field.slot value)
    (Array.replicate info.instanceSlots Value.null)
  modifyGet fun heap => heap.alloc (.instance handle slots)

/-- The value of a variable that was never assigned, with instances of value
types nested at most `bound` deep. -/
def defaultUpTo (image : Image) : (bound : Nat) → RunTy → StateM Heap Value
  | _, .builtin (.prim prim) => return Value.zero prim
  | bound + 1, .declared handle =>
      match image.type? handle with
      | none => return .null
      | some info =>
          if info.attrs.isValueType && info.isComplete then do
            let object ← instanceWith image (defaultUpTo image bound) handle info
            return .struct object
          else
            return .null
  | _, _ => return .null

/-- The value of a variable that was never assigned: zero, a fresh instance of
a value type, or null.  The bound cuts off value types that contain themselves,
whose defaults would have no end; all others nest at most as deep as there are
types. -/
def defaultValue (image : Image) (type : RunTy) : Exec Value :=
  onHeap (defaultUpTo image (image.types.size + 1) type).run

/-- Allocate an instance with every field at its default. -/
def allocInstance (image : Image) (handle : TypeHandle) : Exec ObjRef := do
  let info ← ofImage (image.type handle)
  if info.isComplete then
    onHeap (instanceWith image (defaultUpTo image (image.types.size + 1))
      handle info).run
  else
    throw (.fatal (.notSealed info.name))

/-- Allocate the object that a constructor is to fill. -/
def allocate (image : Image) (handle : TypeHandle) : Exec Value := do
  let object ← allocInstance image handle
  return if image.isValueHandle handle then .struct object else .ref object

/-! ## Exceptions -/

/-- Slot of the message in every exception. -/
def messageSlot : Nat := 0

/-- Message of an exception that was created without one. -/
def defaultMessage (typeName : Name) : String :=
  match SystemException.all.find? fun exception => exception.typeName = typeName with
  | some exception => exception.message
  | none => "Exception of type '" ++ typeName ++ "' was thrown."

/-- Write the message of an exception. -/
def setMessage (exception : ObjRef) (message : String) : Exec Unit :=
  modifyHeap fun heap => heap.setField exception messageSlot (.string message)

/-- Raise an exception of the library. -/
def raise {α : Type} (image : Image) (exception : SystemException) : Exec α := do
  match image.typeNamed? exception.typeName with
  | none => malformed (.unknownException exception.typeName)
  | some handle =>
      let object ← allocInstance image handle
      setMessage object exception.message
      throw (.throw (.ref object))

/-- Raise the exception for an operation without a value, or break off when the
operands are of the wrong kind. -/
def ofArith {α : Type} (image : Image) (result : Except ArithError α) : Exec α :=
  match result with
  | .ok value => return value
  | .error .divideByZero => raise image .divideByZero
  | .error .overflow => raise image .overflow
  | .error (.operands op left right) => malformed (.operands op left right)
  | .error (.operand op value) => malformed (.operand op value)
  | .error (.conversion value) => malformed (.conversion value)

end Exec

namespace Store

/-- The message of an exception, empty when it has none. -/
def exceptionMessage (heap : Heap) (exception : Value) : String :=
  match heap.deref? exception with
  | some (.instance _ fields) =>
      ((fields[Exec.messageSlot]?).bind Value.string?).getD ""
  | _ => ""

/-- The state in which a program starts: every static field of a complete type
has its default. -/
def initial (image : Image) : Store :=
  let (statics, heap) := (image.fields.foldlM (fun statics field =>
      if field.attrs.isStatic && image.isComplete field.owner then do
        let value ← Exec.defaultUpTo image (image.types.size + 1) field.type
        return statics.setIfInBounds field.slot value
      else
        return statics)
    (Array.replicate image.staticCount Value.null) : StateM Heap _).run .empty
  { heap, statics, output := "" }

end Store

end ClassForge
