import ClassForge.Machine.Value

/-!
# The heap

Objects are added to the heap and never removed, so a reference to an object
stays valid.  Instances of value types live in the heap too; storing or passing
one makes a copy.
-/

namespace ClassForge

/-- The elements of an array. -/
inductive ArrayData where
  /-- Primitive elements, least significant byte first. -/
  | bytes (prim : Prim) (content : Array UInt8)
  | values (items : Array Value)
  deriving DecidableEq

/-- An object in the heap. -/
inductive HeapObject where
  | instance (type : TypeHandle) (fields : Array Value)
  /-- A value behind a reference. -/
  | boxed (type : TypeHandle) (value : Value)
  /-- An array, with the number of pinned locals that point into it, which has no
  largest value to stop at. -/
  | array (element : RunTy) (data : ArrayData) (pins : Nat)
  /-- A function: a method with the receiver that it was made with. -/
  | delegate (type : TypeHandle) (target : Value) (method : MethodHandle)
  deriving DecidableEq

/-- All objects, in the order of allocation.  There is no bound on their number;
references of 32 bits name the same objects as long as there are fewer than 2 ^ 32. -/
structure Heap where
  objects : Array HeapObject
  deriving DecidableEq

/-- Number of elements. -/
def ArrayData.size : ArrayData → Nat
  | bytes prim content => content.size / prim.size
  | values items => items.size

namespace Heap

/-- The heap without objects. -/
def empty : Heap := ⟨#[]⟩

/-- Number of objects. -/
def size (heap : Heap) : Nat :=
  heap.objects.size

/-- The object that a reference names. -/
def get? (heap : Heap) (ref : ObjRef) : Option HeapObject :=
  heap.objects[ref.index]?

/-- Add an object. -/
def alloc (heap : Heap) (object : HeapObject) : ObjRef × Heap :=
  (⟨heap.objects.size⟩, ⟨heap.objects.push object⟩)

/-- Change an object in place. -/
def modify (heap : Heap) (ref : ObjRef) (change : HeapObject → HeapObject) :
    Heap :=
  ⟨heap.objects.modify ref.index change⟩

/-- Replace a field of an instance; anything else stays as it is. -/
def setField (heap : Heap) (ref : ObjRef) (slot : Nat) (value : Value) : Heap :=
  heap.modify ref fun
    | .instance type fields => .instance type (fields.setIfInBounds slot value)
    | object => object

/-- The object that a value refers to. -/
def deref? (heap : Heap) (value : Value) : Option HeapObject :=
  value.object?.bind heap.get?

/-- Copy a value, following instances of value types at most `bound` deep. -/
def copyUpTo : (bound : Nat) → Value → StateM Heap Value
  | bound + 1, .struct ref => do
      match (← get).get? ref with
      | some (.instance type fields) =>
          let fields ← fields.toList.mapM (copyUpTo bound)
          let copy ← modifyGet fun heap => heap.alloc (.instance type fields.toArray)
          return .struct copy
      | _ => return .struct ref
  | _, value => return value

/-- Copy an instance of a value type, and the instances inside it, so that the
copy shares nothing with it; other values are their own copies.  An instance
nests at most as deep as there are objects. -/
def copy (heap : Heap) (value : Value) : Value × Heap :=
  (copyUpTo (heap.size + 1) value).run heap

/-- Whether some array is pinned. -/
def hasPins (heap : Heap) : Bool :=
  heap.objects.any fun
    | .array _ _ pins => 0 < pins
    | _ => false

end Heap

end ClassForge
