import ClassForge.Key

/-!
# Members that code refers to

A checked expression refers to fields, methods and constructors by their
declarations.  When the owner is a declared type, the declaration has a key and
its handle is known once it has been built; otherwise the platform knows it.
-/

namespace ClassForge

/-- A method or constructor that a call refers to. -/
structure Callee where
  /-- The type that declares the member; it may be a base of the receiver. -/
  owner : SourceTy
  name : Name
  isInstance : Bool
  isVirtual : Bool
  params : List SourceTy
  ret : SourceTy
  deriving DecidableEq

/-- A field that an access refers to. -/
structure FieldTarget where
  owner : SourceTy
  name : Name
  type : SourceTy
  isStatic : Bool
  deriving DecidableEq

namespace Callee

/-- The key of a method of a declared type. -/
def methodKey? (callee : Callee) : Option MethodKey :=
  callee.owner.declared?.map fun owner =>
    { owner, name := callee.name, isInstance := callee.isInstance,
      params := callee.params }

/-- The key of a constructor of a declared type. -/
def ctorKey? (callee : Callee) : Option CtorKey :=
  callee.owner.declared?.map fun owner => { owner, params := callee.params }

end Callee

/-- The key of a field of a declared type. -/
def FieldTarget.key? (field : FieldTarget) : Option FieldKey :=
  field.owner.declared?.map fun owner =>
    { owner, name := field.name, type := field.type }

/-- What a member node does with its operands, which include the receiver of an
instance member. -/
inductive MemberUse where
  | loadField (field : FieldTarget)
  | storeField (field : FieldTarget)
  | call (callee : Callee)
  /-- Write a property; the write is never the last act of its caller. -/
  | write (setter : Callee)
  | new (ctor : Callee)
  deriving DecidableEq

/-- The key of the member, when its owner is a declared type. -/
def MemberUse.key? : MemberUse → Option Key
  | loadField field | storeField field => field.key?.map .field
  | call callee | write callee => callee.methodKey?.map .method
  | new ctor => ctor.ctorKey?.map .ctor

end ClassForge
