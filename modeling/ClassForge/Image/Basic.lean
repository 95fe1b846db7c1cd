import ClassForge.Attributes
import ClassForge.Code.Body
import ClassForge.Image.Error
import ClassForge.Image.Native

/-!
# Images

An image holds every type that the machine knows, with the members of each:
those of the platform library and those that a compilation has declared.  Types
and members live in tables and are named by their positions.  A declared type
is open at first and takes members and code; once it is completed its fields
have slots and nothing about it changes any more.

Generic definitions are erased: all instantiations of a definition with the
same number of arguments share one entry.
-/

namespace ClassForge

/-- Where a type came from. -/
inductive Origin where
  | builtin (builtin : Builtin)
  | generic (definition : Name) (arity : Nat)
  | declared
  deriving DecidableEq, Repr

/-- What happens when a member is called. -/
inductive Implementation where
  | missing
  | code (body : Body)
  | native (native : Native)
  deriving DecidableEq

/-- What an image knows about a type. -/
structure TypeInfo where
  name : Name
  attrs : TypeAttrs
  origin : Origin
  base : Option TypeHandle
  interfaces : List TypeHandle
  fields : List FieldHandle
  methods : List MethodHandle
  ctors : List CtorHandle
  properties : List PropertyHandle
  /-- Completed types take no more members. -/
  isComplete : Bool
  /-- Number of fields of an instance, inherited ones included.  Meaningful
  once the type is complete. -/
  instanceSlots : Nat
  deriving DecidableEq

/-- What an image knows about a field. -/
structure FieldInfo where
  owner : TypeHandle
  name : Name
  type : RunTy
  attrs : FieldAttrs
  /-- Position among the fields of an instance, or in static storage.
  Meaningful once the owner is complete. -/
  slot : Nat
  deriving DecidableEq

/-- What an image knows about a method. -/
structure MethodInfo where
  owner : TypeHandle
  name : Name
  attrs : MethodAttrs
  params : List RunTy
  ret : RunTy
  implementation : Implementation
  deriving DecidableEq

/-- What an image knows about a constructor. -/
structure CtorInfo where
  owner : TypeHandle
  params : List RunTy
  implementation : Implementation
  deriving DecidableEq

/-- What an image knows about a property. -/
structure PropertyInfo where
  name : Name
  type : RunTy
  getter : Option MethodHandle
  setter : Option MethodHandle
  deriving DecidableEq

/-- The tables of types and members. -/
structure Image where
  types : Array TypeInfo := #[]
  fields : Array FieldInfo := #[]
  methods : Array MethodInfo := #[]
  ctors : Array CtorInfo := #[]
  properties : Array PropertyInfo := #[]
  /-- Number of slots in static storage. -/
  staticCount : Nat := 0
  deriving DecidableEq

/-- Name of constructors in messages. -/
def ctorName : Name := ".ctor"

namespace Origin

/-- Whether a type comes from a generic one. -/
def isGeneric : Origin → Bool
  | generic _ _ => true
  | _ => false

/-- The definition that a generic entry stands for. -/
def definition? : Origin → Option Name
  | generic definition _ => some definition
  | _ => none

end Origin

namespace Implementation

/-- Whether there is nothing to run yet. -/
def isMissing : Implementation → Bool
  | missing => true
  | _ => false

/-- The code of an implementation that has some. -/
def body? : Implementation → Option Body
  | code body => some body
  | _ => none

end Implementation

namespace Image

/-! ## Table access -/

/-- The entry of a type, if there is one. -/
def type? (image : Image) (handle : TypeHandle) : Option TypeInfo :=
  image.types[handle.index]?

/-- The entry of a field, if there is one. -/
def field? (image : Image) (handle : FieldHandle) : Option FieldInfo :=
  image.fields[handle.index]?

/-- The entry of a method, if there is one. -/
def method? (image : Image) (handle : MethodHandle) : Option MethodInfo :=
  image.methods[handle.index]?

/-- The entry of a constructor, if there is one. -/
def ctor? (image : Image) (handle : CtorHandle) : Option CtorInfo :=
  image.ctors[handle.index]?

/-- The entry of a property, if there is one. -/
def property? (image : Image) (handle : PropertyHandle) : Option PropertyInfo :=
  image.properties[handle.index]?

/-- The entry of a type; a handle without one is an error. -/
def type (image : Image) (handle : TypeHandle) : Except ImageError TypeInfo :=
  match image.type? handle with
  | some info => .ok info
  | none => .error (.invalidHandle .type handle.index)

/-- The entry of a field; a handle without one is an error. -/
def field (image : Image) (handle : FieldHandle) : Except ImageError FieldInfo :=
  match image.field? handle with
  | some info => .ok info
  | none => .error (.invalidHandle .field handle.index)

/-- The entry of a method; a handle without one is an error. -/
def method (image : Image) (handle : MethodHandle) : Except ImageError MethodInfo :=
  match image.method? handle with
  | some info => .ok info
  | none => .error (.invalidHandle .method handle.index)

/-- The entry of a constructor; a handle without one is an error. -/
def ctor (image : Image) (handle : CtorHandle) : Except ImageError CtorInfo :=
  match image.ctor? handle with
  | some info => .ok info
  | none => .error (.invalidHandle .ctor handle.index)

/-! ## Finding types -/

/-- The first type that a test accepts. -/
def findType? (image : Image) (test : TypeInfo → Bool) : Option TypeHandle :=
  (image.types.findIdx? test).map TypeHandle.mk

/-- The platform or declared type of a name. -/
def typeNamed? (image : Image) (name : Name) : Option TypeHandle :=
  image.findType? fun info => !info.origin.isGeneric && info.name == name

/-- The entry of a platform type. -/
def builtin? (image : Image) (builtin : Builtin) : Option TypeHandle :=
  image.findType? fun info => info.origin == .builtin builtin

/-- The entry of a generic definition. -/
def generic? (image : Image) (definition : Name) (arity : Nat) :
    Option TypeHandle :=
  image.findType? fun info => info.origin == .generic definition arity

/-- The entry of a type; arrays have none. -/
def handleOf? (image : Image) : RunTy → Option TypeHandle
  | .builtin builtin => image.builtin? builtin
  | .generic definition args => image.generic? definition args.length
  | .declared handle => (image.type? handle).map fun _ => handle
  | .array _ => none

/-- The entry that a type stands for; a type without one is an error. -/
def handleOf (image : Image) (type : RunTy) : Except ImageError TypeHandle :=
  match image.handleOf? type with
  | some handle => .ok handle
  | none => .error (.unknownType type.text)

/-! ## Facts about types -/

/-- The name of a type. -/
def typeName? (image : Image) (handle : TypeHandle) : Option Name :=
  (image.type? handle).map TypeInfo.name

/-- Name of a type in messages. -/
def typeLabel (image : Image) (handle : TypeHandle) : Name :=
  (image.typeName? handle).getD "?"

/-- Whether a type is finished. -/
def isComplete (image : Image) (handle : TypeHandle) : Bool :=
  (image.type? handle).any TypeInfo.isComplete

/-- Whether instances of a type are copied rather than shared. -/
def isValueHandle (image : Image) (handle : TypeHandle) : Bool :=
  (image.type? handle).any fun info => info.attrs.isValueType

/-- Whether values of a type are copied rather than shared. -/
def isValueTy (image : Image) : RunTy → Bool
  | .builtin (.prim _) => true
  | .array _ => false
  | type => (image.handleOf? type).any image.isValueHandle

/-- The entry of a type and of its bases, most derived first, up to a number of
entries. -/
def lineageUpTo (image : Image) : (bound : Nat) → TypeHandle → List TypeInfo
  | 0, _ => []
  | bound + 1, handle =>
      match image.type? handle with
      | none => []
      | some info =>
          info :: match info.base with
            | none => []
            | some base => image.lineageUpTo bound base

/-- The entry of a type and of its bases, most derived first.  A base has a
smaller handle than the type, so the handle bounds their number. -/
def lineage (image : Image) (handle : TypeHandle) : List TypeInfo :=
  image.lineageUpTo (handle.index + 1) handle

/-- Whether a type is, derives from or implements another, looking at most
`bound` steps up. -/
def derivesFromUpTo (image : Image) (ancestor : TypeHandle) :
    (bound : Nat) → TypeHandle → Bool
  | 0, _ => false
  | bound + 1, handle =>
      handle == ancestor ||
        match image.type? handle with
        | none => false
        | some info =>
            info.interfaces.any (image.derivesFromUpTo ancestor bound) ||
              info.base.any (image.derivesFromUpTo ancestor bound)

/-- Whether a type is, derives from or implements another.  Bases and
interfaces have smaller handles, so the handle bounds the search. -/
def derivesFrom (image : Image) (handle ancestor : TypeHandle) : Bool :=
  image.derivesFromUpTo ancestor (handle.index + 1) handle

/-! ## Members of types -/

/-- Fields of a type with their entries, in order. -/
def fieldsOf (image : Image) (info : TypeInfo) : List (FieldHandle × FieldInfo) :=
  info.fields.filterMap fun handle =>
    (image.field? handle).map fun field => (handle, field)

/-- Methods of a type with their entries, in order. -/
def methodsOf (image : Image) (info : TypeInfo) :
    List (MethodHandle × MethodInfo) :=
  info.methods.filterMap fun handle =>
    (image.method? handle).map fun method => (handle, method)

/-- Constructors of a type with their entries, in order. -/
def ctorsOf (image : Image) (info : TypeInfo) : List (CtorHandle × CtorInfo) :=
  info.ctors.filterMap fun handle =>
    (image.ctor? handle).map fun ctor => (handle, ctor)

/-- Properties of a type with their entries, in order. -/
def propertiesOf (image : Image) (info : TypeInfo) :
    List (PropertyHandle × PropertyInfo) :=
  info.properties.filterMap fun handle =>
    (image.property? handle).map fun property => (handle, property)

/-! ## Listings -/

/-- Names of the methods of a type, with their handles. -/
def methodNames (image : Image) (handle : TypeHandle) :
    List (MethodHandle × Name) :=
  match image.type? handle with
  | none => []
  | some info => (image.methodsOf info).map fun (handle, method) =>
      (handle, method.name)

/-- Names of the fields of a type. -/
def fieldNames (image : Image) (handle : TypeHandle) : List Name :=
  match image.type? handle with
  | none => []
  | some info => (image.fieldsOf info).map fun (_, field) => field.name

/-- The code of a method. -/
def methodBody? (image : Image) (handle : MethodHandle) : Option Body :=
  (image.method? handle).bind fun info => info.implementation.body?

/-- The code of a constructor. -/
def ctorBody? (image : Image) (handle : CtorHandle) : Option Body :=
  (image.ctor? handle).bind fun info => info.implementation.body?

/-- Label of a method in messages and listings. -/
def methodLabel (image : Image) (info : MethodInfo) : String :=
  image.typeLabel info.owner ++ "." ++ info.name

/-- Label of a constructor in messages and listings. -/
def ctorLabel (image : Image) (info : CtorInfo) : String :=
  image.typeLabel info.owner ++ "." ++ ctorName

/-- Every code body with its label, those of methods first. -/
def bodies (image : Image) : List (String × Body) :=
  image.methods.toList.filterMap (fun info =>
    info.implementation.body?.map fun body => (image.methodLabel info, body)) ++
  image.ctors.toList.filterMap fun info =>
    info.implementation.body?.map fun body => (image.ctorLabel info, body)

/-- Name of the type that a constructor belongs to. -/
def ctorOwner? (image : Image) (handle : CtorHandle) : Option Name :=
  (image.ctor? handle).bind fun info => image.typeName? info.owner

/-- Whether a field belongs to the cells of captured variables. -/
def isCellField (image : Image) (handle : FieldHandle) : Bool :=
  (image.field? handle).any fun field =>
    (image.type? field.owner).any fun info =>
      info.origin.definition? == some Platform.cell

end Image

end ClassForge
