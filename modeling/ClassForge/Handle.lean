import ClassForge.Ty

/-!
# Handles

The platform names what it holds by handles: positions in its tables of types,
methods, constructors, fields and properties.  A resolved type is a type whose
declared types go by handle.
-/

namespace ClassForge

/-- Names a type of an image. -/
structure TypeHandle where
  index : Nat
  deriving DecidableEq, Repr

/-- Names a method of an image. -/
structure MethodHandle where
  index : Nat
  deriving DecidableEq, Repr

/-- Names a constructor of an image. -/
structure CtorHandle where
  index : Nat
  deriving DecidableEq, Repr

/-- Names a field of an image. -/
structure FieldHandle where
  index : Nat
  deriving DecidableEq, Repr

/-- Names a property of an image. -/
structure PropertyHandle where
  index : Nat
  deriving DecidableEq, Repr

/-- A type handle as errors print it. -/
def TypeHandle.text (handle : TypeHandle) : String :=
  "type#" ++ toString handle.index

/-- A method handle as errors print it. -/
def MethodHandle.text (handle : MethodHandle) : String :=
  "method#" ++ toString handle.index

/-- A constructor handle as errors print it. -/
def CtorHandle.text (handle : CtorHandle) : String :=
  "ctor#" ++ toString handle.index

/-- A field handle as errors print it. -/
def FieldHandle.text (handle : FieldHandle) : String :=
  "field#" ++ toString handle.index

/-- A property handle as errors print it. -/
def PropertyHandle.text (handle : PropertyHandle) : String :=
  "property#" ++ toString handle.index

/-- A type as the platform knows it: declared types go by handle. -/
abbrev RunTy := Ty TypeHandle

/-- Text of a resolved type. -/
def RunTy.text (type : RunTy) : String :=
  Ty.text TypeHandle.text type

/-- A completed type. -/
structure RealizedType where
  handle : TypeHandle
  name : Name
  deriving DecidableEq, Repr

/-- A finished type with its handle. -/
def RealizedType.text (type : RealizedType) : String :=
  type.name ++ " (" ++ type.handle.text ++ ")"

end ClassForge
