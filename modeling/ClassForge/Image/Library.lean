import ClassForge.Image.Basic
import ClassForge.Key

/-!
# The platform library

The image that every compilation starts from.  The library is a list of type
descriptions; its types and members are numbered in the order of the list.
-/

namespace ClassForge

/-- Names of the exceptions that the machine itself raises. -/
inductive SystemException where
  | nullReference
  | invalidCast
  | indexOutOfRange
  | divideByZero
  | overflow
  | accessViolation
  deriving DecidableEq, Repr

namespace SystemException

/-- All exceptions that the machine raises. -/
def all : List SystemException :=
  [nullReference, invalidCast, indexOutOfRange, divideByZero, overflow,
    accessViolation]

/-- Name of the type of an exception. -/
def typeName : SystemException → Name
  | nullReference => "NullReferenceException"
  | invalidCast => "InvalidCastException"
  | indexOutOfRange => "IndexOutOfRangeException"
  | divideByZero => "DivideByZeroException"
  | overflow => "OverflowException"
  | accessViolation => "AccessViolationException"

/-- The message of an exception that was created without one. -/
def message : SystemException → String
  | nullReference => "Object reference not set to an instance of an object."
  | invalidCast => "Specified cast is not valid."
  | indexOutOfRange => "Index was outside the bounds of the array."
  | divideByZero => "Attempted to divide by zero."
  | overflow => "Arithmetic operation resulted in an overflow."
  | accessViolation => "Attempted to read or write protected memory."

end SystemException

namespace Library

/-- A method of the library. -/
structure Method where
  name : Name
  attrs : MethodAttrs
  params : List RunTy
  ret : RunTy
  native : Native

/-- A constructor of the library. -/
structure Ctor where
  params : List RunTy
  native : Native

/-- A property that one of the methods of the type reads. -/
structure Property where
  name : Name
  type : RunTy
  /-- Position of the getter among the methods of the type. -/
  getter : Nat

/-- Description of a library type.  The base is the position of an earlier
description. -/
structure Entry where
  origin : Origin
  attrs : TypeAttrs
  base : Option Nat := none
  fields : List (Name × RunTy) := []
  ctors : List Ctor := []
  methods : List Method := []
  properties : List Property := []

/-- Name of the table entry of a type. -/
def entryName : Origin → Name
  | .builtin builtin => builtin.text
  | .generic definition arity => definition ++ "`" ++ toString arity
  | .declared => ""

/-- Add a described type with its members to an image. -/
def install (image : Image) (entry : Entry) : Image :=
  let owner : TypeHandle := ⟨image.types.size⟩
  let base := entry.base.map TypeHandle.mk
  let inherited := ((base.bind image.type?).map TypeInfo.instanceSlots).getD 0
  let info : TypeInfo :=
    { name := entryName entry.origin
      attrs := entry.attrs
      origin := entry.origin
      base := base
      interfaces := []
      fields := (List.range' image.fields.size entry.fields.length).map .mk
      methods := (List.range' image.methods.size entry.methods.length).map .mk
      ctors := (List.range' image.ctors.size entry.ctors.length).map .mk
      properties :=
        (List.range' image.properties.size entry.properties.length).map .mk
      isComplete := true
      instanceSlots := inherited + entry.fields.length }
  { types := image.types.push info
    fields := image.fields ++ entry.fields.zipIdx.map
      fun ((name, type), index) =>
        FieldInfo.mk owner name type .publicInstance (inherited + index)
    methods := image.methods ++ entry.methods.map fun method =>
      MethodInfo.mk owner method.name method.attrs method.params method.ret
        (.native method.native)
    ctors := image.ctors ++ entry.ctors.map fun ctor =>
      CtorInfo.mk owner ctor.params (.native ctor.native)
    properties := image.properties ++ entry.properties.map fun property =>
      PropertyInfo.mk property.name property.type
        (some ⟨image.methods.size + property.getter⟩) none
    staticCount := image.staticCount }

/-- Position of `Object`, the root of the hierarchy. -/
def objectIndex : Nat := 0

/-- Position of the root of the exceptions. -/
def exceptionIndex : Nat := 19

/-- Most type arguments of a function type. -/
def maxDelegateArity : Nat := 9

/-- The type of all objects. -/
def object : Entry where
  origin := .builtin .object
  attrs := .publicClass
  ctors := [⟨[], .objectCtor⟩]
  methods := [⟨"ToString", .publicVirtual, [], .string, .objectText⟩]

/-- The type of no value. -/
def void : Entry where
  origin := .builtin .void
  attrs := .publicClass

/-- A primitive type. -/
def primitive (prim : Prim) : Entry where
  origin := .builtin (.prim prim)
  attrs := .publicValueType

/-- The type of strings. -/
def string : Entry where
  origin := .builtin .string
  attrs := .sealedClass
  base := some objectIndex
  methods :=
    [⟨"Concat", .publicStatic, [.string, .string], .string, .concat⟩,
      ⟨getterName "Length", .publicInstance, [], .int32, .textLength⟩]
  properties := [⟨"Length", .int32, 1⟩]

/-- Types that the console can write, with the way it writes them. -/
def consoleOverloads : List (RunTy × Rendering) :=
  [(.string, .plain), (.object, .plain), (.int32, .plain),
    (.prim .int64, .plain), (.prim .float64, .plain), (.bool, .truth),
    (.prim .char, .character)]

/-- The class of the console. -/
def console : Entry where
  origin := .builtin (.named Platform.console)
  attrs := .staticClass
  base := some objectIndex
  methods :=
    consoleOverloads.flatMap (fun (type, rendering) =>
      [⟨"WriteLine", .publicStatic, [type], .void, .write rendering true⟩,
        ⟨"Write", .publicStatic, [type], .void, .write rendering false⟩]) ++
    [⟨"WriteLine", .publicStatic, [], .void, .writeEmptyLine⟩]

/-- The methods of the mathematical functions. -/
def mathMethods : List Method :=
  let real : RunTy := .prim .float64
  let unary : List (Name × MathFunction) :=
    [("Sqrt", .sqrt), ("Sin", .sin), ("Cos", .cos), ("Tan", .tan),
      ("Exp", .exp), ("Log", .log), ("Abs", .abs), ("Floor", .floor),
      ("Ceiling", .ceiling)]
  let binary : List (Name × MathFunction₂) :=
    [("Pow", .pow), ("Atan2", .atan2), ("Min", .min), ("Max", .max)]
  let integral (type : RunTy) (wide : Bool) : List Method :=
    [⟨"Abs", .publicStatic, [type], type, .intAbs wide⟩,
      ⟨"Min", .publicStatic, [type, type], type, .intMin wide⟩,
      ⟨"Max", .publicStatic, [type, type], type, .intMax wide⟩]
  unary.map (fun (name, function) =>
    ⟨name, .publicStatic, [real], real, .math function⟩) ++
  binary.map (fun (name, function) =>
    ⟨name, .publicStatic, [real, real], real, .math₂ function⟩) ++
  integral .int32 false ++ integral (.prim .int64) true

/-- The class of the mathematical functions. -/
def math : Entry where
  origin := .builtin (.named Platform.math)
  attrs := .staticClass
  base := some objectIndex
  methods := mathMethods

/-- The constructors of every exception. -/
def exceptionCtors : List Ctor :=
  [⟨[], .exceptionCtor⟩, ⟨[.string], .exceptionCtorMessage⟩]

/-- The type of all exceptions. -/
def exception : Entry where
  origin := .builtin (.named Platform.exception)
  attrs := .publicClass
  base := some objectIndex
  fields := [("_message", .string)]
  ctors := exceptionCtors
  methods :=
    [⟨getterName "Message", .publicVirtual, [], .string, .exceptionMessage⟩]
  properties := [⟨"Message", .string, 0⟩]

/-- The type of an exception that the machine raises. -/
def systemException (exception : SystemException) : Entry where
  origin := .builtin (.named exception.typeName)
  attrs := .publicClass
  base := some exceptionIndex
  ctors := exceptionCtors

/-- The generic type of cells. -/
def cell : Entry where
  origin := .generic Platform.cell 1
  attrs := .sealedClass
  base := some objectIndex
  fields := [("Value", .object)]
  ctors := [⟨[.object], .cellCtor⟩, ⟨[], .cellCtorEmpty⟩]

/-- A family of function types for one number of type arguments. -/
def delegate (definition : Name) (arity params : Nat) (ret : RunTy) : Entry where
  origin := .generic definition arity
  attrs := .sealedClass
  base := some objectIndex
  ctors := [⟨[.object, .intPtr], .delegateCtor⟩]
  methods :=
    [⟨"Invoke", .publicVirtual, List.replicate params .object, ret,
      .delegateInvoke⟩]

/-- Every library type, in the order of handles. -/
def entries : List Entry :=
  [object, void] ++ Prim.all.map primitive ++
    [string, console, math, exception] ++
    SystemException.all.map systemException ++ [cell] ++
    (List.range maxDelegateArity).map (fun params =>
      delegate Platform.func (params + 1) params .object) ++
    (List.range maxDelegateArity).map fun params =>
      delegate Platform.action params params .void

end Library

/-- An image that holds the library and nothing else. -/
def Image.library : Image :=
  Library.entries.foldl Library.install {}

end ClassForge
