import ClassForge.Attributes
import ClassForge.Expr.Basic
import ClassForge.Key

/-!
# Classes and modules

What a compilation is given: an ordered list of classes with their fields,
methods, constructors and properties.
-/

namespace ClassForge

/-- A field as a class declares it. -/
structure FieldDef where
  name : Name
  type : SourceTy
  attrs : FieldAttrs

/-- A method as a class declares it. -/
structure MethodDef where
  name : Name
  attrs : MethodAttrs
  params : List Param
  ret : SourceTy
  /-- Absent for abstract methods. -/
  body : Option Expr

/-- A constructor as a class declares it. -/
structure CtorDef where
  attrs : MethodAttrs
  params : List Param
  /-- Arguments of the base constructor, which see the parameters. -/
  baseArgs : List Expr
  body : Expr

/-- A property with the bodies of its accessors. -/
structure PropertyDef where
  name : Name
  type : SourceTy
  isStatic : Bool
  getter : Option Expr
  setter : Option Expr

/-- A type to be declared, filled with members and completed. -/
structure ClassDef where
  name : Name
  attrs : TypeAttrs
  base : Option SourceTy
  interfaces : List SourceTy
  fields : List FieldDef
  methods : List MethodDef
  ctors : List CtorDef
  properties : List PropertyDef

/-- The unit of compilation. -/
structure Module where
  classes : List ClassDef

/-- Key of a field of a class. -/
def FieldDef.key (field : FieldDef) (owner : Name) : FieldKey where
  owner := owner
  name := field.name
  type := field.type

/-- Types of the parameters. -/
def MethodDef.paramTypes (method : MethodDef) : List SourceTy :=
  method.params.map Param.type

/-- Key of a method of a class. -/
def MethodDef.key (method : MethodDef) (owner : Name) : MethodKey where
  owner := owner
  name := method.name
  isInstance := !method.attrs.isStatic
  params := method.paramTypes

/-- Types of the parameters. -/
def CtorDef.paramTypes (ctor : CtorDef) : List SourceTy :=
  ctor.params.map Param.type

/-- Key of a constructor of a class. -/
def CtorDef.key (ctor : CtorDef) (owner : Name) : CtorKey where
  owner := owner
  params := ctor.paramTypes

/-- The constructor of a class that declares none. -/
def CtorDef.implicit : CtorDef where
  attrs := .generated false
  params := []
  baseArgs := []
  body := .seq []

namespace PropertyDef

/-- Key of a property of a class. -/
def key (property : PropertyDef) (owner : Name) : PropertyKey where
  owner := owner
  name := property.name
  type := property.type

/-- Key of the getter, when there is one. -/
def getterKey? (property : PropertyDef) (owner : Name) : Option MethodKey :=
  property.getter.map fun _ => (property.key owner).getter (!property.isStatic)

/-- Key of the setter, when there is one. -/
def setterKey? (property : PropertyDef) (owner : Name) : Option MethodKey :=
  property.setter.map fun _ => (property.key owner).setter (!property.isStatic)

end PropertyDef

namespace ClassDef

/-- The type of instances of the class. -/
def selfType (cls : ClassDef) : SourceTy :=
  .declared cls.name

/-- The constructors of the class.  A class that declares none has one without
parameters, unless it is an interface. -/
def allCtors (cls : ClassDef) : List CtorDef :=
  if cls.ctors.isEmpty && !cls.attrs.isInterface then [.implicit] else cls.ctors

/-- Attributes that a method is declared with: the methods of an interface are
abstract. -/
def methodAttrs (cls : ClassDef) (attrs : MethodAttrs) : MethodAttrs :=
  if cls.attrs.isInterface then { attrs with isAbstract := true } else attrs

/-- Every expression that the class contributes code from: method bodies, then
constructors, then properties. -/
def roots (cls : ClassDef) : List Expr :=
  cls.methods.filterMap MethodDef.body ++
    cls.ctors.flatMap (fun ctor => ctor.baseArgs ++ [ctor.body]) ++
    cls.properties.flatMap fun property =>
      property.getter.toList ++ property.setter.toList

end ClassDef

/-- The first class of a name. -/
def Module.class? (module : Module) (name : Name) : Option ClassDef :=
  module.classes.find? fun cls => cls.name = name

end ClassForge
