import ClassForge.Class
import ClassForge.Core.Basic

/-!
# Checked programs

A module in which every expression has been checked.  Each class lists its
members with their keys and their code.
-/

namespace ClassForge

/-- The code of a method. -/
structure Routine where
  /-- The arguments in the order of their slots, the receiver first. -/
  params : List Binder
  ret : SourceTy
  body : Core

/-- The code of a constructor. -/
structure CtorRoutine where
  params : List Binder
  /-- The constructor of the base that runs first; value types have none. -/
  base : Option Callee
  baseArgs : List Core
  body : Core

/-- A method with its checked body. -/
structure CoreMethod where
  key : MethodKey
  attrs : MethodAttrs
  ret : SourceTy
  /-- Absent for abstract methods. -/
  routine : Option Routine

/-- A constructor with its checked body. -/
structure CoreCtor where
  key : CtorKey
  attrs : MethodAttrs
  routine : CtorRoutine

/-- A property with its checked accessors. -/
structure CoreProperty where
  key : PropertyKey
  isStatic : Bool
  getter : Option Routine
  setter : Option Routine

/-- A class whose code has been checked. -/
structure CoreClass where
  name : Name
  attrs : TypeAttrs
  base : Option SourceTy
  interfaces : List SourceTy
  fields : List FieldDef
  methods : List CoreMethod
  ctors : List CoreCtor
  properties : List CoreProperty

/-- The classes of a module, in order. -/
abbrev Program := List CoreClass

/-- Expressions that the code of a constructor is made from. -/
def CtorRoutine.roots (routine : CtorRoutine) : List Core :=
  routine.baseArgs ++ [routine.body]

namespace CoreProperty

/-- Key of the getter, when there is one. -/
def getterKey? (property : CoreProperty) : Option MethodKey :=
  property.getter.map fun _ => property.key.getter (!property.isStatic)

/-- Key of the setter, when there is one. -/
def setterKey? (property : CoreProperty) : Option MethodKey :=
  property.setter.map fun _ => property.key.setter (!property.isStatic)

end CoreProperty

/-- Every expression that a class contributes code from: methods, then
constructors, then properties. -/
def CoreClass.roots (cls : CoreClass) : List Core :=
  (cls.methods.filterMap CoreMethod.routine).map Routine.body ++
    cls.ctors.flatMap (fun ctor => ctor.routine.roots) ++
    cls.properties.flatMap fun property =>
      (property.getter.toList ++ property.setter.toList).map Routine.body

end ClassForge
