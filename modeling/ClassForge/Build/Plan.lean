import ClassForge.Build.Task

/-!
# Build plans

The tasks that build a program: those of its classes, with the members that
boundaries move their code into.  When a task runs is not decided by its place
in the list but by its keys.
-/

namespace ClassForge

namespace CoreMethod

/-- Declare a method, and define it unless it is abstract. -/
def tasks (host : Name) (method : CoreMethod) : List Task :=
  .declareMethod method.key method.attrs method.ret ::
    method.routine.toList.map fun routine =>
      .defineMethod host method.key (.routine routine)

end CoreMethod

namespace CoreCtor

/-- Declare and define a constructor. -/
def tasks (host : Name) (ctor : CoreCtor) : List Task :=
  [.declareCtor ctor.key, .defineCtor host ctor.key (.routine ctor.routine)]

end CoreCtor

namespace CoreProperty

/-- Define an accessor, if there is one. -/
def accessorTask? (host : Name) (key? : Option MethodKey)
    (routine? : Option Routine) : Option Task := do
  let key ← key?
  let routine ← routine?
  return .defineMethod host key (.routine routine)

/-- Declare a property and define its accessors. -/
def tasks (host : Name) (property : CoreProperty) : List Task :=
  .declareProperty property ::
    ((accessorTask? host property.getterKey? property.getter).toList ++
      (accessorTask? host property.setterKey? property.setter).toList)

end CoreProperty

namespace Closure

/-- Build the class behind a lambda or a named loop. -/
def tasks (host : Name) (closure : Closure) : List Task :=
  .declareType closure.typeName .sealedClass none [] ::
    closure.fieldKeys.map (fun key => .declareField key .publicInstance) ++
    [.declareCtor closure.ctorKey,
      .defineCtor host closure.ctorKey (.closure closure),
      .declareMethod closure.invokeKey .publicInstance closure.ret,
      .defineMethod host closure.invokeKey (.closure closure),
      .complete closure.typeName []]

end Closure

namespace Block

/-- Build the static method behind a `try` or `pin` block. -/
def tasks (host : Name) (block : Block) : List Task :=
  [.declareMethod block.key .publicStatic block.ret,
    .defineMethod host block.key (.block block)]

end Block

/-- Build what the code of a boundary moves into; other nodes need nothing. -/
def Core.liftedTasks (host : Name) (core : Core) : List Task :=
  (core.closure? host).toList.flatMap (Closure.tasks host) ++
    (core.block? host).toList.flatMap (Block.tasks host)

namespace CoreClass

/-- The declared types that a class builds on directly. -/
def declaredSupertypes (cls : CoreClass) : List Name :=
  (cls.base.toList ++ cls.interfaces).filterMap Ty.declared?

/-- Build a class. -/
def tasks (cls : CoreClass) : List Task :=
  .declareType cls.name cls.attrs cls.base cls.interfaces ::
    cls.fields.map (fun field => .declareField (field.key cls.name) field.attrs) ++
    cls.methods.flatMap (CoreMethod.tasks cls.name) ++
    cls.ctors.flatMap (CoreCtor.tasks cls.name) ++
    cls.properties.flatMap (CoreProperty.tasks cls.name) ++
    (Core.preorderAll cls.roots).flatMap (Core.liftedTasks cls.name) ++
    [.complete cls.name cls.declaredSupertypes]

end CoreClass

/-- Build every class of a program. -/
def Program.tasks (program : Program) : List Task :=
  program.flatMap CoreClass.tasks

/-- The steps that build a program. -/
def Program.steps (program : Program) (tailCalls : Bool) : List (Step Image) :=
  program.tasks.map (Task.step tailCalls)

end ClassForge
