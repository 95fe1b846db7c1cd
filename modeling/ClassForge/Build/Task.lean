import ClassForge.Build.Step
import ClassForge.Core.References
import ClassForge.Image.Declare
import ClassForge.Lower.Bodies

/-!
# Tasks

The kinds of work that building a program consists of.  A task knows the keys
that have to exist before it and the keys that it adds.
-/

namespace ClassForge

/-- What the code of a method is generated from. -/
inductive MethodSource where
  | routine (routine : Routine)
  | closure (closure : Closure)
  | block (block : Block)

/-- What the code of a constructor is generated from. -/
inductive CtorSource where
  | routine (routine : CtorRoutine)
  | closure (closure : Closure)

/-- A piece of work on the target.  The code of a body stands in the source of
the class `host`. -/
inductive Task where
  | declareType (name : Name) (attrs : TypeAttrs) (base : Option SourceTy)
      (interfaces : List SourceTy)
  | declareField (key : FieldKey) (attrs : FieldAttrs)
  | declareMethod (key : MethodKey) (attrs : MethodAttrs) (ret : SourceTy)
  | declareCtor (key : CtorKey)
  /-- Declare a property together with its accessors. -/
  | declareProperty (property : CoreProperty)
  | defineMethod (host : Name) (key : MethodKey) (source : MethodSource)
  | defineCtor (host : Name) (key : CtorKey) (source : CtorSource)
  /-- Complete a type after the declared types that it builds on. -/
  | complete (name : Name) (supertypes : List Name)

namespace MethodSource

/-- Keys that the code refers to. -/
def inputs (host : Name) (key : MethodKey) : MethodSource → List Key
  | routine source => .type key.owner :: references host [source.body]
  | closure source =>
      source.fieldKeys.map .field ++
        typeKeys (source.captures.map Param.type) ++
        references host [source.body]
  | block source => references host [source.core]

/-- The body of a method. -/
def code (context : LowerContext) : MethodSource → Except Diagnostic Body
  | routine source => source.code context
  | closure source => source.invokeCode context
  | block source => source.code context

end MethodSource

namespace CtorSource

/-- Keys that the code refers to. -/
def inputs (host : Name) (key : CtorKey) : CtorSource → List Key
  | routine source =>
      .type key.owner :: references host source.roots ++
        (source.base.bind Callee.ctorKey?).toList.map .ctor
  | closure source => source.fieldKeys.map .field

/-- The body of a constructor. -/
def code (context : LowerContext) : CtorSource → Except Diagnostic Body
  | routine source => source.code context
  | closure source => source.ctorCode context

end CtorSource

namespace Task

/-- The part of the build that a task belongs to. -/
def phase : Task → Phase
  | complete _ _ => .complete
  | _ => .declare

/-- Description of a task; tasks that could run next go by its order. -/
def label : Task → String
  | declareType name _ _ _ => "declare " ++ (Key.type name).text
  | declareField key _ => "declare " ++ key.text
  | declareMethod key _ _ => "declare " ++ key.text
  | declareCtor key => "declare " ++ key.text
  | declareProperty property => "declare " ++ property.key.text
  | defineMethod _ key _ => "define " ++ key.text
  | defineCtor _ key _ => "define " ++ key.text
  | complete name _ => "seal " ++ (Key.type name).text

/-- Keys that have to exist before a task.  A declaration needs its owner and the
types in its signature, a definition all that its code refers to. -/
def inputs : Task → List Key
  | declareType _ _ base interfaces => typeKeys (base.toList ++ interfaces)
  | declareField key _ => .type key.owner :: typeKeys [key.type]
  | declareMethod key _ ret => .type key.owner :: typeKeys (key.params ++ [ret])
  | declareCtor key => .type key.owner :: typeKeys key.params
  | declareProperty property =>
      .type property.key.owner :: typeKeys [property.key.type]
  | defineMethod host key source => .method key :: source.inputs host key
  | defineCtor host key source => .ctor key :: source.inputs host key
  | complete name supertypes => .type name :: supertypes.map .completed

/-- Keys that a task adds. -/
def outputs : Task → List Key
  | declareType name _ _ _ => [.type name]
  | declareField key _ => [.field key]
  | declareMethod key _ _ => [.method key]
  | declareCtor key => [.ctor key]
  | declareProperty property =>
      .property property.key ::
        (property.getterKey?.toList ++ property.setterKey?.toList).map .method
  | defineMethod _ _ _ | defineCtor _ _ _ => []
  | complete name _ => [.completed name]

/-! ## Running a task -/

/-- Declare a method and record its handle. -/
def addMethod (key : MethodKey) (owner : TypeHandle) (attrs : MethodAttrs)
    (params : List RunTy) (ret : RunTy) : Build Image MethodHandle := do
  let handle ← Build.request fun image =>
    image.declareMethod owner key.name attrs params ret
  Build.record (.method key) (.method handle)
  return handle

/-- Generate code from the build so far. -/
def generate (host : Name) (tailCalls : Bool)
    (code : LowerContext → Except Diagnostic Body) : Build Image Body := do
  let state ← get
  match code { image := state.target, resolution := state.resolution, host, tailCalls } with
  | .ok body => return body
  | .error diagnostic => throw diagnostic

/-- Carry out a task. -/
def action (tailCalls : Bool) : Task → Build Image Unit
  | declareType name attrs base interfaces => do
      let base ← Build.resolve fun resolution => base.mapM resolution.runTy
      let interfaces ← Build.resolve fun resolution => resolution.runTys interfaces
      let handle ← Build.request fun image =>
        image.declareType name attrs base interfaces
      Build.record (.type name) (.type handle)
  | declareField key attrs => do
      let owner ← Build.resolve fun resolution => resolution.type key.owner
      let type ← Build.resolve fun resolution => resolution.runTy key.type
      let handle ← Build.request fun image =>
        image.declareField owner key.name type attrs
      Build.record (.field key) (.field handle)
  | declareMethod key attrs ret => do
      let owner ← Build.resolve fun resolution => resolution.type key.owner
      let params ← Build.resolve fun resolution => resolution.runTys key.params
      let ret ← Build.resolve fun resolution => resolution.runTy ret
      discard <| addMethod key owner attrs params ret
  | declareCtor key => do
      let owner ← Build.resolve fun resolution => resolution.type key.owner
      let params ← Build.resolve fun resolution => resolution.runTys key.params
      let handle ← Build.request fun image => image.declareCtor owner params
      Build.record (.ctor key) (.ctor handle)
  | declareProperty property => do
      let key := property.key
      let owner ← Build.resolve fun resolution => resolution.type key.owner
      let type ← Build.resolve fun resolution => resolution.runTy key.type
      let attrs := MethodAttrs.generated property.isStatic
      let getter ← property.getterKey?.mapM fun getter =>
        addMethod getter owner attrs [] type
      let setter ← property.setterKey?.mapM fun setter =>
        addMethod setter owner attrs [type] .void
      let handle ← Build.request fun image =>
        image.declareProperty owner key.name type getter setter
      Build.record (.property key) (.property handle)
  | defineMethod host key source => do
      let body ← generate host tailCalls source.code
      let handle ← Build.resolve fun resolution => resolution.method key
      Build.request fun image => return ((), ← image.defineMethod handle body)
  | defineCtor host key source => do
      let body ← generate host tailCalls source.code
      let handle ← Build.resolve fun resolution => resolution.ctor key
      Build.request fun image => return ((), ← image.defineCtor handle body)
  | complete name _ => do
      let handle ← Build.resolve fun resolution => resolution.type name
      let realized ← Build.request fun image => image.sealType handle
      Build.record (.completed name) (.completed realized)

/-- The step of a build that carries out a task. -/
def step (tailCalls : Bool) (task : Task) : Step Image :=
  .make task.label task.phase task.inputs task.outputs (task.action tailCalls)

end Task

end ClassForge
