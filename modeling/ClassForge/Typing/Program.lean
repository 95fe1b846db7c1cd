import ClassForge.Core.Program
import ClassForge.Typing.Elaborate

/-!
# Checking modules

Every expression of a module is checked before anything is built.  Within a
class methods come first, then constructors with the calls of their base
constructors, then properties.
-/

namespace ClassForge

namespace ClassDef

/-- The receiver of an instance member. -/
def receiver (cls : ClassDef) : Param where
  name := thisName
  type := cls.selfType

/-- The arguments of a member in slot order: the receiver, if it has one, and
the parameters. -/
def arguments (cls : ClassDef) (isStatic : Bool) (params : List Param) :
    List Param :=
  if isStatic then params else cls.receiver :: params

/-- The type whose constructor the constructors of the class call. -/
def baseType (cls : ClassDef) : SourceTy :=
  cls.base.getD .object

end ClassDef

/-- The scope in which a member with some arguments is checked. -/
def Scope.ofParams (params : List Param) : Scope SourceTy :=
  Scope.empty.bindAll (params.map fun param => (param.name, param.type))

/-- The arguments with the marks that their uses give them. -/
def bindersOf (uses : Usage) (params : List Param) : List Binder :=
  params.map fun param => Binder.of uses param.name param.type

namespace TypeContext

/-- Check the code of a method with some arguments. -/
def checkRoutine (context : TypeContext) (arguments : List Param)
    (ret : SourceTy) (body : Expr) : Checked Routine := do
  let core ← body.elaborate context (.ofParams arguments)
  context.expectResult .returnValue ret core
  return { params := bindersOf body.usage arguments, ret, body := core }

/-- Check a method; an abstract one has no code. -/
def checkMethod (context : TypeContext) (cls : ClassDef) (method : MethodDef) :
    Checked CoreMethod := do
  let arguments := cls.arguments method.attrs.isStatic method.params
  let routine ← method.body.mapM (context.checkRoutine arguments method.ret)
  return {
    key := method.key cls.name
    attrs := cls.methodAttrs method.attrs
    ret := method.ret
    routine }

/-- The base constructor that a constructor of a class calls.  Value types have
no base. -/
def checkBaseCall (context : TypeContext) (cls : ClassDef) (args : List Expr)
    (scope : Scope SourceTy) : Checked (Option Callee × List Core) := do
  if cls.attrs.isValueType then
    if args.isEmpty then
      return (none, [])
    else
      throw (.invalidDeclaration ("constructor of " ++ cls.name) .valueTypeBaseArgs)
  else
    let args ← Expr.elaborateAll context args scope
    let callee ← context.selectCtor cls.baseType args
    return (some callee, args)

/-- Check a constructor. -/
def checkCtor (context : TypeContext) (cls : ClassDef) (ctor : CtorDef) :
    Checked CoreCtor := do
  let arguments := cls.arguments false ctor.params
  let uses := ctor.baseArgs.foldl (fun uses arg => uses.union arg.usage)
    ctor.body.usage
  let scope := Scope.ofParams arguments
  let (base, baseArgs) ← context.checkBaseCall cls ctor.baseArgs scope
  let body ← ctor.body.elaborate context scope
  return {
    key := ctor.key cls.name
    attrs := ctor.attrs
    routine := { params := bindersOf uses arguments, base, baseArgs, body } }

/-- Check a property.  Its setter sees the assigned value. -/
def checkProperty (context : TypeContext) (cls : ClassDef)
    (property : PropertyDef) : Checked CoreProperty := do
  let getter ← property.getter.mapM
    (context.checkRoutine (cls.arguments property.isStatic []) property.type)
  let value : Param := { name := setterValueName, type := property.type }
  let setter ← property.setter.mapM
    (context.checkRoutine (cls.arguments property.isStatic [value]) .void)
  return {
    key := property.key cls.name
    isStatic := property.isStatic
    getter
    setter }

/-- Check a class. -/
def checkClass (context : TypeContext) (cls : ClassDef) : Checked CoreClass := do
  let methods ← cls.methods.mapM (context.checkMethod cls)
  let ctors ← cls.allCtors.mapM (context.checkCtor cls)
  let properties ← cls.properties.mapM (context.checkProperty cls)
  return {
    name := cls.name
    attrs := cls.attrs
    base := cls.base
    interfaces := cls.interfaces
    fields := cls.fields
    methods
    ctors
    properties }

/-- Check the classes of a module. -/
def checkModule (context : TypeContext) (module : Module) : Checked Program :=
  module.classes.mapM context.checkClass

end TypeContext

end ClassForge
