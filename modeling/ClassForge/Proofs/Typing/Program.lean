import ClassForge.Compile
import ClassForge.Image.Library
import ClassForge.Proofs.Typing.Elaboration

/-!
# What a checked module looks like

A checked program has the classes of its module in order, and the members of
each class in order.  The relations here say for each kind of member what the
check required of it and what it became.
-/

namespace ClassForge

/-- How the code of a constructor uses its arguments. -/
def CtorDef.uses (ctor : CtorDef) : Usage :=
  ctor.baseArgs.foldl (fun uses arg => uses.union arg.usage) ctor.body.usage

namespace TypeContext

variable {context : TypeContext}
variable {cls : ClassDef}

/-- The code of a method with some arguments. -/
structure ChecksRoutine (context : TypeContext) (arguments : List Param)
    (ret : SourceTy) (body : Expr) (routine : Routine) : Prop where
  checked : body.Checks context (.ofParams arguments) routine.body
  result : ret.isVoid = true ∨ context.isAssignable routine.body.type ret = true
  params : routine.params = bindersOf body.usage arguments
  returns : routine.ret = ret

/-- A method; an abstract one has no code. -/
structure ChecksMethod (context : TypeContext) (cls : ClassDef) (method : MethodDef)
    (core : CoreMethod) : Prop where
  key : core.key = method.key cls.name
  attrs : core.attrs = cls.methodAttrs method.attrs
  returns : core.ret = method.ret
  routine : Option.Rel
    (ChecksRoutine context (cls.arguments method.attrs.isStatic method.params)
      method.ret) method.body core.routine

/-- A constructor.  Only that of a value type calls no base constructor. -/
structure ChecksCtor (context : TypeContext) (cls : ClassDef) (ctor : CtorDef)
    (core : CoreCtor) : Prop where
  key : core.key = ctor.key cls.name
  attrs : core.attrs = ctor.attrs
  params : core.routine.params = bindersOf ctor.uses (cls.arguments false ctor.params)
  baseArgs : List.Forall₂
    (Expr.Checks context (.ofParams (cls.arguments false ctor.params)))
    ctor.baseArgs core.routine.baseArgs
  base : ∀ callee, core.routine.base = some callee →
    context.selectCtor cls.baseType core.routine.baseArgs = .ok callee
  checked : ctor.body.Checks context (.ofParams (cls.arguments false ctor.params))
    core.routine.body

/-- What the setter of a property sees the assigned value as. -/
def setterValue (property : PropertyDef) : Param where
  name := setterValueName
  type := property.type

/-- A property with its accessors. -/
structure ChecksProperty (context : TypeContext) (cls : ClassDef)
    (property : PropertyDef) (core : CoreProperty) : Prop where
  key : core.key = property.key cls.name
  isStatic : core.isStatic = property.isStatic
  getter : Option.Rel
    (ChecksRoutine context (cls.arguments property.isStatic []) property.type)
    property.getter core.getter
  setter : Option.Rel
    (ChecksRoutine context (cls.arguments property.isStatic [setterValue property])
      .void) property.setter core.setter

/-- A class with its members in order. -/
structure ChecksClass (context : TypeContext) (cls : ClassDef) (core : CoreClass) :
    Prop where
  name : core.name = cls.name
  attrs : core.attrs = cls.attrs
  base : core.base = cls.base
  interfaces : core.interfaces = cls.interfaces
  fields : core.fields = cls.fields
  methods : List.Forall₂ (ChecksMethod context cls) cls.methods core.methods
  ctors : List.Forall₂ (ChecksCtor context cls) cls.allCtors core.ctors
  properties : List.Forall₂ (ChecksProperty context cls) cls.properties core.properties

theorem checksRoutine {arguments : List Param} {ret : SourceTy} {body : Expr} {routine : Routine}
    (done : context.checkRoutine arguments ret body = .ok routine) :
    ChecksRoutine context arguments ret body routine := by
  simp only [checkRoutine, bind_eq_ok, pure_eq_ok, expectResult_eq_ok] at done
  obtain ⟨core, checked, -, result, rfl⟩ := done
  exact ⟨checked, result, rfl, rfl⟩

theorem option_rel_imp {α β : Type} {relation weaker : α → β → Prop} {left : Option α}
    {right : Option β} (related : Option.Rel relation left right)
    (implies : ∀ first second, relation first second → weaker first second) :
    Option.Rel weaker left right := by
  cases related with
  | none => exact .none
  | some holds => exact .some (implies _ _ holds)

theorem exists_of_rel_some {α β : Type} {relation : α → β → Prop} {left : Option α}
    {right : Option β} {second : β} (related : Option.Rel relation left right)
    (found : right = some second) : ∃ first, relation first second := by
  cases related with
  | none => cases found
  | some holds =>
      cases found
      exact ⟨_, holds⟩

theorem checksMethod {method : MethodDef} {core : CoreMethod}
    (done : context.checkMethod cls method = .ok core) : ChecksMethod context cls method core := by
  simp only [checkMethod, bind_eq_ok, pure_eq_ok] at done
  obtain ⟨routine, checked, rfl⟩ := done
  exact ⟨rfl, rfl, rfl, option_rel_imp (optionMapM_eq_ok checked) fun _ _ => checksRoutine⟩

theorem checksCtor {ctor : CtorDef} {core : CoreCtor}
    (done : context.checkCtor cls ctor = .ok core) : ChecksCtor context cls ctor core := by
  simp only [checkCtor, bind_eq_ok, pure_eq_ok] at done
  obtain ⟨⟨base, baseArgs⟩, called, body, checked, rfl⟩ := done
  unfold checkBaseCall at called
  split at called
  · split at called
    · rename_i empty
      cases called
      have none := List.isEmpty_iff.mp empty
      exact ⟨rfl, rfl, rfl, none ▸ .nil, (by rintro _ ⟨⟩), checked⟩
    · exact (throw_ne_ok.mp called).elim
  · simp only [bind_eq_ok, pure_eq_ok, Expr.elaborateAll_eq_ok, Prod.mk.injEq] at called
    obtain ⟨args, argsChecked, callee, selected, rfl, rfl⟩ := called
    refine ⟨rfl, rfl, rfl, argsChecked, fun other found => ?_, checked⟩
    cases found
    exact selected

theorem checksProperty {property : PropertyDef} {core : CoreProperty}
    (done : context.checkProperty cls property = .ok core) :
    ChecksProperty context cls property core := by
  simp only [checkProperty, bind_eq_ok, pure_eq_ok] at done
  obtain ⟨getter, getterChecked, setter, setterChecked, rfl⟩ := done
  exact ⟨rfl, rfl,
    option_rel_imp (optionMapM_eq_ok getterChecked) fun _ _ => checksRoutine,
    option_rel_imp (optionMapM_eq_ok setterChecked) fun _ _ => checksRoutine⟩

theorem checksClass {core : CoreClass} (done : context.checkClass cls = .ok core) :
    ChecksClass context cls core := by
  simp only [checkClass, bind_eq_ok, pure_eq_ok, mapM_eq_ok] at done
  obtain ⟨methods, methodsDone, ctors, ctorsDone, properties, propertiesDone, rfl⟩ := done
  exact ⟨rfl, rfl, rfl, rfl, rfl, methodsDone.imp fun _ _ => checksMethod,
    ctorsDone.imp fun _ _ => checksCtor, propertiesDone.imp fun _ _ => checksProperty⟩

end TypeContext

/-- A module is accepted as a checked program, with the declarations that were
collected from it. -/
structure Module.Accepted (module : Module) (image : Image) (context : TypeContext)
    (program : Program) : Prop where
  symbols : Symbols.ofModule module = .ok context.symbols
  image : context.image = image
  classes : List.Forall₂ (TypeContext.ChecksClass context) module.classes program

/-- Every module that passes the check is accepted. -/
theorem Module.accepted_of_check {module : Module} {image : Image} {program : Program}
    (done : module.check image = .ok program) :
    ∃ context, module.Accepted image context program := by
  simp only [Module.check, bind_eq_ok, TypeContext.checkModule, mapM_eq_ok] at done
  obtain ⟨symbols, collected, classes⟩ := done
  exact ⟨⟨symbols, image⟩, collected, rfl, classes.imp fun _ _ => TypeContext.checksClass⟩

/-- A class with one static method, whose parameter is counted up in a function that
captures it. -/
def Module.counter : Module where
  classes := [
    { name := "Counter"
      attrs := .publicClass
      base := none
      interfaces := []
      fields := []
      methods := [
        { name := "next"
          attrs := .publicStatic
          params := [⟨"n", .prim .int32⟩]
          ret := .prim .int32
          body := some (.invoke
            (.lambda 0 [] (.seq [
              .set "n" (.binary (.op .add) (.var "n") (.literal (.int32 1))),
              .var "n"])) []) }]
      ctors := []
      properties := [] }]

theorem Module.counter_isOk : (Module.counter.check .library).isOk = true := by
  decide +kernel

end ClassForge
