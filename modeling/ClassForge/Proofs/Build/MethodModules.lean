import ClassForge.Proofs.Build.PlannedBuilds
import ClassForge.Proofs.Typing.BoundVariables
import ClassForge.Proofs.Typing.ElementaryExpressions

/-!
# Modules of one method

A class whose only member is a method with an elementary body is built from blueprints: one for the
class itself and one for each function in the body.  When their names are free and the types that
the body is annotated with are known, the target refuses nothing but one local too many, and that
only to a body that binds as many variables as a body can have locals.
-/

namespace ClassForge

open Schedule
variable {context : TypeContext}

/-- A class whose only member is a method. -/
def ClassDef.ofMethod (owner : Name) (attrs : TypeAttrs) (method : MethodDef) : ClassDef where
  name := owner
  attrs
  base := none
  interfaces := []
  fields := []
  methods := [method]
  ctors := []
  properties := []

/-- A module whose only class has a method as its only member. -/
def Module.ofMethod (owner : Name) (attrs : TypeAttrs) (method : MethodDef) : Module where
  classes := [.ofMethod owner attrs method]

/-! ## Names of functions -/

namespace Expr

variable {host name : Name} {first second : Expr}

/-- The name of a function tells its number. -/
theorem closureName?_eq_some (named : first.closureName? host = some name) :
    ∃ kind id, (kind = "$closure" ∨ kind = "$loop") ∧ first.nodeId? = some id ∧
      name = host ++ (kind ++ Nat.repr id) := by
  cases first with
  | lambda id =>
      refine ⟨"$closure", id, .inl rfl, rfl, ?_⟩
      rw [← String.append_assoc]
      exact (Option.some.inj named).symm
  | loop id =>
      refine ⟨"$loop", id, .inr rfl, rfl, ?_⟩
      rw [← String.append_assoc]
      exact (Option.some.inj named).symm
  | _ => cases named

/-- Functions of one name have one number. -/
theorem nodeId?_of_closureName? (named : first.closureName? host = some name)
    (alsoNamed : second.closureName? host = some name) :
    ∃ id, first.nodeId? = some id ∧ second.nodeId? = some id := by
  obtain ⟨kind, id, isKind, isId, rfl⟩ := closureName?_eq_some named
  obtain ⟨other, otherId, isOther, isOtherId, same⟩ := closureName?_eq_some alsoNamed
  rw [String.append_right_inj] at same
  have texts : kind.toList ++ Nat.toDigits 10 id = other.toList ++ Nat.toDigits 10 otherId := by
    simpa [Nat.toList_repr] using congrArg String.toList same
  have digits : Nat.toDigits 10 id = Nat.toDigits 10 otherId := by
    rcases isKind with rfl | rfl <;> rcases isOther with rfl | rfl
    case inl.inl | inr.inr => exact List.append_cancel_left texts
    all_goals cases texts
  have sameId := congrArg (fun digits => Nat.ofDigitChars 10 digits 0) digits
  simp only [Nat.ofDigitChars_ten_toDigits] at sameId
  exact ⟨id, isId, sameId ▸ isOtherId⟩

/-- The name of a function is not that of the class that it stands in. -/
theorem closureName?_ne (named : first.closureName? host = some name) : name ≠ host := by
  obtain ⟨kind, id, isKind, -, rfl⟩ := closureName?_eq_some named
  intro same
  have texts : host.toList ++ (kind.toList ++ Nat.toDigits 10 id) = host.toList := by
    simpa [Nat.toList_repr] using congrArg String.toList same
  have empty := (List.append_eq_nil_iff.mp (List.append_right_eq_self.mp texts)).1
  rcases isKind with rfl | rfl <;> cases empty

/-- Boundaries of different numbers become types of different names. -/
theorem closureNames_nodup {roots : List Expr} (distinct : (roots.flatMap boundaryIds).Nodup)
    (host : Name) : (host :: roots.flatMap (closureNames host)).Nodup := by
  have ids : roots.flatMap boundaryIds = (roots.flatMap preorder).filterMap nodeId? := by
    rw [List.filterMap_flatMap]
    rfl
  have names : roots.flatMap (closureNames host) =
      (roots.flatMap preorder).filterMap (closureName? host) := by
    rw [List.filterMap_flatMap]
    rfl
  rw [ids, List.Nodup, List.pairwise_filterMap] at distinct
  rw [names, List.nodup_cons, List.Nodup, List.pairwise_filterMap]
  refine ⟨fun isName => ?_, distinct.imp fun {first second} apart name isName other isOther same => ?_⟩
  · obtain ⟨node, -, named⟩ := List.mem_filterMap.mp isName
    exact closureName?_ne named rfl
  · subst same
    obtain ⟨id, isId, alsoId⟩ := nodeId?_of_closureName? isName isOther
    exact apart id isId id alsoId rfl

end Expr

/-- The types that the classes of an accepted module become have different names, if their classes
have. -/
theorem Module.Accepted.typeNames_nodup {owner : Name} {attrs : TypeAttrs} {method : MethodDef}
    {image : Image} {program : Program}
    (accepted : (Module.ofMethod owner attrs method).Accepted image context program) :
    (Module.ofMethod owner attrs method).typeNames.Nodup := by
  obtain ⟨-, ids, -⟩ := Symbols.ofModule_eq_ok.mp accepted.symbols
  have roots : ((ClassDef.ofMethod owner attrs method).roots.flatMap Expr.boundaryIds).Nodup := by
    simpa [Module.ofMethod, ClassDef.boundaryIds] using ids
  have distinct := Expr.closureNames_nodup roots owner
  simpa [Module.typeNames, Module.ofMethod, ClassDef.typeNames, ClassDef.ofMethod] using distinct

/-! ## Checked methods -/

/-- What a class with a method as its only member is checked as. -/
structure Program.IsMethod (program : Program) (context : TypeContext) (owner : Name)
    (attrs : TypeAttrs) (method : MethodDef) (body : Expr) (routine : Routine) (ctor : CoreCtor) :
    Prop where
  isProgram : program = [{
    name := owner
    attrs
    base := none
    interfaces := []
    fields := []
    methods := [⟨method.key owner, method.attrs, method.ret, some routine⟩]
    ctors := [ctor]
    properties := [] }]
  checked : context.ChecksRoutine
    ((ClassDef.ofMethod owner attrs method).arguments method.attrs.isStatic method.params)
    method.ret body routine
  concrete : method.attrs.isAbstract = false
  ctorKey : ctor.key = ⟨owner, []⟩
  receiver : ctor.routine.params.length = 1
  empty : ctor.routine.roots = [.seq []]
  base : ∀ callee ∈ ctor.routine.base, callee.platformCtor = .ctor .object []

theorem exists_singleton_of_forall₂ {α β : Type} {relation : α → β → Prop} {item : α}
    {others : List β} (related : List.Forall₂ relation [item] others) :
    ∃ other, relation item other ∧ others = [other] := by
  cases related with
  | cons first rest =>
      cases rest
      exact ⟨_, first, rfl⟩

theorem Expr.Checks.seq_nil {scope : Scope SourceTy} {core : Core}
    (checked : (Expr.seq []).Checks context scope core) : core = .seq [] := by
  cases checked.elaborates with
  | seq items =>
      cases items
      rfl
  | operation isOperation => cases isOperation

theorem checkRule_eq_ok {item : String} {rule : DeclarationRule} {broken : Bool} :
    checkRule item rule broken = .ok () ↔ broken = false := by
  cases broken <;> simp [checkRule]

/-- A class with a method that has a body is no interface, and the method is not abstract. -/
theorem ClassDef.concrete_of_body {owner : Name} {attrs : TypeAttrs} {method : MethodDef} {body : Expr}
    (valid : (ClassDef.ofMethod owner attrs method).validate = .ok ())
    (isBody : method.body = some body) :
    attrs.isInterface = false ∧ method.attrs.isAbstract = false := by
  simp only [validate, bind_eq_ok] at valid
  obtain ⟨_, -, _, all, -⟩ := valid
  have checked := forM_eq_ok.mp all method (List.mem_singleton_self _)
  simp only [checkMethod, bind_eq_ok] at checked
  obtain ⟨_, -, _, allowed, -⟩ := checked
  have kept := checkRule_eq_ok.mp allowed
  simpa [isBody, ofMethod, and_comm] using kept

/-- A constructor that is chosen without arguments has no parameters. -/
theorem TypeContext.platformCtor_of_select {type : SourceTy} {callee : Callee}
    (selected : context.selectCtor type [] = .ok callee) : callee.platformCtor = .ctor type [] := by
  have isCandidate := mem_of_select selected
  have fits : callee.params.length = 0 := by
    have chosen := select_eq_ok.mp selected
    dsimp only at chosen
    have listed : callee ∈ (context.ctorCandidates type).filter fun callee =>
        callee.params.length == ([] : List Core).length := by
      rcases chosen with exact | ⟨-, loose⟩
      · exact List.mem_of_mem_filter (exact ▸ List.mem_singleton_self callee)
      · exact List.mem_of_mem_filter (loose ▸ List.mem_singleton_self callee)
    exact beq_iff_eq.mp (List.mem_filter.mp listed).2
  obtain ⟨params, -, rfl⟩ := List.mem_map.mp isCandidate
  obtain rfl := List.length_eq_zero_iff.mp fits
  rfl

/-- An accepted module of one method with a body. -/
theorem Module.Accepted.isMethod {owner : Name} {attrs : TypeAttrs} {method : MethodDef}
    {body : Expr} {image : Image} {program : Program}
    (accepted : (Module.ofMethod owner attrs method).Accepted image context program)
    (isBody : method.body = some body) : ∃ routine ctor,
      program.IsMethod context owner attrs method body routine ctor := by
  have valid := (Symbols.ofModule_eq_ok.mp accepted.symbols).1 _ (List.mem_singleton_self _)
  obtain ⟨noInterface, concrete⟩ := ClassDef.concrete_of_body valid isBody
  obtain ⟨core, checked, rfl⟩ := exists_singleton_of_forall₂ accepted.classes
  obtain ⟨coreMethod, ofMethod, areMethods⟩ := exists_singleton_of_forall₂ checked.methods
  obtain ⟨ctor, ofCtor, areCtors⟩ : ∃ ctor,
      context.ChecksCtor (.ofMethod owner attrs method) .implicit ctor ∧ core.ctors = [ctor] := by
    have implicit : (ClassDef.ofMethod owner attrs method).allCtors = [.implicit] := by
      simp [ClassDef.allCtors, ClassDef.ofMethod, noInterface]
    exact exists_singleton_of_forall₂ (implicit ▸ checked.ctors)
  obtain ⟨routine, isRoutine, ofRoutine⟩ : ∃ routine, coreMethod.routine = some routine ∧
      context.ChecksRoutine
        ((ClassDef.ofMethod owner attrs method).arguments method.attrs.isStatic method.params)
        method.ret body routine := by
    have related := ofMethod.routine
    rw [isBody] at related
    cases isRoutine : coreMethod.routine with
    | none =>
        rw [isRoutine] at related
        cases related
    | some routine =>
        rw [isRoutine] at related
        cases related with
        | some holds => exact ⟨routine, rfl, holds⟩
  refine ⟨routine, ctor, ?_, ofRoutine, concrete, ofCtor.key, ?_, ?_, fun callee isBase => ?_⟩
  · have isMethod : coreMethod = ⟨method.key owner, method.attrs, method.ret, some routine⟩ := by
      cases coreMethod
      simp only [CoreMethod.mk.injEq]
      refine ⟨ofMethod.key, ofMethod.attrs.trans ?_, ofMethod.returns, isRoutine⟩
      simp [ClassDef.methodAttrs, ClassDef.ofMethod, noInterface]
    cases core
    simp only [List.cons.injEq, CoreClass.mk.injEq, and_true]
    exact ⟨checked.name, checked.attrs, checked.base, checked.interfaces, checked.fields,
      isMethod ▸ areMethods, areCtors, List.forall₂_nil_left_iff.mp checked.properties⟩
  · rw [ofCtor.params]
    rfl
  · rw [CtorRoutine.roots, List.forall₂_nil_left_iff.mp ofCtor.baseArgs, ofCtor.checked.seq_nil]
    rfl
  · have selected := ofCtor.base callee isBase
    rw [List.forall₂_nil_left_iff.mp ofCtor.baseArgs] at selected
    exact TypeContext.platformCtor_of_select selected

/-! ## Blueprints -/

/-- The class behind a function. -/
def Closure.blueprint (closure : Closure) : Blueprint where
  name := closure.typeName
  attrs := .sealedClass
  fields := closure.fieldKeys
  ctor := closure.ctorKey
  ctorSource := .closure closure
  method := closure.invokeKey
  methodAttrs := .publicInstance
  ret := closure.ret
  methodSource := .closure closure

/-- The functions in an expression. -/
def Core.closures (host : Name) (core : Core) : List Closure :=
  core.preorder.filterMap (closure? host)

/-- The class of a method. -/
def Blueprint.ofMethod (owner : Name) (attrs : TypeAttrs) (method : MethodDef) (routine : Routine)
    (ctor : CoreCtor) : Blueprint where
  name := owner
  attrs
  fields := []
  ctor := ctor.key
  ctorSource := .routine ctor.routine
  method := method.key owner
  methodAttrs := method.attrs
  ret := method.ret
  methodSource := .routine routine

/-- What a module of one method is built from. -/
def Blueprint.allOfMethod (owner : Name) (attrs : TypeAttrs) (method : MethodDef) (routine : Routine)
    (ctor : CoreCtor) : List Blueprint :=
  .ofMethod owner attrs method routine ctor ::
    (routine.body.closures owner).map Closure.blueprint

namespace Program.IsMethod

variable {program : Program} {context : TypeContext} {owner : Name} {attrs : TypeAttrs}
variable {method : MethodDef} {body : Expr} {routine : Routine} {ctor : CoreCtor}
variable (isMethod : program.IsMethod context owner attrs method body routine ctor)
include isMethod

/-- The body is a root of the class. -/
theorem exists_root : ∃ cls ∈ program, cls.name = owner ∧ routine.body ∈ cls.roots := by
  rw [isMethod.isProgram]
  exact ⟨_, List.mem_singleton_self _, rfl,
    CoreClass.mem_roots_of_method (List.mem_singleton_self _) rfl⟩

/-- A module of one method is built from the blueprints of its class and of its functions. -/
theorem tasks_perm (blockless : ∀ node ∈ routine.body.preorder, ∀ host, node.block? host = none) :
    program.tasks.Perm
      ((Blueprint.allOfMethod owner attrs method routine ctor).flatMap (Blueprint.tasks owner)) := by
  have roots : Core.preorderAll (routine.body :: ctor.routine.roots) =
      routine.body.preorder ++ [Core.seq []] := by
    rw [isMethod.empty]
    simp [Core.preorderAll, Core.preorder]
  have lifted : (Core.preorderAll (routine.body :: ctor.routine.roots)).flatMap
      (Core.liftedTasks owner) = (routine.body.closures owner).flatMap (Closure.tasks owner) := by
    rw [roots, List.flatMap_append, Core.closures, flatMap_filterMap]
    refine (List.append_nil _).trans (List.flatMap_congr fun node isNode => ?_)
    simp [Core.liftedTasks, blockless node isNode]
  have closures : ((routine.body.closures owner).map Closure.blueprint).flatMap
      (Blueprint.tasks owner) = (routine.body.closures owner).flatMap (Closure.tasks owner) := by
    rw [List.flatMap_map]
    rfl
  have listed : program.tasks = Task.declareType owner attrs none [] ::
      [Task.declareMethod (method.key owner) method.attrs method.ret,
        Task.defineMethod owner (method.key owner) (.routine routine)] ++
      [Task.declareCtor ctor.key, Task.defineCtor owner ctor.key (.routine ctor.routine)] ++
      (Core.preorderAll (routine.body :: ctor.routine.roots)).flatMap (Core.liftedTasks owner) ++
      [Task.complete owner []] := by
    rw [isMethod.isProgram]
    simp [Program.tasks, CoreClass.tasks, CoreClass.roots, CoreMethod.tasks, CoreCtor.tasks,
      CoreClass.declaredSupertypes]
  have planned : (Blueprint.allOfMethod owner attrs method routine ctor).flatMap
      (Blueprint.tasks owner) = Task.declareType owner attrs none [] ::
      [Task.declareCtor ctor.key, Task.defineCtor owner ctor.key (.routine ctor.routine)] ++
      [Task.declareMethod (method.key owner) method.attrs method.ret,
        Task.defineMethod owner (method.key owner) (.routine routine)] ++
      ([Task.complete owner []] ++ (routine.body.closures owner).flatMap (Closure.tasks owner)) := by
    rw [Blueprint.allOfMethod, List.flatMap_cons, closures]
    rfl
  rw [listed, lifted, planned, List.append_assoc]
  exact (List.perm_append_comm.cons _).append List.perm_append_comm

/-- The names of the types are those that the module is compiled to. -/
theorem names_eq : (Blueprint.allOfMethod owner attrs method routine ctor).map Blueprint.name =
    owner :: body.closureNames owner := by
  rw [← isMethod.checked.checked.closureNames owner, Core.closureNames, Blueprint.allOfMethod,
    List.map_cons, List.map_map, ← List.map_filterMap]
  rfl

end Program.IsMethod

end ClassForge
