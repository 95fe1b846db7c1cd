import ClassForge.Proofs.Build.MethodModules
import ClassForge.Proofs.Code.BalancedBuilds

/-!
# Building a module of one method

When the names of the types of a module of one method are free and the types that its body is
annotated with are known, the target refuses nothing but one local too many.  It refuses that, and
an instruction cannot name an argument, only if the method has 65536 parameters and variables or
more.
-/

namespace ClassForge

open Schedule

/-! ## Functions in a body -/

section Functions

variable {image : Image} {names : List Name} {host : Name} {core node : Core} {closure : Closure}

/-- The code of an elementary expression mentions no other classes. -/
theorem Core.Elementary.mem_of_references {name : Name} (elementary : core.Elementary image names)
    (isInput : .type name ∈ references host [core]) : name ∈ names := by
  obtain ⟨root, isRoot, node, isNode, isKey⟩ := mem_references.mp isInput
  obtain rfl := List.mem_singleton.mp isRoot
  have isHere := elementary node isNode
  have mentioned : ∀ {types : List SourceTy}, (∀ type ∈ types, image.knows names type = true) →
      Key.type name ∈ typeKeys types → name ∈ names := by
    intro types areKnown isKey
    obtain ⟨type, isType, _, isName, ⟨⟩⟩ := mem_typeKeys.mp isKey
    exact Image.mem_of_knows type (areKnown type isType) isName
  simp only [Core.nodeKeys, List.mem_append, isHere.keyless, Option.toList_none,
    List.not_mem_nil, or_false] at isKey
  rcases isKey with ((isOwn | isMentioned) | isCaptured) | isLifted
  · exact mentioned (List.forall_mem_singleton.mpr isHere.known) isOwn
  · exact mentioned isHere.mentioned isMentioned
  · exact mentioned (List.forall_mem_map.mpr isHere.captured) isCaptured
  · rw [Core.liftedKeys, isHere.blockless] at isLifted
    cases isClosure : node.closure? host <;> simp [isClosure] at isLifted

/-- The class of a function in an elementary expression mentions known types only. -/
theorem Closure.known (built : image.Built) (elementary : node.Elementary image names)
    (isClosure : node.closure? host = some closure) : closure.blueprint.Known image names host := by
  have own := elementary.self
  have isBody : closure.body.Elementary image names := fun inner isInner =>
    elementary inner (preorder_subset_of_closure? isClosure isInner)
  obtain ⟨captures, params, ret⟩ : closure.captures = node.captures ∧
      closure.paramTypes = node.mentioned ∧ image.knows names closure.ret = true := by
    cases node with
    | lambda =>
        cases isClosure
        exact ⟨rfl, rfl, isBody.known⟩
    | loop =>
        cases isClosure
        exact ⟨rfl, List.map_map, own.known⟩
    | _ => cases isClosure
  have captured : ∀ capture ∈ closure.captures, image.knows names capture.type = true :=
    captures ▸ own.captured
  have paramsKnown : ∀ type ∈ closure.paramTypes, image.knows names type = true :=
    params ▸ own.mentioned
  have fieldless : ∀ {name}, Key.type name ∉ closure.fieldKeys.map .field := by
    intro name isField
    obtain ⟨_, -, ⟨⟩⟩ := List.mem_map.mp isField
  exact {
    fields := List.forall_mem_map.mpr fun capture isCapture =>
      built.knows_cell (captured capture isCapture)
    ctor := List.forall_mem_map.mpr fun capture isCapture =>
      built.knows_cell (captured capture isCapture)
    method := List.forall_mem_append.mpr ⟨paramsKnown, List.forall_mem_singleton.mpr ret⟩
    methodInputs := fun name isInput => by
      simp only [blueprint, MethodSource.inputs, List.mem_append] at isInput
      rcases isInput with (isField | isCapture) | isReference
      · exact absurd isField fieldless
      · obtain ⟨type, isType, _, isName, ⟨⟩⟩ := mem_typeKeys.mp isCapture
        obtain ⟨capture, isCapture, rfl⟩ := List.mem_map.mp isType
        exact .inr (Image.mem_of_knows _ (captured capture isCapture) isName)
      · exact .inr (isBody.mem_of_references isReference)
    ctorInputs := fun name isInput => absurd isInput fieldless }

/-- A function binds no more variables than the expression that it stands in. -/
theorem Closure.bindingCount_le (isNode : node ∈ core.preorder)
    (isClosure : node.closure? host = some closure) :
    closure.params.length + closure.body.bindingCount ≤ core.bindingCount := by
  refine Nat.le_trans ?_ (Core.bindingCount_le isNode)
  rw [Core.bindingCount_eq node]
  refine Nat.add_le_add ?_ (Core.bindingCount_le_of_mem (Core.mem_parts_of_closure? isClosure))
  cases node <;> cases isClosure
  · simp [Closure.ofLoop, Core.bindings]
  · exact Nat.le_refl _

/-- A function in a checked expression captures each variable once. -/
theorem Expr.Checks.exists_function {context : TypeContext} {scope : Scope SourceTy} {expr : Expr}
    (checked : expr.Checks context scope core) (within : scope.Within names)
    (isFunction : closure ∈ core.closures host) :
    ∃ node ∈ core.preorder, node.closure? host = some closure ∧ node.preorder ⊆ core.preorder ∧
      (closure.captures.map Param.name).Nodup ∧
        closure.captures.length ≤ names.length + expr.boundNames.length := by
  obtain ⟨node, isNode, isClosure⟩ := List.mem_filterMap.mp isFunction
  have start : Checkpoint.Accepted context ⟨scope, expr, core⟩ := checked
  obtain ⟨inner, reaches, rfl⟩ := start.exists_reaches isNode
  obtain ⟨outer, innerWithin, subset⟩ := reaches.within start within
  have innerChecked : inner.expr.Checks context inner.types inner.core := reaches.accepted start
  obtain ⟨apart, captured⟩ := innerChecked.captures_names isClosure innerWithin
  refine ⟨_, isNode, isClosure, reaches.preorder_subset, apart, ?_⟩
  have all : closure.captures.map Param.name ⊆ names ++ expr.boundNames := by
    refine List.Subset.trans captured (List.Subset.trans ?_ subset)
    refine List.append_subset.mpr ⟨List.subset_append_left _ _, fun name isBound => ?_⟩
    rw [Expr.boundNames_eq]
    exact List.mem_append_right _ (List.mem_append_left _ isBound)
  simpa using (List.subperm_of_subset apart all).length_le

end Functions

theorem Scope.Within.ofParams (params : List Param) :
    (Scope.ofParams params : Scope SourceTy).Within (params.map Param.name) := by
  have within := Scope.Within.empty.bindAll (params.map fun param => (param.name, param.type))
  rwa [List.map_map] at within

/-! ## Faults of a body -/

/-- The refusal of one local too many, when there are many variables. -/
def TooManyLocals (count : Nat) (error : ImageError) : Prop :=
  error = .tooManyLocals ∧ Emitter.maxLocals ≤ count

/-- Code that asks for nothing but locals, and gets those if there are few variables. -/
theorem Yields.allowed {α : Type} {result : Except Diagnostic α} {count : Nat}
    (spares : Yields Diagnostic.SparesTarget result fun _ => True)
    (grants : count ≤ Emitter.maxLocals → Yields Diagnostic.GrantsLocals result fun _ => True) :
    Yields (Diagnostic.Allowed (TooManyLocals count)) result fun _ => True := by
  cases result with
  | ok value => trivial
  | error diagnostic =>
      rintro error rfl
      obtain rfl := spares error rfl
      refine ⟨rfl, Nat.le_of_not_le fun few => ?_⟩
      exact grants few rfl

/-! ## The build -/

section Builds

variable {owner : Name} {attrs : TypeAttrs} {method : MethodDef} {body : Expr} {image : Image}
variable {context : TypeContext} {program : Program} {routine : Routine} {ctor : CoreCtor}
variable {plan : Blueprint}

/-- What a method takes, and what its body binds. -/
def MethodDef.variableCount (method : MethodDef) (owner : Name) (attrs : TypeAttrs) (body : Expr) :
    Nat :=
  ((ClassDef.ofMethod owner attrs method).arguments method.attrs.isStatic method.params).length +
    body.boundNames.length

/-- A method whose body has no objects, of known types, in a class whose types have free names. -/
structure MethodDef.Standalone (method : MethodDef) (owner : Name) (attrs : TypeAttrs) (body : Expr)
    (image : Image) : Prop where
  isBody : method.body = some body
  arguments : ∀ argument ∈
    (ClassDef.ofMethod owner attrs method).arguments method.attrs.isStatic method.params,
      image.knows [owner] argument.type = true
  ret : image.knows [owner] method.ret = true
  elementary : body.Elementary image [owner]
  free : ∀ name ∈ (Module.ofMethod owner attrs method).typeNames, image.typeNamed? name = none

variable (accepted : (Module.ofMethod owner attrs method).Accepted image context program)
variable (built : image.Built) (standalone : method.Standalone owner attrs body image)
variable (isMethod : program.IsMethod context owner attrs method body routine ctor)

include built standalone isMethod in
theorem Program.IsMethod.elementary : routine.body.Elementary image [owner] := by
  refine isMethod.checked.checked.elementary built standalone.elementary ?_
  refine Scope.Known.empty.bindAll (List.forall_mem_map.mpr fun param isParam => ?_)
  exact standalone.arguments param isParam

/-- The blueprints of a module of one method, one for its class and one for each function. -/
theorem Blueprint.mem_allOfMethod :
    plan ∈ allOfMethod owner attrs method routine ctor ↔
      plan = .ofMethod owner attrs method routine ctor ∨
        ∃ closure ∈ routine.body.closures owner, plan = closure.blueprint := by
  simp only [allOfMethod, List.mem_cons, List.mem_map, eq_comm]

namespace Program.IsMethod

include isMethod in
/-- A function in the method captures no more variables than there are. -/
theorem exists_function {closure : Closure} (isFunction : closure ∈ routine.body.closures owner) :
    ∃ node ∈ routine.body.preorder, node.closure? owner = some closure ∧
      node.preorder ⊆ routine.body.preorder ∧ (closure.captures.map Param.name).Nodup ∧
        closure.captures.length ≤ method.variableCount owner attrs body := by
  have found := isMethod.checked.checked.exists_function (.ofParams _) isFunction
  rwa [List.length_map] at found

include built standalone isMethod in
/-- The classes of a method and of its functions are built from blueprints. -/
theorem planned (accepted : (Module.ofMethod owner attrs method).Accepted image context program) :
    program.Planned owner (Blueprint.allOfMethod owner attrs method routine ctor) where
  tasks := isMethod.tasks_perm fun node isNode host =>
    (isMethod.elementary built standalone node isNode).blockless host
  apart := by
    have distinct := accepted.typeNames_nodup
    rw [isMethod.names_eq]
    simpa [Module.typeNames, Module.ofMethod, ClassDef.typeNames, ClassDef.ofMethod, ClassDef.roots,
      standalone.isBody] using distinct
  formed := by
    intro plan isPlan
    rcases Blueprint.mem_allOfMethod.mp isPlan with rfl | ⟨closure, isFunction, rfl⟩
    · exact ⟨List.forall_mem_nil _, List.nodup_nil, congrArg CtorKey.owner isMethod.ctorKey, rfl, isMethod.concrete⟩
    · obtain ⟨_, -, -, -, apart, -⟩ := isMethod.exists_function isFunction
      refine ⟨fun key isKey => ?_, ?_, rfl, rfl, rfl⟩
      · obtain ⟨_, -, rfl⟩ := List.mem_map.mp isKey
        rfl
      · have names : closure.fieldKeys.map FieldKey.name = closure.captures.map Param.name :=
          List.map_map
        rwa [Closure.blueprint, names]

include built standalone isMethod in
/-- The blueprints mention known types only. -/
theorem known (isPlan : plan ∈ Blueprint.allOfMethod owner attrs method routine ctor) :
    plan.Known image [owner] owner := by
  have elementary := isMethod.elementary built standalone
  rcases Blueprint.mem_allOfMethod.mp isPlan with rfl | ⟨closure, isFunction, rfl⟩
  · have none : (Core.seq []).Elementary image [owner] :=
      .of_parts (.of_known built.knows_void ⟨rfl, rfl, rfl, fun _ => rfl, rfl⟩) (List.forall_mem_nil _)
    have params : ∀ type ∈ (method.key owner).params, image.knows [owner] type = true := by
      refine List.forall_mem_map.mpr fun param isParam => standalone.arguments param ?_
      unfold ClassDef.arguments
      split
      · exact isParam
      · exact List.mem_cons_of_mem _ isParam
    exact {
      fields := nofun
      ctor := by simp [Blueprint.ofMethod, isMethod.ctorKey]
      method := List.forall_mem_append.mpr ⟨params, List.forall_mem_singleton.mpr standalone.ret⟩
      methodInputs := fun name isInput => by
        rcases List.mem_cons.mp isInput with same | isReference
        · exact .inl (Key.type.inj same)
        · exact .inr (elementary.mem_of_references isReference)
      ctorInputs := fun name isInput => by
        simp only [Blueprint.ofMethod, CtorSource.inputs, isMethod.ctorKey, isMethod.empty,
          List.mem_append, List.mem_cons, List.mem_map] at isInput
        rcases isInput with (same | isReference) | ⟨_, -, ⟨⟩⟩
        · exact .inl (Key.type.inj same)
        · exact .inr (none.mem_of_references isReference) }
  · obtain ⟨node, isNode, isClosure, within, -⟩ := isMethod.exists_function isFunction
    exact closure.known built (fun inner isInner => elementary inner (within isInner)) isClosure

include isMethod in
theorem params_length : routine.params.length =
    ((ClassDef.ofMethod owner attrs method).arguments method.attrs.isStatic method.params).length := by
  rw [isMethod.checked.params]
  exact List.length_map _

include isMethod in
theorem bindingCount : routine.params.length + routine.body.bindingCount =
    method.variableCount owner attrs body := by
  rw [isMethod.params_length, isMethod.checked.checked.bindingCount]
  rfl

include built standalone isMethod in
/-- The code of the bodies asks the target for nothing that it lacks, one local too many apart. -/
theorem codes (isPlan : plan ∈ Blueprint.allOfMethod owner attrs method routine ctor)
    (lowering : LowerContext) (later : lowering.image.Built)
    (growth : image.Extends lowering.image) :
    Yields (Diagnostic.Allowed (TooManyLocals (method.variableCount owner attrs body)))
        (plan.methodSource.code lowering) (fun _ => True) ∧
      Yields (Diagnostic.Allowed (TooManyLocals (method.variableCount owner attrs body)))
        (plan.ctorSource.code lowering) fun _ => True := by
  have elementary := isMethod.elementary built standalone
  have object := PlatformMember.objectCtor_found later
  have total := isMethod.bindingCount
  rcases Blueprint.mem_allOfMethod.mp isPlan with rfl | ⟨closure, isFunction, rfl⟩
  · refine ⟨(Routine.code_spares later fun node isNode =>
      (elementary node isNode).asks lowering later growth).allowed fun room =>
        Routine.code_grants lowering (total ▸ room), ?_⟩
    refine (CtorRoutine.code_spares later (fun callee isBase _ => isMethod.base callee isBase ▸ object)
      fun root isRoot node isNode => ?_).allowed fun _ => CtorRoutine.code_grants lowering ?_
    · rw [isMethod.empty, List.mem_singleton] at isRoot
      subst isRoot
      rw [List.mem_singleton.mp isNode]
      exact List.forall_mem_nil _
    · rw [isMethod.receiver, isMethod.empty]
      decide +kernel
  · obtain ⟨node, isNode, isClosure, within, -⟩ := isMethod.exists_function isFunction
    refine ⟨(Closure.invokeCode_spares later fun inner isInner => ?_).allowed fun room => ?_,
      (closure.ctorCode_spares later object).allowed fun _ => closure.ctorCode_grants lowering⟩
    · exact (elementary inner (within (preorder_subset_of_closure? isClosure isInner))).asks lowering
        later growth
    · refine Closure.invokeCode_grants lowering (Nat.le_trans ?_ (total ▸ room))
      exact Nat.le_trans (Closure.bindingCount_le isNode isClosure) (Nat.le_add_left _ _)

include built standalone isMethod in
/-- An instruction can name the arguments unless there are as many as slots. -/
theorem le_of_crowded (accepted : (Module.ofMethod owner attrs method).Accepted image context program)
    (crowded : program.Crowded) : maxArgs ≤ method.variableCount owner attrs body := by
  obtain ⟨task, isTask, many⟩ := crowded
  obtain ⟨plan, isPlan, isPlanned⟩ := (isMethod.planned built standalone accepted).mem_tasks.mp isTask
  have total := isMethod.bindingCount
  have ofSources : (∃ key, task = .defineMethod owner key plan.methodSource) ∨
      ∃ key, task = .defineCtor owner key plan.ctorSource := by
    cases Blueprint.mem_tasks.mp isPlanned with
    | ctorCode => exact .inr ⟨_, rfl⟩
    | methodCode => exact .inl ⟨_, rfl⟩
    | _ => cases many
  rcases Blueprint.mem_allOfMethod.mp isPlan with rfl | ⟨closure, isFunction, rfl⟩
  · rcases ofSources with ⟨_, rfl⟩ | ⟨_, rfl⟩
    · have many : maxArgs < routine.params.length := many
      omega
    · have many : maxArgs < ctor.routine.params.length := many
      exact absurd (isMethod.receiver ▸ many) (by decide +kernel)
  · obtain ⟨node, isNode, isClosure, -, -, captured⟩ := isMethod.exists_function isFunction
    rcases ofSources with ⟨_, rfl⟩ | ⟨_, rfl⟩
    · have many : maxArgs < closure.params.length + 1 := many
      have bound := Closure.bindingCount_le isNode isClosure
      omega
    · have many : maxArgs < closure.captures.length + 1 := many
      omega

end Program.IsMethod

/-- A class without supertypes does not inherit from itself. -/
theorem Module.not_inheritsCyclically_ofMethod (owner : Name) (attrs : TypeAttrs)
    (method : MethodDef) : ¬(Module.ofMethod owner attrs method).InheritsCyclically := by
  rintro ⟨name, cycle⟩
  obtain ⟨other, ⟨cls, isClass, -, -, type, isType, -⟩, -⟩ := Relation.TransGen.head'_iff.mp cycle
  obtain rfl := List.mem_singleton.mp isClass
  cases isType

/-- A module of one method compiles, unless the method has 65536 parameters and variables or
more. -/
theorem MethodDef.Standalone.compile_fault {options : CompileOptions} {diagnostic : Diagnostic}
    (standalone : method.Standalone owner attrs body image) (built : image.Built)
    (checked : (Module.ofMethod owner attrs method).check image = .ok program)
    (failed : ((Module.ofMethod owner attrs method).compile options image).1 = .error diagnostic) :
    65536 ≤ method.variableCount owner attrs body ∧
      (diagnostic = .target .tooManyLocals ∨ ∃ index : Nat,
        diagnostic = .internal ("argument index " ++ toString index ++ " out of range")) := by
  obtain ⟨context, accepted⟩ := Module.accepted_of_check checked
  obtain ⟨routine, ctor, isMethod⟩ := accepted.isMethod standalone.isBody
  have planned := isMethod.planned built standalone accepted
  rw [Module.compile_of_check checked] at failed
  have named : ∀ name ∈ [owner], ∃ plan ∈ Blueprint.allOfMethod owner attrs method routine ctor,
      plan.name = name :=
    List.forall_mem_singleton.mpr ⟨_, List.mem_cons_self, rfl⟩
  have free : ∀ plan ∈ Blueprint.allOfMethod owner attrs method routine ctor,
      image.typeNamed? plan.name = none := by
    intro plan isPlan
    have isName := List.mem_map_of_mem isPlan (f := Blueprint.name)
    rw [isMethod.names_eq] at isName
    refine standalone.free plan.name ?_
    simpa [Module.typeNames, Module.ofMethod, ClassDef.typeNames, ClassDef.ofMethod, ClassDef.roots,
      standalone.isBody] using isName
  rcases planned.build_fault accepted built (fun _ => isMethod.known built standalone) named
    (Module.not_inheritsCyclically_ofMethod owner attrs method) free
    (fun _ => isMethod.codes built standalone) failed with ⟨_, rfl, rfl, many⟩ | ⟨crowded, isArgument⟩
  · exact ⟨many, .inl rfl⟩
  · exact ⟨isMethod.le_of_crowded built standalone accepted crowded, .inr isArgument⟩

end Builds

end ClassForge
