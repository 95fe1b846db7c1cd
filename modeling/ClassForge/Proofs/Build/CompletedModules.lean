import ClassForge.Proofs.Build.InheritanceCycles
import ClassForge.Proofs.Build.TypeNames
import ClassForge.Proofs.Typing.DeclarationOrder

/-!
# Compiled modules are complete

A module that compiles is compiled as a whole.  It has an entry for each of its classes,
functions and loops and no other entry, each entry leads to a completed type of its name,
every member of a class is declared once on the type of the class and has the code that it
needs, and everything that was in the image before is there unchanged.
-/

namespace ClassForge

open Schedule

variable {image : Image} {options : CompileOptions} {compiled : CompiledModule}
variable {module : Module} {after : Image} {program : Program}

/-! ## Entries of a resolution -/

theorem KeyTable.Keyed.insert? {α : Type} {table extended : KeyTable α} {key : Key} {value : α}
    (keyed : table.Keyed) (added : table.insert? key value = some extended) :
    extended.Keyed := by
  unfold KeyTable.insert? at added
  split at added
  · cases added
  · rename_i fresh
    cases added
    rw [KeyTable.contains_iff] at fresh
    rw [KeyTable.Keyed, List.map_append, List.map_singleton, ← List.concat_eq_append,
      List.nodup_concat]
    exact ⟨fresh, keyed⟩

/-- A build resolves a key once. -/
theorem Build.Moves.keyed {before after : BuildState Image} (moves : Build.Moves before after)
    (keyed : before.resolution.Keyed) : after.resolution.Keyed := by
  induction moves with
  | refl => exact keyed
  | tail _ move ih =>
      cases move with
      | declareType _ added | declareField _ _ added | declareMethod _ _ added
      | declareCtor _ _ added | declareProperty _ _ added | complete _ _ added =>
          exact ih.insert? added
      | defineMethod | defineCtor => exact ih

namespace CompiledModule

variable {compiled : CompiledModule} {resolution : Resolution} {name moduleName : Name}
variable {realized : RealizedType}

/-- The handle of a type of the module. -/
def typeHandle (compiled : CompiledModule) (name : Name) : Except Diagnostic TypeHandle :=
  match compiled.get? name with
  | some realized => .ok realized.handle
  | none => .error (.unresolved (.completed name))

/-- Replace types of the module by their handles. -/
def runTy (compiled : CompiledModule) (type : SourceTy) : Except Diagnostic RunTy :=
  type.resolve compiled.typeHandle

/-- Replace types of the module by their handles throughout a list. -/
def runTys (compiled : CompiledModule) (types : List SourceTy) : Except Diagnostic (List RunTy) :=
  Ty.resolveList compiled.typeHandle types

theorem mem_types_ofResolution :
    (name, realized) ∈ (ofResolution moduleName resolution).types ↔
      (.completed name, .completed realized) ∈ resolution.entries := by
  have sorted : ∀ entry, entry ∈ resolution.sorted ↔ entry ∈ resolution.entries :=
    fun _ => (List.mergeSort_perm _ _).mem_iff
  simp only [ofResolution, List.mem_filterMap, sorted]
  constructor
  · rintro ⟨⟨key, resolved⟩, member, chosen⟩
    split at chosen
    · rename_i same
      cases same
      cases chosen
      exact member
    · cases chosen
  · exact fun member => ⟨_, member, rfl⟩

theorem nodup_ofResolution (keyed : resolution.Keyed) :
    ((ofResolution moduleName resolution).types.map Prod.fst).Nodup := by
  have sorted : (resolution.sorted.map Prod.fst).Nodup :=
    ((List.mergeSort_perm _ _).map Prod.fst).nodup_iff.mpr keyed
  rw [ofResolution, List.Nodup, List.pairwise_map, List.pairwise_filterMap]
  refine (List.pairwise_map.mp sorted).imp fun {first second} different => ?_
  rintro ⟨name, realized⟩ chosen ⟨other, another⟩ alsoChosen rfl
  refine different ?_
  split at chosen
  · split at alsoChosen
    · cases chosen
      cases alsoChosen
      rfl
    · cases alsoChosen
  · cases chosen

theorem get?_eq_some_of_mem (distinct : (compiled.types.map Prod.fst).Nodup)
    (member : (name, realized) ∈ compiled.types) : compiled.get? name = some realized := by
  unfold get?
  cases found : compiled.types.lookup name with
  | none =>
      have absent := List.lookup_eq_none_iff.mp found _ member
      simp at absent
  | some other =>
      obtain ⟨before, after, shape, -⟩ := List.lookup_eq_some_iff.mp found
      have isOther : (name, other) ∈ compiled.types := by simp [shape]
      have same := List.inj_on_of_nodup_map distinct isOther member rfl
      rw [(Prod.mk.inj same).2]

theorem typeHandle_eq_ok (found : compiled.get? name = some realized) :
    compiled.typeHandle name = .ok realized.handle := by
  unfold typeHandle
  rw [found]

end CompiledModule

/-! ## Members that are declared once -/

namespace Image

variable (image : Image) (info : TypeInfo)

/-- A type has exactly one field of a name: it is of this type and has these attributes. -/
def DeclaresField (name : Name) (type : RunTy) (attrs : FieldAttrs) : Prop :=
  ∃ handle field, (image.fieldsOf info).filter (fun entry => entry.2.name = name) =
    [(handle, field)] ∧ field.type = type ∧ field.attrs = attrs

/-- A type has exactly one method of a signature: it has this handle, returns this and has
these attributes, and it has code unless it is abstract. -/
def DeclaresMethod (handle : MethodHandle) (name : Name) (params : List RunTy) (ret : RunTy)
    (attrs : MethodAttrs) : Prop :=
  ∃ method, (image.methodsOf info).filter (fun entry =>
      entry.2.signature = (name, params, attrs.isStatic)) = [(handle, method)] ∧
    method.ret = ret ∧ method.attrs = attrs ∧
    (attrs.isAbstract = false → ∃ body, method.implementation = .code body)

/-- A type has exactly one constructor with these parameters, and it has code. -/
def DeclaresCtor (params : List RunTy) : Prop :=
  ∃ handle ctor body, (image.ctorsOf info).filter (fun entry => entry.2.params = params) =
    [(handle, ctor)] ∧ ctor.implementation = .code body

/-- A type has exactly one property of a name: it is of this type and has these
accessors. -/
def DeclaresProperty (name : Name) (type : RunTy) (getter setter : Option MethodHandle) : Prop :=
  ∃ handle property, (image.propertiesOf info).filter (fun entry => entry.2.name = name) =
    [(handle, property)] ∧ property.type = type ∧ property.getter = getter ∧
      property.setter = setter

end Image

/-- The members of a class are declared once each on the type that it was compiled to. -/
structure ClassDef.DeclaredAs (cls : ClassDef) (compiled : CompiledModule) (image : Image)
    (info : TypeInfo) : Prop where
  attrs : info.attrs = cls.attrs
  fields : ∀ field ∈ cls.fields, ∃ type, compiled.runTy field.type = .ok type ∧
    image.DeclaresField info field.name type field.attrs
  methods : ∀ method ∈ cls.methods, ∃ handle params ret,
    compiled.runTys method.paramTypes = .ok params ∧ compiled.runTy method.ret = .ok ret ∧
      image.DeclaresMethod info handle method.name params ret (cls.methodAttrs method.attrs)
  ctors : ∀ ctor ∈ cls.ctors, ∃ params, compiled.runTys ctor.paramTypes = .ok params ∧
    image.DeclaresCtor info params
  implicitCtor : cls.ctors = [] → cls.attrs.isInterface = false → image.DeclaresCtor info []
  properties : ∀ property ∈ cls.properties, ∃ type getter setter,
    compiled.runTy property.type = .ok type ∧
      image.DeclaresProperty info property.name type getter setter ∧
      getter.isSome = property.getter.isSome ∧ setter.isSome = property.setter.isSome ∧
      (∀ handle ∈ getter, image.DeclaresMethod info handle (getterName property.name) [] type
        (.generated property.isStatic)) ∧
      ∀ handle ∈ setter, image.DeclaresMethod info handle (setterName property.name) [type] .void
        (.generated property.isStatic)

/-- Of entries that are told apart by something, one is found by it. -/
theorem filter_eq_singleton {α σ : Type} [DecidableEq σ] {measure : α → σ} {items : List α}
    {item : α} (distinct : (items.map measure).Nodup) (member : item ∈ items) :
    items.filter (fun other => measure other = measure item) = [item] := by
  induction items with
  | nil => cases member
  | cons first rest ih =>
      obtain ⟨isNew, distinct⟩ := List.nodup_cons.mp distinct
      rw [List.filter_cons]
      rcases List.mem_cons.mp member with rfl | later
      · rw [if_pos (by simp)]
        congr 1
        refine List.filter_eq_nil_iff.mpr fun other isOther same => isNew ?_
        exact List.mem_map.mpr ⟨other, isOther, of_decide_eq_true same⟩
      · rw [if_neg fun same => isNew ?_]
        · exact ih distinct later
        · exact List.mem_map.mpr ⟨item, later, (of_decide_eq_true same).symm⟩

/-- A listed entry is the only one of its signature. -/
theorem Listed.filter_eq_singleton {η α σ : Type} [DecidableEq σ] {find : η → Option α}
    {signature : α → σ} {good : α → Prop} {handles : List η}
    (listed : Listed find signature good handles) {handle : η} {entry : α}
    (member : handle ∈ handles) (isEntry : find handle = some entry) :
    (handles.filterMap fun handle => (find handle).map fun entry => (handle, entry)).filter
        (fun other => signature other.2 = signature entry) = [(handle, entry)] := by
  have distinct : ((handles.filterMap fun handle =>
      (find handle).map fun entry => (handle, entry)).map fun other => signature other.2).Nodup := by
    simpa only [List.map_filterMap, Option.map_map, Function.comp_def] using listed.distinct
  have isListed : (handle, entry) ∈ handles.filterMap fun handle =>
      (find handle).map fun entry => (handle, entry) :=
    List.mem_filterMap.mpr ⟨handle, member, by rw [isEntry]; rfl⟩
  exact ClassForge.filter_eq_singleton distinct isListed

namespace BuildState

variable {state : BuildState Image} {owner : TypeHandle} {info : TypeInfo}
variable {params : List SourceTy}
variable {attrs : MethodAttrs}

theorem HoldsField.declares {key : FieldKey} {attrs : FieldAttrs}
    (holds : state.HoldsField key attrs) (isOwner : state.resolution.type key.owner = .ok owner)
    (isInfo : state.target.type? owner = some info)
    (entry : state.target.DeclaredEntry info) :
    ∃ type, state.resolution.runTy key.type = .ok type ∧
      state.target.DeclaresField info key.name type attrs := by
  obtain ⟨_, _, handle, field, sameOwner, sameInfo, listed, -, isField, isName, isAttrs, isType⟩ :=
    holds
  cases sameOwner.symm.trans isOwner
  cases sameInfo.symm.trans isInfo
  refine ⟨field.type, isType, handle, field, ?_, rfl, isAttrs⟩
  rw [← isName]
  exact entry.fields.filter_eq_singleton listed isField

theorem HoldsMethod.declares {key : MethodKey} {ret : SourceTy}
    (holds : state.HoldsMethod key attrs params ret)
    (isOwner : state.resolution.type key.owner = .ok owner)
    (isInfo : state.target.type? owner = some info) (complete : info.isComplete = true)
    (entry : state.target.DeclaredEntry info) :
    ∃ handle types type, state.resolution.method key = .ok handle ∧
      state.resolution.runTys params = .ok types ∧ state.resolution.runTy ret = .ok type ∧
      state.target.DeclaresMethod info handle key.name types type attrs := by
  obtain ⟨_, _, handle, method, sameOwner, sameInfo, listed, resolved, isMethod, isName, isAttrs,
    areParams, isRet⟩ := holds
  cases sameOwner.symm.trans isOwner
  cases sameInfo.symm.trans isInfo
  refine ⟨handle, method.params, method.ret, resolved, areParams, isRet, method, ?_, rfl, isAttrs,
    fun concrete => ?_⟩
  · rw [← isName, ← isAttrs]
    exact entry.methods.filter_eq_singleton listed isMethod
  · obtain ⟨found, isFound, isOwn⟩ := entry.methods.found handle listed
    cases isFound.symm.trans isMethod
    rw [← isAttrs] at concrete
    exact Implementation.exists_code isOwn
      (entry.methodBodies complete handle listed method isMethod concrete)

theorem HoldsCtor.declares {key : CtorKey} (holds : state.HoldsCtor key)
    (isOwner : state.resolution.type key.owner = .ok owner)
    (isInfo : state.target.type? owner = some info) (complete : info.isComplete = true)
    (entry : state.target.DeclaredEntry info) :
    ∃ types, state.resolution.runTys key.params = .ok types ∧
      state.target.DeclaresCtor info types := by
  obtain ⟨_, _, handle, ctor, sameOwner, sameInfo, listed, -, isCtor, areParams⟩ := holds
  cases sameOwner.symm.trans isOwner
  cases sameInfo.symm.trans isInfo
  obtain ⟨found, isFound, isOwn⟩ := entry.ctors.found handle listed
  cases isFound.symm.trans isCtor
  obtain ⟨body, isBody⟩ :=
    Implementation.exists_code isOwn (entry.ctorBodies complete handle listed ctor isCtor)
  exact ⟨ctor.params, areParams, handle, ctor, body,
    entry.ctors.filter_eq_singleton listed isCtor, isBody⟩

theorem HoldsProperty.declares {key : PropertyKey} {getter? setter? : Option MethodKey}
    (holds : state.HoldsProperty key getter? setter?)
    (isOwner : state.resolution.type key.owner = .ok owner)
    (isInfo : state.target.type? owner = some info)
    (entry : state.target.DeclaredEntry info) :
    ∃ type getter setter, state.resolution.runTy key.type = .ok type ∧
      state.target.DeclaresProperty info key.name type getter setter ∧
      getter?.map state.resolution.method = getter.map .ok ∧
      setter?.map state.resolution.method = setter.map .ok := by
  obtain ⟨_, _, handle, property, sameOwner, sameInfo, listed, isProperty, isName, isType,
    isGetter, isSetter⟩ := holds
  cases sameOwner.symm.trans isOwner
  cases sameInfo.symm.trans isInfo
  refine ⟨property.type, property.getter, property.setter, isType,
    ⟨handle, property, ?_, rfl, rfl, rfl⟩, isGetter, isSetter⟩
  rw [← isName]
  exact entry.properties.filter_eq_singleton listed isProperty

/-- The accessor of a property is the method that was declared for it. -/
theorem accessor_declares {key? : Option MethodKey} {handle? : Option MethodHandle}
    {types : List RunTy} {ret : SourceTy} {type : RunTy} {name ownerName : Name}
    (same : key?.map state.resolution.method = handle?.map .ok)
    (isKey : ∀ key ∈ key?, key.owner = ownerName ∧ key.name = name)
    (holds : ∀ key ∈ key?, state.HoldsMethod key attrs params ret)
    (areTypes : state.resolution.runTys params = .ok types)
    (isType : state.resolution.runTy ret = .ok type)
    (isOwner : state.resolution.type ownerName = .ok owner)
    (isInfo : state.target.type? owner = some info) (complete : info.isComplete = true)
    (entry : state.target.DeclaredEntry info) :
    handle?.isSome = key?.isSome ∧
      ∀ handle ∈ handle?, state.target.DeclaresMethod info handle name types type attrs := by
  cases key? with
  | none =>
      cases handle? with
      | none => exact ⟨rfl, by simp⟩
      | some handle => cases same
  | some key =>
      cases handle? with
      | none => cases same
      | some handle =>
          refine ⟨rfl, fun other isOther => ?_⟩
          cases isOther
          obtain ⟨rfl, rfl⟩ := isKey key rfl
          obtain ⟨_, _, _, resolved, sameTypes, sameType, declares⟩ :=
            (holds key rfl).declares isOwner isInfo complete entry
          cases resolved.symm.trans (Option.some.inj same)
          cases sameTypes.symm.trans areTypes
          cases sameType.symm.trans isType
          exact declares

end BuildState

/-! ## Finished builds -/

/-- A build that came to its end. -/
structure Program.Finished (program : Program) (image : Image) (state : BuildState Image) :
    Prop where
  moves : Build.Moves (.initial image) state
  present : ∀ key, (state.resolution.get? key).isSome = true ↔
    ∃ task ∈ program.tasks, key ∈ task.outputs
  realized : ∀ task ∈ program.tasks, task.outputs ≠ [] → task.Realized state

/-- An accepted module that compiles is built to the end in valid steps, each of which had its
turn. -/
theorem Module.runs_of_check (built : image.Built) (checked : module.check image = .ok program)
    (done : module.compile options image = (.ok compiled, after)) :
    ∃ context state, module.Accepted image context program ∧
      Valid (program.steps options.tailCalls) ∧
      (∃ order, Runs (program.steps options.tailCalls) (.initial image) order state ∧
        order.Perm (program.steps options.tailCalls)) ∧
      program.Finished image state ∧
      compiled = .ofResolution options.name state.resolution ∧ after = state.target := by
  rw [Module.compile_of_check checked] at done
  obtain ⟨context, accepted⟩ := Module.accepted_of_check checked
  obtain ⟨state, isCompiled, isAfter, valid, ⟨order, runs, perm⟩, moves, realized⟩ :=
    Program.build_realized done
  refine ⟨context, state, accepted, valid, ⟨order, runs, perm⟩, ⟨moves, fun key => ?_, realized⟩,
    isCompiled, isAfter⟩
  rw [(accepted.consistent built valid runs).present key]
  constructor
  · rintro ⟨step, isDone, made⟩
    obtain ⟨task, isTask, rfl⟩ := Program.mem_steps.mp (perm.mem_iff.mp isDone)
    exact ⟨task, isTask, Task.mem_step_outputs.mp made⟩
  · rintro ⟨task, isTask, made⟩
    exact ⟨_, perm.mem_iff.mpr (Program.mem_steps.mpr ⟨task, isTask, rfl⟩),
      Task.mem_step_outputs.mpr made⟩

/-- An accepted module that compiles is built to the end in valid steps. -/
theorem Module.finished_of_check (built : image.Built) (checked : module.check image = .ok program)
    (done : module.compile options image = (.ok compiled, after)) :
    ∃ context state, module.Accepted image context program ∧
      Valid (program.steps options.tailCalls) ∧ program.Finished image state ∧
      compiled = .ofResolution options.name state.resolution ∧ after = state.target := by
  obtain ⟨context, state, accepted, valid, -, finished⟩ := Module.runs_of_check built checked done
  exact ⟨context, state, accepted, valid, finished⟩

/-- A module compiles when it is accepted, and built to the end in valid steps. -/
theorem Module.finished_of_compile (built : image.Built)
    (done : module.compile options image = (.ok compiled, after)) :
    ∃ context program state, module.Accepted image context program ∧
      Valid (program.steps options.tailCalls) ∧ program.Finished image state ∧
      compiled = .ofResolution options.name state.resolution ∧ after = state.target := by
  cases checked : module.check image with
  | error diagnostic =>
      unfold Module.compile at done
      rw [checked] at done
      cases done
  | ok program =>
      obtain ⟨context, state, finished⟩ := Module.finished_of_check built checked done
      exact ⟨context, program, state, finished⟩

namespace Program.Finished

variable {program : Program} {image : Image} {state : BuildState Image} {moduleName : Name}
variable {name : Name}

variable (finished : program.Finished image state)
variable {handle : TypeHandle}
include finished

theorem built (built : image.Built) :
    state.target.Built :=
  finished.moves.built built

theorem unchanged : image.Unchanged state.target :=
  (finished.moves.beyond (BuildState.beyond_initial image)).unchanged

theorem keyed : state.resolution.Keyed :=
  finished.moves.keyed List.nodup_nil

/-- A type stands for the entry that its task made. -/
theorem holdsType {attrs : TypeAttrs} {base : Option SourceTy} {interfaces : List SourceTy}
    (isTask : .declareType name attrs base interfaces ∈ program.tasks) :
    state.HoldsType name attrs (attrs.above base interfaces) :=
  finished.realized _ isTask (by simp [Task.outputs])

theorem holdsClass {core : CoreClass} (isCore : core ∈ program) :
    state.HoldsType core.name core.attrs (core.attrs.above core.base core.interfaces) :=
  finished.holdsType (CoreClass.mem_program_tasks isCore .type)

/-- The task that declared a type that is resolved. -/
theorem exists_declareType (resolved : state.resolution.type name = .ok handle) :
    ∃ attrs base interfaces, .declareType name attrs base interfaces ∈ program.tasks := by
  obtain ⟨task, isTask, made⟩ := (finished.present _).mp
    (Option.isSome_of_eq_some (Resolution.type_eq_ok.mp resolved))
  obtain ⟨attrs, base, interfaces, rfl⟩ := Task.eq_declareType made
  exact ⟨attrs, base, interfaces, isTask⟩

/-- A task that completes a type leaves a completed type of its name. -/
theorem completes {supertypes : List Name} (isTask : .complete name supertypes ∈ program.tasks) :
    ∃ realized info, state.resolution.get? (.completed name) = some (.completed realized) ∧
      state.resolution.type name = .ok realized.handle ∧ realized.name = name ∧
      state.target.type? realized.handle = some info ∧ info.name = name ∧
      info.origin = .declared ∧ info.isComplete = true := by
  obtain ⟨realized, info, found, resolved, isInfo, complete, isName⟩ :
      state.HoldsComplete name := finished.realized _ isTask (by simp [Task.outputs])
  obtain ⟨attrs, base, interfaces, alsoTask⟩ := Program.exists_declareType isTask
  obtain ⟨_, _, sameHandle, sameInfo, sameName, -, declared, -⟩ := finished.holdsType alsoTask
  cases sameHandle.symm.trans resolved
  cases sameInfo.symm.trans isInfo
  exact ⟨realized, info, found, resolved, isName.trans sameName, isInfo, sameName, declared,
    complete⟩

theorem mem_types_iff {realized : RealizedType} :
    (name, realized) ∈ (CompiledModule.ofResolution moduleName state.resolution).types ↔
      state.resolution.get? (.completed name) = some (.completed realized) := by
  rw [CompiledModule.mem_types_ofResolution, KeyTable.get?_eq_some_iff finished.keyed]

/-- The entries of the compiled module are the types that were completed. -/
theorem exists_complete_iff :
    name ∈ (CompiledModule.ofResolution moduleName state.resolution).types.map Prod.fst ↔
      ∃ supertypes, .complete name supertypes ∈ program.tasks := by
  constructor
  · intro member
    obtain ⟨⟨_, realized⟩, isEntry, rfl⟩ := List.mem_map.mp member
    have found := finished.mem_types_iff.mp isEntry
    obtain ⟨task, isTask, made⟩ := (finished.present _).mp (Option.isSome_of_eq_some found)
    obtain ⟨supertypes, rfl⟩ := Task.eq_complete (Task.completed?_of_mem_outputs made)
    exact ⟨supertypes, isTask⟩
  · rintro ⟨supertypes, isTask⟩
    obtain ⟨realized, info, found, -⟩ := finished.completes isTask
    exact List.mem_map.mpr ⟨_, finished.mem_types_iff.mpr found, rfl⟩

/-- The compiled module has the handles that the build has. -/
theorem typeHandle (resolved : state.resolution.type name = .ok handle) :
    (CompiledModule.ofResolution moduleName state.resolution).typeHandle name = .ok handle := by
  obtain ⟨attrs, base, interfaces, isTask⟩ := finished.exists_declareType resolved
  obtain ⟨supertypes, isTask⟩ := Program.exists_complete isTask
  obtain ⟨realized, info, found, same, -⟩ := finished.completes isTask
  cases same.symm.trans resolved
  exact CompiledModule.typeHandle_eq_ok (CompiledModule.get?_eq_some_of_mem
    (CompiledModule.nodup_ofResolution finished.keyed) (finished.mem_types_iff.mpr found))

theorem runTy {type : SourceTy} {result : RunTy} (done : state.resolution.runTy type = .ok result) :
    (CompiledModule.ofResolution moduleName state.resolution).runTy type = .ok result :=
  Ty.resolve_mono (fun _ _ => finished.typeHandle) type done

theorem runTys {types : List SourceTy} {results : List RunTy}
    (done : state.resolution.runTys types = .ok results) :
    (CompiledModule.ofResolution moduleName state.resolution).runTys types = .ok results :=
  Ty.resolveList_mono (fun _ _ => finished.typeHandle) types done

end Program.Finished

/-! ## Members of classes -/

/-- Every member of a class is declared once on the type of the class. -/
theorem TypeContext.ChecksClass.declaredAs {context : TypeContext} {cls : ClassDef}
    {core : CoreClass} {state : BuildState Image} {owner : TypeHandle} {info : TypeInfo}
    {moduleName : Name} (checked : context.ChecksClass cls core) (isCore : core ∈ program)
    (finished : program.Finished image state) (isOwner : state.resolution.type cls.name = .ok owner)
    (isInfo : state.target.type? owner = some info) (complete : info.isComplete = true)
    (entry : state.target.DeclaredEntry info) :
    cls.DeclaredAs (.ofResolution moduleName state.resolution) state.target info := by
  have realized : ∀ {task : Task}, core.Plans task → task.outputs ≠ [] → task.Realized state :=
    fun isPlanned adds => finished.realized _ (CoreClass.mem_program_tasks isCore isPlanned) adds
  have ctors : ∀ ctor ∈ cls.allCtors, ∃ types, state.resolution.runTys ctor.paramTypes = .ok types ∧
      state.target.DeclaresCtor info types := by
    intro ctor isCtor
    obtain ⟨built, isBuilt, holds⟩ := exists_related_right checked.ctors isCtor
    have held : state.HoldsCtor built.key :=
      realized (.ctor isBuilt) (by simp [Task.outputs])
    rw [holds.key] at held
    exact held.declares isOwner isInfo complete entry
  constructor
  case attrs =>
    obtain ⟨_, _, sameOwner, sameInfo, -, isAttrs, -, -⟩ :
        state.HoldsType core.name core.attrs (core.attrs.above core.base core.interfaces) :=
      realized .type (by simp [Task.outputs])
    rw [checked.name] at sameOwner
    cases sameOwner.symm.trans isOwner
    cases sameInfo.symm.trans isInfo
    exact isAttrs.trans checked.attrs
  case fields =>
    intro field isField
    rw [← checked.fields] at isField
    have holds : state.HoldsField (field.key core.name) field.attrs :=
      realized (.field isField) (by simp [Task.outputs])
    rw [checked.name] at holds
    obtain ⟨type, isType, declares⟩ := holds.declares isOwner isInfo entry
    exact ⟨type, finished.runTy isType, declares⟩
  case methods =>
    intro method isMethod
    obtain ⟨built, isBuilt, holds⟩ := exists_related_right checked.methods isMethod
    have held : state.HoldsMethod built.key built.attrs built.key.params built.ret :=
      realized (.method isBuilt) (by simp [Task.outputs])
    rw [holds.key, holds.attrs, holds.returns] at held
    obtain ⟨handle, types, type, -, areTypes, isType, declares⟩ :=
      held.declares isOwner isInfo complete entry
    exact ⟨handle, types, type, finished.runTys areTypes, finished.runTy isType, declares⟩
  case ctors =>
    intro ctor isCtor
    have listed : ctor ∈ cls.allCtors := by
      unfold ClassDef.allCtors
      rw [if_neg (by simp [List.ne_nil_of_mem isCtor])]
      exact isCtor
    obtain ⟨types, areTypes, declares⟩ := ctors ctor listed
    exact ⟨types, finished.runTys areTypes, declares⟩
  case implicitCtor =>
    intro empty concrete
    have listed : CtorDef.implicit ∈ cls.allCtors := by simp [ClassDef.allCtors, empty, concrete]
    obtain ⟨types, areTypes, declares⟩ := ctors _ listed
    cases areTypes
    exact declares
  case properties =>
    intro property isProperty
    obtain ⟨built, isBuilt, holds⟩ := exists_related_right checked.properties isProperty
    obtain ⟨held, getterHeld, setterHeld⟩ : (Task.declareProperty built).Realized state :=
      realized (.property isBuilt) (by simp [Task.outputs])
    rw [getterKey?_eq holds, setterKey?_eq holds, holds.key] at held
    rw [getterKey?_eq holds, holds.key, holds.isStatic] at getterHeld
    rw [setterKey?_eq holds, holds.key, holds.isStatic] at setterHeld
    obtain ⟨type, getter, setter, isType, declares, isGetter, isSetter⟩ :=
      held.declares isOwner isInfo entry
    have isParam : state.resolution.runTys [property.type] = .ok [type] := by
      have isType : property.type.resolve state.resolution.type = .ok type := isType
      simp only [Resolution.runTys, Ty.resolveList, isType]
      rfl
    have getterKey : ∀ key ∈ property.getterKey? cls.name,
        key.owner = cls.name ∧ key.name = getterName property.name := by
      intro key isKey
      obtain ⟨_, -, rfl⟩ := Option.map_eq_some_iff.mp isKey
      exact ⟨rfl, rfl⟩
    have setterKey : ∀ key ∈ property.setterKey? cls.name,
        key.owner = cls.name ∧ key.name = setterName property.name := by
      intro key isKey
      obtain ⟨_, -, rfl⟩ := Option.map_eq_some_iff.mp isKey
      exact ⟨rfl, rfl⟩
    obtain ⟨hasGetter, getterDeclares⟩ := BuildState.accessor_declares isGetter getterKey getterHeld
      rfl isType isOwner isInfo complete entry
    obtain ⟨hasSetter, setterDeclares⟩ := BuildState.accessor_declares isSetter setterKey setterHeld
      isParam rfl isOwner isInfo complete entry
    exact ⟨type, getter, setter, finished.runTy isType, declares,
      hasGetter.trans Option.isSome_map, hasSetter.trans Option.isSome_map, getterDeclares,
      setterDeclares⟩

/-- Success is complete: a module that compiles has an entry for each class and for each
function and loop, and no other; each entry leads to a completed type of its name; the
members of each class are declared once each on its type, with the code that they need; and
what was in the image before is there unchanged. -/
theorem Module.compile_complete {module : Module} {image after : Image}
    {options : CompileOptions} {compiled : CompiledModule} (built : image.Built)
    (done : module.compile options image = (.ok compiled, after)) :
    (module.typeNames.Nodup ∧ (compiled.types.map Prod.fst).Perm module.typeNames) ∧
    (∀ entry ∈ compiled.types, entry.2.name = entry.1 ∧
      ∃ info, after.type? entry.2.handle = some info ∧ info.name = entry.1 ∧
        info.origin = .declared ∧ info.isComplete = true) ∧
    (∀ cls ∈ module.classes, ∃ realized info, compiled.get? cls.name = some realized ∧
      after.type? realized.handle = some info ∧ cls.DeclaredAs compiled after info) ∧
    image.Unchanged after := by
  obtain ⟨context, program, state, accepted, valid, finished, rfl, rfl⟩ :=
    Module.finished_of_compile built done
  have distinct : module.typeNames.Nodup := accepted.typeNames ▸ valid.typeNames_nodup
  have entries :
      ((CompiledModule.ofResolution options.name state.resolution).types.map Prod.fst).Nodup :=
    CompiledModule.nodup_ofResolution finished.keyed
  refine ⟨⟨distinct, ?_⟩, ?_, ?_, finished.unchanged⟩
  · refine (List.perm_ext_iff_of_nodup entries distinct).mpr fun name => ?_
    rw [finished.exists_complete_iff, ← accepted.typeNames, ← program.completed_tasks.mem_iff,
      List.mem_filterMap]
    constructor
    · rintro ⟨supertypes, isTask⟩
      exact ⟨_, isTask, rfl⟩
    · rintro ⟨task, isTask, completes⟩
      obtain ⟨supertypes, rfl⟩ := Task.eq_complete completes
      exact ⟨supertypes, isTask⟩
  · rintro ⟨name, realized⟩ isEntry
    obtain ⟨supertypes, isTask⟩ :=
      finished.exists_complete_iff.mp (List.mem_map.mpr ⟨_, isEntry, rfl⟩)
    obtain ⟨_, info, found, -, isName, isInfo, sameName, declared, complete⟩ :=
      finished.completes isTask
    cases found.symm.trans (finished.mem_types_iff.mp isEntry)
    exact ⟨isName, info, isInfo, sameName, declared, complete⟩
  · intro cls isClass
    obtain ⟨core, isCore, checked⟩ := exists_related_right accepted.classes isClass
    obtain ⟨realized, info, found, resolved, -, isInfo, -, declared, complete⟩ :=
      finished.completes (CoreClass.mem_program_tasks isCore .completion)
    rw [checked.name] at found resolved
    refine ⟨realized, info, CompiledModule.get?_eq_some_of_mem entries
      (finished.mem_types_iff.mpr found), isInfo, ?_⟩
    exact checked.declaredAs isCore finished resolved isInfo complete
      ((finished.built built).orderly _ _ isInfo declared)

theorem Module.counter_compile_complete :
    Image.library.Built ∧ ∃ compiled after,
      Module.counter.compile {} .library = (.ok compiled, after) ∧
      (compiled.types.map Prod.fst).Perm ["Counter", "Counter$closure0"] ∧
      ∃ realized info, compiled.get? "Counter" = some realized ∧
        after.type? realized.handle = some info ∧ info.isComplete = true ∧
        ∃ handle, after.DeclaresMethod info handle "next" [.prim .int32] (.prim .int32)
          .publicStatic := by
  obtain ⟨compiled, done⟩ := Module.counter_compiles
  have names : Module.counter.typeNames = ["Counter", "Counter$closure0"] := by decide +kernel
  obtain ⟨⟨-, entries⟩, completed, members, -⟩ := Module.compile_complete .library done
  obtain ⟨realized, info, found, isInfo, declared⟩ := members _ (.head _)
  obtain ⟨handle, _, _, areParams, isRet, declares⟩ := declared.methods _ (.head _)
  cases areParams
  cases isRet
  refine ⟨.library, compiled, _, done, names ▸ entries, realized, info, found, isInfo, ?_,
    handle, declares⟩
  obtain ⟨before, rest, shape, -⟩ := List.lookup_eq_some_iff.mp found
  obtain ⟨-, _, same, -, -, complete⟩ := completed ("Counter", realized) (by simp [shape])
  cases same.symm.trans isInfo
  exact complete

end ClassForge
