import ClassForge.Proofs.Build.MadeEntries
import ClassForge.Proofs.Code.ProgramWeights

/-!
# Resolution loses nothing

A build replaces the names of the types that it declares by handles.  Each handle leads to an entry
of its name, so a resolved type can be read back, and types that differ stay different.  What a type
of the build lists was recorded under the key that it was declared for.  The target therefore takes
a method or a constructor for a duplicate only if one of the same key is there.
-/

namespace ClassForge

open Schedule
variable {attrs : MethodAttrs} {params : List RunTy}
variable {ret : RunTy}

namespace BuildState

/-! ## What the types of a build list -/

/-- The methods and constructors that a type lists were recorded under keys of the type. -/
structure Recorded (state : BuildState Image) (owner : TypeHandle) (info : TypeInfo) : Prop where
  methods : ∀ handle ∈ info.methods, ∃ key : MethodKey,
    state.resolution.type key.owner = .ok owner ∧ state.resolution.method key = .ok handle
  ctors : ∀ handle ∈ info.ctors, ∃ key : CtorKey,
    state.resolution.type key.owner = .ok owner ∧ state.resolution.ctor key = .ok handle

/-- Names lead to entries of these names, and what the types of a build list was recorded. -/
structure Traced (base : Image) (state : BuildState Image) : Prop where
  names : ∀ name handle, state.resolution.type name = .ok handle →
    ∃ info, state.target.type? handle = some info ∧ info.name = name
  listed : Image.Since base.types.size (fun index => state.Recorded ⟨index⟩) state.target.types

section

variable {base : Image} {before after state : BuildState Image}

theorem Recorded.mono {owner : TypeHandle} {info : TypeInfo} (recorded : before.Recorded owner info)
    (within : before.resolution.Within after.resolution) : after.Recorded owner info where
  methods handle isListed := by
    obtain ⟨key, isOwner, isMethod⟩ := recorded.methods handle isListed
    exact ⟨key, within.type isOwner, within.method isMethod⟩
  ctors handle isListed := by
    obtain ⟨key, isOwner, isCtor⟩ := recorded.ctors handle isListed
    exact ⟨key, within.type isOwner, within.ctor isCtor⟩

theorem traced_initial (image : Image) : (BuildState.initial image).Traced image where
  names name handle found := by
    have found := Resolution.type_eq_ok.mp found
    simp [BuildState.initial] at found
  listed := .of_size_le le_rfl

/-- A move records what it lists. -/
theorem Traced.move (traced : before.Traced base) (move : Build.Move before after) :
    after.Traced base := by
  have growth := move.extends'
  have names := traced.names
  have listed := traced.listed.imp fun _ _ recorded => recorded.mono growth.resolution
  cases move with
  | declareType declared added =>
      obtain ⟨root, above, -, -, -, rfl, rfl⟩ := Image.declareType_shape declared
      refine ⟨names_insert names growth.target added ?_, listed.push ?_⟩
      · rintro _ _ ⟨⟩ ⟨⟩
        exact ⟨_, Array.getElem?_push_size, rfl⟩
      · exact ⟨List.forall_mem_nil _, List.forall_mem_nil _⟩
  | declareField _ declared added =>
      obtain ⟨info, -, -, -, rfl, rfl⟩ := Image.declareField_shape declared
      exact ⟨names_insert names growth.target added (by rintro _ _ ⟨⟩),
        listed.modify fun _ _ recorded => ⟨recorded.methods, recorded.ctors⟩⟩
  | declareMethod isOwner declared added =>
      obtain ⟨info, -, -, -, rfl, rfl⟩ := Image.declareMethod_shape declared
      refine ⟨names_insert names growth.target added (by rintro _ _ ⟨⟩),
        listed.modify fun _ _ recorded => ⟨fun handle isListed => ?_, recorded.ctors⟩⟩
      rcases List.mem_append.mp isListed with old | isNew
      · exact recorded.methods handle old
      · rw [List.mem_singleton.mp isNew]
        exact ⟨_, growth.resolution.type isOwner,
          Resolution.method_eq_ok.mpr (Resolution.get?_of_insert? added)⟩
  | declareCtor isOwner declared added =>
      obtain ⟨info, -, -, -, rfl, rfl⟩ := Image.declareCtor_shape declared
      refine ⟨names_insert names growth.target added (by rintro _ _ ⟨⟩),
        listed.modify fun _ _ recorded => ⟨recorded.methods, fun handle isListed => ?_⟩⟩
      rcases List.mem_append.mp isListed with old | isNew
      · exact recorded.ctors handle old
      · rw [List.mem_singleton.mp isNew]
        exact ⟨_, growth.resolution.type isOwner,
          Resolution.ctor_eq_ok.mpr (Resolution.get?_of_insert? added)⟩
  | declareProperty _ declared added =>
      obtain ⟨info, -, -, -, rfl, rfl⟩ := Image.declareProperty_shape declared
      exact ⟨names_insert names growth.target added (by rintro _ _ ⟨⟩),
        listed.modify fun _ _ recorded => ⟨recorded.methods, recorded.ctors⟩⟩
  | defineMethod _ defined =>
      obtain ⟨_, _, -, -, -, rfl⟩ := Image.defineMethod_shape defined
      exact ⟨names, listed⟩
  | defineCtor _ defined =>
      obtain ⟨_, _, -, -, -, rfl⟩ := Image.defineCtor_shape defined
      exact ⟨names, listed⟩
  | complete _ completed added =>
      obtain ⟨info, inherited, slots, -, -, -, -, rfl, rfl, rfl⟩ := Image.sealType_shape completed
      exact ⟨names_insert names growth.target added (by rintro _ _ ⟨⟩),
        listed.modify fun _ _ recorded => ⟨recorded.methods, recorded.ctors⟩⟩

/-- What the types of a build list was recorded, whatever the build has done. -/
theorem Traced.moves (traced : before.Traced base) (moves : Build.Moves before after) :
    after.Traced base := by
  induction moves with
  | refl => exact traced
  | tail _ move ih => exact ih.move move

/-! ## Types there and back -/

variable (traced : state.Traced base)
include traced

theorem Traced.typeLabel {name : Name} {handle : TypeHandle}
    (found : state.resolution.type name = .ok handle) : state.target.typeLabel handle = name := by
  obtain ⟨info, isInfo, isName⟩ := traced.names name handle found
  simp [Image.typeLabel, Image.typeName?, isInfo, isName]

/-- Different names have different handles. -/
theorem Traced.type_injective {name other : Name} {handle : TypeHandle}
    (found : state.resolution.type name = .ok handle)
    (alsoFound : state.resolution.type other = .ok handle) : name = other :=
  (traced.typeLabel found).symm.trans (traced.typeLabel alsoFound)

/-- A resolved type is read back as it was written. -/
theorem Traced.sourceTy {type : SourceTy} {resolved : RunTy}
    (found : state.resolution.runTy type = .ok resolved) :
    state.target.sourceTy resolved = type :=
  Ty.mapKeys_of_resolve (fun _ _ => traced.typeLabel) found

theorem Traced.runTy_injective {type other : SourceTy} {resolved : RunTy}
    (found : state.resolution.runTy type = .ok resolved)
    (alsoFound : state.resolution.runTy other = .ok resolved) : type = other :=
  (traced.sourceTy found).symm.trans (traced.sourceTy alsoFound)

theorem Traced.runTys_injective {types others : List SourceTy} {resolved : List RunTy}
    (found : state.resolution.runTys types = .ok resolved)
    (alsoFound : state.resolution.runTys others = .ok resolved) : types = others :=
  (Ty.mapKeysList_of_resolveList (fun _ _ => traced.typeLabel) found).symm.trans
    (Ty.mapKeysList_of_resolveList (fun _ _ => traced.typeLabel) alsoFound)

end

end BuildState

/-! ## Requests that are taken for duplicates -/

namespace Image

variable {image : Image} {owner : TypeHandle} {name label member : Name}

/-- That a type is unknown is all that can be wrong with it. -/
theorem checkTy_ne_duplicate (type : RunTy) :
    image.checkTy type ≠ .error (.duplicateMember label member) := by
  have ofHandle : ∀ other : RunTy,
      (discard <| image.handleOf other : Except ImageError Unit) ≠
        .error (.duplicateMember label member) := by
    intro other
    unfold handleOf
    cases image.handleOf? other <;> simp [discard, Functor.discard, Functor.mapConst, Except.map]
  induction type using Ty.induct with
  | builtin builtin => exact ofHandle _
  | generic definition args ih =>
      intro failed
      rcases bind_eq_error.mp failed with unknown | ⟨_, -, unknown⟩
      · exact ofHandle _ unknown
      · rw [checkTys_eq_forM] at unknown
        obtain ⟨arg, isArg, unknown⟩ := exists_of_forM_eq_error unknown
        exact ih arg isArg unknown
  | declared handle => exact ofHandle _
  | array element ih => exact ih

theorem checkTys_ne_duplicate (types : List RunTy) :
    image.checkTys types ≠ .error (.duplicateMember label member) := by
  intro failed
  rw [checkTys_eq_forM] at failed
  obtain ⟨type, -, unknown⟩ := exists_of_forM_eq_error failed
  exact checkTy_ne_duplicate type unknown

theorem openType_ne_duplicate : image.openType owner ≠ .error (.duplicateMember label member) := by
  intro failed
  rcases bind_eq_error.mp failed with unknown | ⟨info, -, isSealed⟩
  · unfold Image.type at unknown
    cases found : image.type? owner <;> simp [found] at unknown
  · split at isSealed <;> cases isSealed

/-- A method is a duplicate of a listed one of the same name, parameters and staticness. -/
theorem clash_of_declareMethod
    (failed : image.declareMethod owner name attrs params ret =
      .error (.duplicateMember label member)) :
    member = name ∧ ∃ info, image.type? owner = some info ∧ ∃ handle method,
      (handle, method) ∈ image.methodsOf info ∧
        method.signature = (name, params, attrs.isStatic) := by
  rcases bind_eq_error.mp failed with unknown | ⟨⟨⟩, -, failed⟩
  · exact (checkTys_ne_duplicate _ unknown).elim
  rcases bind_eq_error.mp failed with unknown | ⟨info, isOpen, failed⟩
  · exact (openType_ne_duplicate unknown).elim
  dsimp only at failed
  split at failed
  · rename_i clash
    cases failed
    obtain ⟨⟨handle, method⟩, isListed, same⟩ := List.any_eq_true.mp clash
    refine ⟨rfl, info, (openType_eq_ok.mp isOpen).1, handle, method, isListed, ?_⟩
    simpa [MethodInfo.signature, and_assoc] using same
  · cases failed

/-- A constructor is a duplicate of a listed one of the same parameters. -/
theorem clash_of_declareCtor
    (failed : image.declareCtor owner params = .error (.duplicateMember label member)) :
    ∃ info, image.type? owner = some info ∧ ∃ handle ctor,
      (handle, ctor) ∈ image.ctorsOf info ∧ ctor.params = params := by
  rcases bind_eq_error.mp failed with unknown | ⟨⟨⟩, -, failed⟩
  · exact (checkTys_ne_duplicate _ unknown).elim
  rcases bind_eq_error.mp failed with unknown | ⟨info, isOpen, failed⟩
  · exact (openType_ne_duplicate unknown).elim
  split at failed
  · rename_i clash
    obtain ⟨⟨handle, ctor⟩, isListed, same⟩ := List.any_eq_true.mp clash
    exact ⟨info, (openType_eq_ok.mp isOpen).1, handle, ctor, isListed, by simpa using same⟩
  · cases failed

theorem checkAccessor_ne_duplicate {accessor : MethodHandle} :
    image.checkAccessor owner accessor ≠ .error (.duplicateMember label member) := by
  intro failed
  rcases bind_eq_error.mp failed with unknown | ⟨info, -, foreign⟩
  · unfold Image.method at unknown
    cases found : image.method? accessor <;> simp [found] at unknown
  · split at foreign <;> cases foreign

/-- A property is a duplicate of one of its name. -/
theorem name_of_declareProperty {type : RunTy} {getter setter : Option MethodHandle}
    (failed : image.declareProperty owner name type getter setter =
      .error (.duplicateMember label member)) : member = name := by
  rcases bind_eq_error.mp failed with unknown | ⟨info, -, failed⟩
  · exact (openType_ne_duplicate unknown).elim
  dsimp only at failed
  split at failed
  · cases failed
    rfl
  · rcases bind_eq_error.mp failed with foreign | ⟨⟨⟩, -, failed⟩
    · obtain ⟨accessor, -, foreign⟩ := exists_of_forM_eq_error foreign
      exact (checkAccessor_ne_duplicate foreign).elim
    · cases failed

end Image

/-! ## States between the steps of a build -/

section

variable {module : Module} {image : Image} {context : TypeContext} {program : Program}
variable {tailCalls : Bool} {done : List (Step Image)} {state : BuildState Image}
variable {after : BuildState Image}
variable {task : Task}

/-- A task leaves the methods that it declares with their names, parameters and staticness. -/
theorem Task.Realized.holdsMethod (realized : task.Realized state) (keyed : task.Keyed)
    {key : MethodKey} (made : .method key ∈ task.outputs) :
    ∃ attrs ret, state.HoldsMethod key attrs key.params ret ∧
      attrs.isStatic = !key.isInstance := by
  cases task with
  | declareMethod method attrs ret =>
      obtain rfl : key = method := by simpa [Task.outputs] using made
      exact ⟨attrs, ret, realized, keyed⟩
  | declareProperty property =>
      have noParams : property.key.indexParams = [] := keyed
      obtain ⟨-, getter, setter⟩ := realized
      have isAccessor : key ∈ property.getterKey? ∨ key ∈ property.setterKey? := by
        simpa [Task.outputs] using made
      rcases isAccessor with isKey | isKey
      · have holds := getter key isKey
        obtain ⟨_, -, rfl⟩ := Option.map_eq_some_iff.mp isKey
        refine ⟨.generated property.isStatic, property.key.type, ?_, ?_⟩
        · simpa [PropertyKey.getter, noParams] using holds
        · simp [PropertyKey.getter, MethodAttrs.generated]
      · have holds := setter key isKey
        obtain ⟨_, -, rfl⟩ := Option.map_eq_some_iff.mp isKey
        refine ⟨.generated property.isStatic, .void, ?_, ?_⟩
        · simpa [PropertyKey.setter, noParams] using holds
        · simp [PropertyKey.setter, MethodAttrs.generated]
  | _ => simp [Task.outputs] at made

theorem Task.Realized.holdsCtor (realized : task.Realized state) {key : CtorKey}
    (made : .ctor key ∈ task.outputs) : state.HoldsCtor key := by
  cases task with
  | declareCtor ctor =>
      obtain rfl : key = ctor := by simpa [Task.outputs] using made
      exact realized
  | _ => simp [Task.outputs] at made

/-- The types of a build list what was recorded, and what was recorded is as its key says. -/
structure BuildState.Faithful (base : Image) (state : BuildState Image) : Prop where
  traced : state.Traced base
  beyond : state.Beyond base
  methods : ∀ key handle, state.resolution.method key = .ok handle →
    ∃ attrs ret, state.HoldsMethod key attrs key.params ret ∧ attrs.isStatic = !key.isInstance
  ctors : ∀ key handle, state.resolution.ctor key = .ok handle → state.HoldsCtor key

theorem Module.Accepted.faithful (accepted : module.Accepted image context program)
    (built : image.Built) (valid : Valid (program.steps tailCalls))
    (runs : Runs (program.steps tailCalls) (.initial image) done state) :
    state.Faithful image where
  traced := (BuildState.traced_initial image).moves runs.realized.1
  beyond := runs.realized.1.beyond (BuildState.beyond_initial image)
  methods key handle found := by
    obtain ⟨task, isTask, made, realized⟩ :=
      accepted.exists_realized built valid runs (Resolution.method_eq_ok.mp found)
    exact realized.holdsMethod (accepted.keyed isTask) made
  ctors key handle found := by
    obtain ⟨task, isTask, made, realized⟩ :=
      accepted.exists_realized built valid runs (Resolution.ctor_eq_ok.mp found)
    exact realized.holdsCtor made

namespace BuildState.Faithful

variable {base : Image} {owner : TypeHandle} {info : TypeInfo} {params : List RunTy}
variable {handle : MethodHandle}

/-- What a listed method is a duplicate of was recorded under the same key. -/
theorem method_of_clash (faithful : state.Faithful base) {key : MethodKey} {isStatic : Bool}
    (isOwner : state.resolution.type key.owner = .ok owner)
    (areParams : state.resolution.runTys key.params = .ok params)
    (same : isStatic = !key.isInstance) (isInfo : state.target.type? owner = some info)
    {method : MethodInfo} (isListed : (handle, method) ∈ state.target.methodsOf info)
    (isSignature : method.signature = (key.name, params, isStatic)) :
    state.resolution.method key = .ok handle := by
  obtain ⟨listed, isMethod⟩ := Image.mem_methodsOf.mp isListed
  obtain ⟨other, sameOwner, isOther⟩ := (faithful.traced.listed _ info
    (faithful.beyond.types _ _ isOwner) isInfo).methods handle listed
  obtain ⟨attrs, ret, ⟨_, _, _, _, -, -, -, alsoOther, alsoMethod, isName, rfl, otherParams, -⟩,
    otherStatic⟩ := faithful.methods other handle isOther
  cases alsoOther.symm.trans isOther
  cases alsoMethod.symm.trans isMethod
  obtain ⟨sameName, rfl, rfl⟩ : method.name = key.name ∧ method.params = params ∧
      method.attrs.isStatic = isStatic := by simpa [MethodInfo.signature] using isSignature
  have owners := faithful.traced.type_injective sameOwner isOwner
  have names := isName.symm.trans sameName
  have lists := faithful.traced.runTys_injective otherParams areParams
  have kinds : other.isInstance = key.isInstance := by
    simpa using otherStatic.symm.trans same
  have keys : other = key := by
    cases other
    cases key
    simp_all only
  rwa [← keys]

/-- What a listed constructor is a duplicate of was recorded under the same key. -/
theorem ctor_of_clash (faithful : state.Faithful base) {key : CtorKey}
    (isOwner : state.resolution.type key.owner = .ok owner)
    (areParams : state.resolution.runTys key.params = .ok params)
    (isInfo : state.target.type? owner = some info) {handle : CtorHandle} {ctor : CtorInfo}
    (isListed : (handle, ctor) ∈ state.target.ctorsOf info) (same : ctor.params = params) :
    state.resolution.ctor key = .ok handle := by
  obtain ⟨listed, isCtor⟩ := Image.mem_ctorsOf.mp isListed
  obtain ⟨other, sameOwner, isOther⟩ := (faithful.traced.listed _ info
    (faithful.beyond.types _ _ isOwner) isInfo).ctors handle listed
  obtain ⟨_, _, _, _, -, -, -, alsoOther, alsoCtor, otherParams⟩ :=
    faithful.ctors other handle isOther
  cases alsoOther.symm.trans isOther
  cases alsoCtor.symm.trans isCtor
  subst same
  have owners := faithful.traced.type_injective sameOwner isOwner
  have lists := faithful.traced.runTys_injective otherParams areParams
  have keys : other = key := by
    cases other
    cases key
    simp_all only
  rwa [← keys]

/-- Declaring another method keeps handles and keys together. -/
theorem addMethod (faithful : state.Faithful base) {key : MethodKey} {source : SourceTy}
    {after : BuildState Image} (isOwner : state.resolution.type key.owner = .ok owner)
    (areParams : state.resolution.runTys key.params = .ok params)
    (isRet : state.resolution.runTy source = .ok ret) (same : attrs.isStatic = !key.isInstance)
    (ran : (Task.addMethod key owner attrs params ret).run state = .ok handle after) :
    after.Faithful base := by
  obtain ⟨moves, -, holds⟩ := Task.addMethod_moves ran isOwner areParams isRet
  have growth := moves.extends'
  refine ⟨faithful.traced.moves moves, moves.beyond faithful.beyond, fun other found isOther => ?_,
    fun other found isOther => ?_⟩
  all_goals
    obtain ⟨_, _, requested, recording⟩ := Build.bind_eq_ok.mp ran
    obtain ⟨⟨⟩, _, recorded, ⟨⟩⟩ := Build.bind_eq_ok.mp recording
    obtain ⟨target, -, rfl⟩ := Build.request_eq_ok.mp requested
    obtain ⟨resolution, added, rfl⟩ := Build.record_eq_ok.mp recorded
  · rw [Resolution.method_eq_ok, KeyTable.get?_insert? added] at isOther
    split at isOther
    · rename_i isNew
      cases isNew
      exact ⟨attrs, source, holds, same⟩
    · obtain ⟨attrs, ret, held, keyed⟩ :=
        faithful.methods other found (Resolution.method_eq_ok.mpr isOther)
      exact ⟨attrs, ret, held.mono growth, keyed⟩
  · rw [Resolution.ctor_eq_ok, KeyTable.get?_insert? added, if_neg (by rintro ⟨⟩)] at isOther
    exact (faithful.ctors other found (Resolution.ctor_eq_ok.mpr isOther)).mono growth

end BuildState.Faithful

/-! ## Steps that are refused -/

namespace Build

variable {α β : Type} {after : BuildState Image} {diagnostic : Diagnostic}

theorem bind_eq_error {action : Build Image α} {next : α → Build Image β} :
    (action >>= next).run state = .error diagnostic after ↔
      action.run state = .error diagnostic after ∨
        ∃ value middle, action.run state = .ok value middle ∧
          (next value).run middle = .error diagnostic after := by
  rw [EStateM.run_bind]
  cases action.run state <;> simp

theorem request_eq_error {action : Image → Except ImageError (α × Image)} :
    (Build.request action).run state = .error diagnostic after ↔
      ∃ error, action state.target = .error error ∧ diagnostic = .target error ∧
        after = state := by
  rw [run_request]
  cases action state.target <;> simp [eq_comm]

/-- Something optional fails just when it is there. -/
theorem optionMapM_eq_error {state : BuildState Image} {action : α → Build Image β}
    {item? : Option α} (failed : (item?.mapM action).run state = .error diagnostic after) :
    ∃ item ∈ item?, (action item).run state = .error diagnostic after := by
  cases item? with
  | none => cases failed
  | some item =>
      have mapped : (some <$> action item).run state = .error diagnostic after := failed
      rw [map_eq_pure_bind] at mapped
      rcases bind_eq_error.mp mapped with failed | ⟨_, _, -, returned⟩
      · exact ⟨item, rfl, failed⟩
      · cases returned

end Build

/-- What is refused after something has been looked up is refused with what was found. -/
theorem Build.refused_of_resolve {α β : Type} {read : Resolution → Except Diagnostic α}
    {next : α → Build Image β} {error : ImageError}
    (own : Yields Diagnostic.IsOwn (read state.resolution) fun _ => True)
    (failed : (Build.resolve read >>= next).run state = .error (.target error) after) :
    ∃ value, read state.resolution = .ok value ∧
      (next value).run state = .error (.target error) after := by
  rw [EStateM.run_bind, run_resolve] at failed
  cases found : read state.resolution with
  | ok value =>
      rw [found] at failed
      exact ⟨value, rfl, failed⟩
  | error diagnostic =>
      rw [found] at own failed
      cases failed
      exact (own error rfl).elim

theorem Build.record_ne_target {key : Key} {resolved : Resolved} {error : ImageError} :
    (Build.record key resolved).run state ≠ .error (.target error) after := by
  rw [run_record, Resolution.insert]
  cases state.resolution.insert? key resolved <;> simp

section Refusals

variable {base : Image} {after : BuildState Image} {label member : Name}
variable {key : MethodKey}

/-- A method is refused as a duplicate only if one of the same key is there. -/
theorem Task.recorded_of_addMethod (faithful : state.Faithful base) {owner : TypeHandle}
    (isOwner : state.resolution.type key.owner = .ok owner)
    (areParams : state.resolution.runTys key.params = .ok params)
    (same : attrs.isStatic = !key.isInstance)
    (failed : (addMethod key owner attrs params ret).run state =
      .error (.target (.duplicateMember label member)) after) :
    member = key.name ∧ ∃ handle, state.resolution.method key = .ok handle := by
  rcases Build.bind_eq_error.mp failed with requested | ⟨_, _, -, recording⟩
  · obtain ⟨error, refused, isError, -⟩ := Build.request_eq_error.mp requested
    cases isError
    obtain ⟨isName, info, isInfo, handle, method, isListed, isSignature⟩ :=
      Image.clash_of_declareMethod refused
    exact ⟨isName, handle,
      faithful.method_of_clash isOwner areParams same isInfo isListed isSignature⟩
  · rcases Build.bind_eq_error.mp recording with recorded | ⟨_, _, -, returned⟩
    · exact (Build.record_ne_target recorded).elim
    · cases returned

/-- A method that was recorded besides another one was recorded before. -/
theorem Task.method_of_addMethod {other : MethodKey} {owner : TypeHandle}
    {handle found : MethodHandle}
    (ran : (addMethod key owner attrs params ret).run state = .ok handle after)
    (different : other ≠ key) (isOther : after.resolution.method other = .ok found) :
    state.resolution.method other = .ok found := by
  obtain ⟨_, _, requested, recording⟩ := Build.bind_eq_ok.mp ran
  obtain ⟨⟨⟩, _, recorded, ⟨⟩⟩ := Build.bind_eq_ok.mp recording
  obtain ⟨target, -, rfl⟩ := Build.request_eq_ok.mp requested
  obtain ⟨resolution, added, rfl⟩ := Build.record_eq_ok.mp recorded
  rw [Resolution.method_eq_ok, KeyTable.get?_insert? added,
    if_neg fun same => different (Key.method.inj same)] at isOther
  exact Resolution.method_eq_ok.mpr isOther

/-- The names of the accessors of a property differ, and none is the name of the property. -/
theorem accessorNames_distinct (name : Name) :
    getterName name ≠ setterName name ∧ getterName name ≠ name ∧ setterName name ≠ name := by
  refine ⟨fun same => ?_, fun same => ?_, fun same => ?_⟩
  · have chars := congrArg (fun text : String => text.toList.head?) same
    simp [getterName, setterName] at chars
  · have lengths := congrArg String.length same
    simp [getterName, String.length_append] at lengths
  · have lengths := congrArg String.length same
    simp [setterName, String.length_append] at lengths

/-- A property is refused for a duplicate of one of its accessors only if there is a method of
the same key. -/
theorem Task.recorded_of_declareProperty (faithful : state.Faithful base)
    {property : CoreProperty} (noParams : property.key.indexParams = [])
    (failed : ((declareProperty property).action tailCalls).run state =
      .error (.target (.duplicateMember label member)) after)
    (isAccessor : key ∈ property.getterKey? ∨ key ∈ property.setterKey?)
    (isName : key.name = member) : ∃ handle, state.resolution.method key = .ok handle := by
  obtain ⟨getter_ne_setter, getter_ne_name, setter_ne_name⟩ :=
    accessorNames_distinct property.key.name
  have ofGetter : ∀ getter ∈ property.getterKey?, getter.owner = property.key.owner ∧
      getter.name = getterName property.key.name ∧ getter.params = [] ∧
        getter.isInstance = !property.isStatic := by
    intro getter isGetter
    obtain ⟨_, -, rfl⟩ := Option.map_eq_some_iff.mp isGetter
    exact ⟨rfl, rfl, noParams, rfl⟩
  have ofSetter : ∀ setter ∈ property.setterKey?, setter.owner = property.key.owner ∧
      setter.name = setterName property.key.name ∧ setter.params = [property.key.type] ∧
        setter.isInstance = !property.isStatic := by
    intro setter isSetter
    obtain ⟨_, -, rfl⟩ := Option.map_eq_some_iff.mp isSetter
    exact ⟨rfl, rfl, by simp [PropertyKey.setter, noParams], rfl⟩
  obtain ⟨owner, isOwner, afterOwner⟩ :=
    Build.refused_of_resolve (Resolution.lookup_isOwn _ _) failed
  obtain ⟨type, isType, afterType⟩ :=
    Build.refused_of_resolve (Resolution.runTy_isOwn _) afterOwner
  rcases Build.bind_eq_error.mp afterType with refused | ⟨getter?, middle, read, afterGetter⟩
  -- The getter is refused.
  · obtain ⟨getter, isGetter, refused⟩ := Build.optionMapM_eq_error refused
    obtain ⟨owners, names, noneTaken, kinds⟩ := ofGetter getter isGetter
    obtain ⟨isMember, resolved⟩ := recorded_of_addMethod faithful (owners ▸ isOwner)
      (by rw [noneTaken]; rfl) (by simp [MethodAttrs.generated, kinds]) refused
    rcases isAccessor with isKey | isKey
    · rwa [Option.mem_unique isKey isGetter]
    · have same := (ofSetter key isKey).2.1
      exact absurd (by rw [← names, ← isMember, ← isName, same]) getter_ne_setter
  obtain ⟨faithfulMiddle, within, earlier⟩ : middle.Faithful base ∧
      state.resolution.Within middle.resolution ∧
      ∀ other handle, other.name ≠ getterName property.key.name →
        middle.resolution.method other = .ok handle →
          state.resolution.method other = .ok handle := by
    rcases Build.optionMapM_eq_ok read with ⟨-, -, rfl⟩ | ⟨getter, handle, isGetter, -, ran⟩
    · exact ⟨faithful, .refl _, fun _ _ _ found => found⟩
    · obtain ⟨owners, names, noneTaken, kinds⟩ := ofGetter getter isGetter
      have isOwner := owners ▸ isOwner
      have areParams : state.resolution.runTys getter.params = .ok [] := by rw [noneTaken]; rfl
      refine ⟨faithful.addMethod isOwner areParams isType (by simp [MethodAttrs.generated, kinds])
        ran, (addMethod_moves ran isOwner areParams isType).1.extends'.resolution, ?_⟩
      exact fun other handle different found => method_of_addMethod ran
        (fun same => different (same ▸ names)) found
  rcases Build.bind_eq_error.mp afterGetter with refused | ⟨setter?, _, -, afterSetter⟩
  -- The setter is refused, after the getter has been declared.
  · obtain ⟨setter, isSetter, refused⟩ := Build.optionMapM_eq_error refused
    obtain ⟨owners, names, oneTaken, kinds⟩ := ofSetter setter isSetter
    have areParams : middle.resolution.runTys setter.params = .ok [type] := by
      rw [oneTaken]
      exact bind_eq_ok.mpr ⟨type, within.runTy isType, rfl⟩
    obtain ⟨isMember, handle, resolved⟩ := recorded_of_addMethod faithfulMiddle
      (owners ▸ within.type isOwner) areParams (by simp [MethodAttrs.generated, kinds]) refused
    rcases isAccessor with isKey | isKey
    · have same := (ofGetter key isKey).2.1
      exact absurd (by rw [← same, isName, isMember, names]) getter_ne_setter
    · rw [Option.mem_unique isKey isSetter]
      exact ⟨handle, earlier setter handle (names ▸ getter_ne_setter.symm) resolved⟩
  rcases Build.bind_eq_error.mp afterSetter with requested | ⟨_, _, -, recorded⟩
  -- The property itself is refused.
  · obtain ⟨error, refused, isError, -⟩ := Build.request_eq_error.mp requested
    cases isError
    have isMember := Image.name_of_declareProperty refused
    rcases isAccessor with isKey | isKey
    · have same := (ofGetter key isKey).2.1
      exact absurd (by rw [← same, isName, isMember]) getter_ne_name
    · have same := (ofSetter key isKey).2.1
      exact absurd (by rw [← same, isName, isMember]) setter_ne_name
  · exact (Build.record_ne_target recorded).elim

/-- A task is refused for a duplicate of a method or of a constructor that it declares only if
one of the same key is there. -/
theorem Task.recorded_of_action (faithful : state.Faithful base) (keyed : task.Keyed)
    (failed : (task.action tailCalls).run state =
      .error (.target (.duplicateMember label member)) after) :
    (∀ key, .method key ∈ task.outputs → key.name = member →
      ∃ handle, state.resolution.method key = .ok handle) ∧
    ∀ key, .ctor key ∈ task.outputs → ∃ handle, state.resolution.ctor key = .ok handle := by
  cases task with
  | declareMethod method attrs ret =>
      refine ⟨fun key made _ => ?_, by simp [outputs]⟩
      obtain rfl : key = method := by simpa [outputs] using made
      obtain ⟨owner, isOwner, afterOwner⟩ :=
        Build.refused_of_resolve (Resolution.lookup_isOwn _ _) failed
      obtain ⟨params, areParams, afterParams⟩ :=
        Build.refused_of_resolve (Resolution.runTys_isOwn _) afterOwner
      obtain ⟨type, -, afterType⟩ :=
        Build.refused_of_resolve (Resolution.runTy_isOwn _) afterParams
      rcases Build.bind_eq_error.mp afterType with refused | ⟨_, _, -, discarded⟩
      · exact (recorded_of_addMethod faithful isOwner areParams keyed refused).2
      · cases discarded
  | declareCtor ctor =>
      refine ⟨by simp [outputs], fun key made => ?_⟩
      obtain rfl : key = ctor := by simpa [outputs] using made
      obtain ⟨owner, isOwner, afterOwner⟩ :=
        Build.refused_of_resolve (Resolution.lookup_isOwn _ _) failed
      obtain ⟨params, areParams, afterParams⟩ :=
        Build.refused_of_resolve (Resolution.runTys_isOwn _) afterOwner
      rcases Build.bind_eq_error.mp afterParams with requested | ⟨_, _, -, recorded⟩
      · obtain ⟨error, refused, isError, -⟩ := Build.request_eq_error.mp requested
        cases isError
        obtain ⟨info, isInfo, handle, ctor, isListed, same⟩ := Image.clash_of_declareCtor refused
        exact ⟨handle, faithful.ctor_of_clash isOwner areParams isInfo isListed same⟩
      · exact (Build.record_ne_target recorded).elim
  | declareProperty property =>
      refine ⟨fun key made isName => ?_, by simp [outputs]⟩
      have isAccessor : key ∈ property.getterKey? ∨ key ∈ property.setterKey? := by
        simpa [outputs] using made
      exact recorded_of_declareProperty faithful keyed failed isAccessor isName
  | _ => simp [outputs]

end Refusals

/-! ## Builds -/

/-- A name that a step has declared is resolved. -/
theorem Schedule.Consistent.exists_type (consistent : Consistent done state) {name : Name}
    (declared : ∃ step ∈ done, .type name ∈ step.outputs) :
    ∃ handle, state.resolution.type name = .ok handle := by
  obtain ⟨resolved, found⟩ :=
    Option.isSome_iff_exists.mp ((consistent.present (.type name)).mpr declared)
  have fits := consistent.fitting _ resolved found
  cases resolved with
  | type handle => exact ⟨handle, Resolution.type_eq_ok.mpr found⟩
  | _ => cases fits

/-- What is resolved after some steps is what one of them has declared. -/
theorem Schedule.Consistent.exists_step (consistent : Consistent done state) {key : Key}
    {resolved : Resolved} (found : state.resolution.get? key = some resolved) :
    ∃ step ∈ done, key ∈ step.outputs :=
  (consistent.present key).mp (Option.isSome_of_eq_some found)

/-- Between the steps of a build every type whose names have been declared is resolved, to a type
that reads back as the one that was written; so types that differ are resolved differently.  A
method or a constructor is refused as a duplicate only if a step has declared one of the same
owner, name, kind and parameters.  No step whose turn it is is refused so. -/
theorem Module.resolution_faithful (built : image.Built)
    (checked : module.check image = .ok program) (valid : Valid (program.steps tailCalls))
    (runs : Runs (program.steps tailCalls) (.initial image) done state) :
    (∀ type : SourceTy, (∀ name ∈ type.mentions, ∃ step ∈ done, .type name ∈ step.outputs) →
      ∃ resolved, state.resolution.runTy type = .ok resolved ∧
        state.target.sourceTy resolved = type) ∧
    (∀ type other resolved, state.resolution.runTy type = .ok resolved →
      state.resolution.runTy other = .ok resolved → type = other) ∧
    (∀ (key : MethodKey) attrs owner params ret label member,
      attrs.isStatic = !key.isInstance →
      state.resolution.type key.owner = .ok owner →
      state.resolution.runTys key.params = .ok params →
      state.target.declareMethod owner key.name attrs params ret =
        .error (.duplicateMember label member) →
      ∃ step ∈ done, .method key ∈ step.outputs) ∧
    (∀ (key : CtorKey) owner params label member,
      state.resolution.type key.owner = .ok owner →
      state.resolution.runTys key.params = .ok params →
      state.target.declareCtor owner params = .error (.duplicateMember label member) →
      ∃ step ∈ done, .ctor key ∈ step.outputs) ∧
    ∀ step, InTurn (program.steps tailCalls) done step → ∀ label member after,
      (runStep step).run state = .error (.target (.duplicateMember label member)) after →
      (∀ key, .method key ∈ step.outputs → key.name ≠ member) ∧
      ∀ key, .ctor key ∉ step.outputs := by
  obtain ⟨context, accepted⟩ := Module.accepted_of_check checked
  have consistent := accepted.consistent built valid runs
  have faithful := accepted.faithful built valid runs
  refine ⟨fun type declared => ?_, fun _ _ _ => faithful.traced.runTy_injective, ?_, ?_, ?_⟩
  · obtain ⟨resolved, isResolved⟩ :=
      Ty.exists_resolve fun name mentioned => consistent.exists_type (declared name mentioned)
    exact ⟨resolved, isResolved, faithful.traced.sourceTy isResolved⟩
  · intro key attrs owner params ret label member same isOwner areParams refused
    obtain ⟨-, info, isInfo, handle, method, isListed, isSignature⟩ :=
      Image.clash_of_declareMethod refused
    exact consistent.exists_step (Resolution.method_eq_ok.mp
      (faithful.method_of_clash isOwner areParams same isInfo isListed isSignature))
  · intro key owner params label member isOwner areParams refused
    obtain ⟨info, isInfo, handle, ctor, isListed, same⟩ := Image.clash_of_declareCtor refused
    exact consistent.exists_step (Resolution.ctor_eq_ok.mp
      (faithful.ctor_of_clash isOwner areParams isInfo isListed same))
  · intro step turn label member after refused
    obtain ⟨task, isTask, rfl⟩ := Program.mem_steps.mp turn.member
    have fresh : ∀ key ∈ task.outputs, ∀ resolved, state.resolution.get? key ≠ some resolved := by
      intro key made resolved found
      obtain ⟨earlier, isDone, alsoMade⟩ := consistent.exists_step found
      exact turn.fresh key (Task.mem_step_outputs.mpr made) earlier isDone alsoMade
    rcases runStep_eq_error refused with failed | ⟨-, _, -, missing, -⟩
    · obtain ⟨methods, ctors⟩ :=
        Task.recorded_of_action faithful (accepted.keyed isTask) failed
      refine ⟨fun key made isName => ?_, fun key made => ?_⟩
      · obtain ⟨handle, found⟩ := methods key (Task.mem_step_outputs.mp made) isName
        exact fresh _ (Task.mem_step_outputs.mp made) _ (Resolution.method_eq_ok.mp found)
      · obtain ⟨handle, found⟩ := ctors key (Task.mem_step_outputs.mp made)
        exact fresh _ (Task.mem_step_outputs.mp made) _ (Resolution.ctor_eq_ok.mp found)
    · cases missing

end

theorem Module.counter_resolution_faithful :
    Image.library.Built ∧ ∃ program done state resolved,
      Module.counter.check .library = .ok program ∧ Valid (program.steps true) ∧
      Runs (program.steps true) (.initial .library) done state ∧
      state.resolution.runTy (.array (.generic "Func" [.declared "Counter$closure0"])) =
        .ok resolved ∧
      state.target.sourceTy resolved = .array (.generic "Func" [.declared "Counter$closure0"]) := by
  obtain ⟨compiled, done⟩ := Module.counter_compiles
  have declaring : (Module.counter.check .library).toOption.any (fun program =>
      program.tasks.any fun task => task.outputs.contains (.type "Counter$closure0")) = true := by
    decide +kernel
  obtain ⟨program, checked, declares⟩ := exists_ok_of_any declaring
  obtain ⟨task, isTask, made⟩ := List.any_eq_true.mp declares
  obtain ⟨context, state, -, valid, ⟨order, runs, perm⟩, -⟩ :=
    Module.runs_of_check .library checked done
  obtain ⟨resolves, -⟩ := Module.resolution_faithful .library checked valid runs
  obtain ⟨resolved, isResolved, readsBack⟩ :=
    resolves (.array (.generic "Func" [.declared "Counter$closure0"])) fun name mentioned => by
      obtain rfl : name = "Counter$closure0" := by
        simpa [Ty.mentions, Ty.mentionsList] using mentioned
      exact ⟨task.step true, perm.mem_iff.mpr (Program.mem_steps.mpr ⟨task, isTask, rfl⟩),
        Task.mem_step_outputs.mpr (List.contains_iff_mem.mp made)⟩
  exact ⟨.library, program, order, state, resolved, checked, valid, runs, isResolved, readsBack⟩

end ClassForge
