import ClassForge.Proofs.Build.Blueprints
import ClassForge.Proofs.Build.GrantedRequests

/-!
# Builds from blueprints

A build of a planned program makes each request when its conditions hold: the names of its types are
free, members are declared on open types that do not have them, code is given to members that have
none, and a type is completed when all its members have theirs.  So the target refuses nothing but
the code of bodies.
-/

namespace ClassForge

open Schedule

variable {state : BuildState Image}
variable {key : Key} {name : Name} {handle : TypeHandle}

/-! ## Faults -/

/-- A fault that is no refusal of the target but an allowed one. -/
def Diagnostic.Allowed (allowed : ImageError → Prop) (diagnostic : Diagnostic) : Prop :=
  ∀ error, diagnostic = .target error → allowed error

theorem Diagnostic.IsOwn.allowed {diagnostic : Diagnostic} (own : diagnostic.IsOwn)
    (allowed : ImageError → Prop) : diagnostic.Allowed allowed :=
  fun error isTarget => (own error isTarget).elim

theorem allowed_of_own {α : Type} {allowed : ImageError → Prop} {outcome : Except Diagnostic α}
    (own : Yields Diagnostic.IsOwn outcome fun _ => True) :
    Yields (Diagnostic.Allowed allowed) outcome fun _ => True :=
  own.permit fun _ own => own.allowed allowed

/-- To record a handle is no request. -/
theorem Build.Ensures.recordAny {allowed : ImageError → Prop} {resolved : Resolved} :
    Build.Ensures (Diagnostic.Allowed allowed) state (Build.record key resolved)
      fun _ _ => True :=
  (Build.Ensures.record fun _ _ => nofun).imp fun _ _ _ => trivial

/-- Code is generated with an allowed fault or none. -/
theorem Build.Ensures.generateThen {α : Type} {allowed : ImageError → Prop} {host : Name}
    {tailCalls : Bool} {code : LowerContext → Except Diagnostic Body}
    {next : Body → Build Image α} {post : α → BuildState Image → Prop}
    (yields : Yields (Diagnostic.Allowed allowed)
      (code { image := state.target, resolution := state.resolution, host, tailCalls })
      fun _ => True)
    (continues : ∀ body, Build.Ensures (Diagnostic.Allowed allowed) state (next body) post) :
    Build.Ensures (Diagnostic.Allowed allowed) state
      (Task.generate host tailCalls code >>= next) post := by
  have generates : Build.Ensures (Diagnostic.Allowed allowed) state
      (Task.generate host tailCalls code) fun _ after => after = state := by
    unfold Build.Ensures
    rw [Task.run_generate]
    cases done : code { image := state.target, resolution := state.resolution, host, tailCalls } with
    | ok body => rfl
    | error diagnostic =>
        rw [done] at yields
        exact yields
  refine generates.bind ?_
  rintro body _ rfl
  exact continues body

/-- That a step did not make what it promised is no refusal of the target. -/
theorem Build.Ensures.runStepAllowed {allowed : ImageError → Prop} {step : Step Image}
    (acts : Build.Ensures (Diagnostic.Allowed allowed) state step.action fun _ _ => True) :
    Build.Ensures (Diagnostic.Allowed allowed) state (Schedule.runStep step) fun _ _ => True := by
  unfold Build.Ensures at acts ⊢
  rw [run_runStep]
  cases ran : step.action.run state with
  | error diagnostic after =>
      rw [ran] at acts
      exact acts
  | ok value after =>
      cases missing : step.outputs.find? fun key => !after.resolution.contains key with
      | some key =>
          simp only [missing]
          exact nofun
      | none =>
          simp only [missing]

/-- A last request is made when it is granted. -/
theorem Build.Ensures.requestLast {α : Type} {permits : Diagnostic → Prop}
    {action : Image → Except ImageError (α × Image)}
    (granted : ∃ result, action state.target = .ok result) :
    Build.Ensures permits state (Build.request action) fun _ _ => True := by
  obtain ⟨⟨value, target⟩, isGranted⟩ := granted
  unfold Build.Ensures
  rw [Build.run_request, isGranted]
  trivial

/-! ## Members and their owners -/

namespace BuildState

variable {state : BuildState Image}

/-- A method that is there belongs to the type that it was declared on. -/
theorem HoldsMethod.exists_entry {key : MethodKey} {attrs : MethodAttrs} {params : List SourceTy}
    {ret : SourceTy} (holds : state.HoldsMethod key attrs params ret)
    (built : state.target.Built) :
    ∃ handle method, state.resolution.method key = .ok handle ∧
      state.target.method? handle = some method ∧ method.attrs = attrs ∧
        state.resolution.type key.owner = .ok method.owner := by
  obtain ⟨owner, info, handle, method, isOwner, isInfo, listed, isHandle, isMethod, -, isAttrs, -⟩ :=
    holds
  obtain ⟨_, isSame, rfl⟩ := built.owned.exists_method isInfo listed
  cases isMethod.symm.trans isSame
  exact ⟨handle, method, isHandle, isMethod, isAttrs, isOwner⟩

/-- A constructor that is there belongs to the type that it was declared on. -/
theorem HoldsCtor.exists_entry {key : CtorKey} (holds : state.HoldsCtor key)
    (built : state.target.Built) :
    ∃ handle ctor, state.resolution.ctor key = .ok handle ∧
      state.target.ctor? handle = some ctor ∧ state.resolution.type key.owner = .ok ctor.owner := by
  obtain ⟨owner, info, handle, ctor, isOwner, isInfo, listed, isHandle, isCtor, -⟩ := holds
  obtain ⟨_, isSame, rfl⟩ := built.owned.exists_ctor isInfo listed
  cases isCtor.symm.trans isSame
  exact ⟨handle, ctor, isHandle, isCtor, isOwner⟩

end BuildState

theorem Image.typeNamed?_eq_none {image : Image} :
    image.typeNamed? name = none ↔
      ∀ info ∈ image.types, info.origin.isGeneric = false → info.name ≠ name := by
  simp [typeNamed?, findType?]

/-! ## Where a build is -/

section Underway

variable {base : Image} {program : Program} {tailCalls : Bool} {tasks : List Task}
variable {state : BuildState Image}
variable {done : List (Step Image)}

/-- Some tasks of a program have been carried out on an image. -/
structure Program.Underway (program : Program) (base : Image) (tailCalls : Bool) (tasks : List Task)
    (state : BuildState Image) : Prop where
  runs : Runs (program.steps tailCalls) (.initial base) (tasks.map (Task.step tailCalls)) state
  member : ∀ task ∈ tasks, task ∈ program.tasks
  madeBy : state.MadeBy tasks base

/-- The steps that a build has taken are those of tasks that it carried out. -/
theorem Schedule.Runs.underway (built : base.Built) (plain : ∀ task ∈ program.tasks, task.IsPlain)
    (runs : Runs (program.steps tailCalls) (.initial base) done state) :
    ∃ tasks, done = tasks.map (Task.step tailCalls) ∧
      program.Underway base tailCalls tasks state := by
  induction runs with
  | start => exact ⟨[], rfl, .start, nofun, BuildState.madeBy_initial base⟩
  | step runs turn ran ih =>
      obtain ⟨tasks, rfl, underway⟩ := ih
      obtain ⟨task, isTask, rfl⟩ := Program.mem_steps.mp turn.member
      refine ⟨tasks ++ [task], by simp, ?_, ?_, ?_⟩
      · simpa using runs.step turn ran
      · exact List.forall_mem_append.mpr ⟨underway.member, List.forall_mem_singleton.mpr isTask⟩
      · exact underway.madeBy.task (runs.realized.1.built built) (plain task isTask)
          (runStep_eq_ok ran).1

/-- What a step that was taken reads was made by a step that was taken. -/
theorem Schedule.Runs.ready {steps : List (Step Image)} {start : BuildState Image}
    (runs : Runs steps start done state) :
    ∀ step ∈ done, ∀ key ∈ step.inputs, ∃ earlier ∈ done, key ∈ earlier.outputs := by
  induction runs with
  | start => exact nofun
  | @step done _ _ _ _ turn _ ih =>
      intro step isDone key isInput
      obtain ⟨earlier, isEarlier, made⟩ : ∃ earlier ∈ done, key ∈ earlier.outputs := by
        rcases List.mem_append.mp isDone with early | late
        · exact ih step early key isInput
        · rw [List.mem_singleton.mp late] at isInput
          exact turn.ready key isInput
      exact ⟨earlier, List.mem_append_left _ isEarlier, made⟩

namespace Program.Underway

variable (underway : program.Underway base tailCalls tasks state) (built : base.Built)
include underway

theorem beyond : state.Beyond base :=
  underway.runs.realized.1.beyond (BuildState.beyond_initial base)

include built in
theorem targetBuilt : state.target.Built :=
  underway.runs.realized.1.built built

theorem growth : base.Extends state.target :=
  underway.runs.realized.1.extends'.target

/-- What was made so far, some task made. -/
theorem exists_maker_of_step (made : ∃ step ∈ tasks.map (Task.step tailCalls), key ∈ step.outputs) :
    ∃ maker ∈ program.tasks, key ∈ maker.outputs ∧ maker.Realized state := by
  obtain ⟨step, isDone, made⟩ := made
  obtain ⟨maker, isMaker, rfl, realized⟩ := underway.runs.realized.2 step isDone
  exact ⟨maker, isMaker, Task.mem_step_outputs.mp made, realized⟩

/-- What a task reads that was carried out, some task made. -/
theorem exists_maker {task : Task} (isDone : task ∈ tasks) (isInput : key ∈ task.inputs) :
    ∃ maker ∈ program.tasks, key ∈ maker.outputs ∧ maker.Realized state :=
  underway.exists_maker_of_step (underway.runs.ready _ (List.mem_map_of_mem isDone) key
    (Task.mem_step_inputs.mpr isInput))

/-- A type that the build declared comes from its tasks. -/
theorem exists_info (isType : state.resolution.type name = .ok handle) :
    ∃ info, state.target.type? handle = some info ∧ info.name = name ∧
      base.types.size ≤ handle.index ∧ state.TypeMade tasks info := by
  obtain ⟨info, isInfo, isName⟩ := underway.madeBy.names name handle isType
  have late := underway.beyond.types name handle isType
  exact ⟨info, isInfo, isName, late, underway.madeBy.types handle.index info late isInfo⟩

/-- Names that lead to the same type are equal. -/
theorem name_eq {other : Name} (isType : state.resolution.type name = .ok handle)
    (isOther : state.resolution.type other = .ok handle) : name = other := by
  obtain ⟨info, isInfo, rfl, -⟩ := underway.exists_info isType
  obtain ⟨_, isSame, rfl, -⟩ := underway.exists_info isOther
  cases isInfo.symm.trans isSame
  rfl

include built

section Members

variable {owner : TypeHandle} {info : TypeInfo} (isInfo : state.target.type? owner = some info)
variable (late : base.types.size ≤ owner.index)
include isInfo late

/-- The fields of a type that the build declared come from its tasks. -/
theorem exists_field {handle : FieldHandle} (listed : handle ∈ info.fields) :
    ∃ field, state.target.field? handle = some field ∧ field.owner = owner ∧
      state.FieldMade tasks field := by
  obtain ⟨field, isField, isOwner⟩ := (underway.targetBuilt built).owned.exists_field isInfo listed
  refine ⟨field, isField, isOwner, underway.madeBy.fields handle.index field ?_ isField⟩
  exact underway.beyond.fields owner info isInfo late handle listed

/-- The methods of a type that the build declared come from its tasks. -/
theorem exists_method {handle : MethodHandle} (listed : handle ∈ info.methods) :
    ∃ method, state.target.method? handle = some method ∧ method.owner = owner ∧
      state.MethodMade tasks handle method := by
  obtain ⟨method, isMethod, isOwner⟩ :=
    (underway.targetBuilt built).owned.exists_method isInfo listed
  refine ⟨method, isMethod, isOwner, underway.madeBy.methods handle.index method ?_ isMethod⟩
  -- A method from before has an owner from before.
  by_contra early
  have isThere := Array.getElem?_eq_getElem (Nat.lt_of_not_le early)
  have same := underway.beyond.unchanged.methods _ _ isThere
  obtain ⟨after, isAfter, rfl⟩ := same
  cases isAfter.symm.trans isMethod
  have inBounds := built.owned.methods.owners handle _ (congrArg (Option.map _) isThere)
  rw [isOwner] at inBounds
  omega

/-- The constructors of a type that the build declared come from its tasks. -/
theorem exists_ctor {handle : CtorHandle} (listed : handle ∈ info.ctors) :
    ∃ ctor, state.target.ctor? handle = some ctor ∧ ctor.owner = owner ∧
      state.CtorMade tasks handle ctor := by
  obtain ⟨ctor, isCtor, isOwner⟩ := (underway.targetBuilt built).owned.exists_ctor isInfo listed
  refine ⟨ctor, isCtor, isOwner, underway.madeBy.ctors handle.index ctor ?_ isCtor⟩
  by_contra early
  have isThere := Array.getElem?_eq_getElem (Nat.lt_of_not_le early)
  obtain ⟨after, isAfter, rfl⟩ := underway.beyond.unchanged.ctors _ _ isThere
  cases isAfter.symm.trans isCtor
  have inBounds := built.owned.ctors.owners handle _ (congrArg (Option.map _) isThere)
  rw [isOwner] at inBounds
  omega

end Members

end Program.Underway

end Underway

/-! ## Tasks whose turn it is -/

namespace Program.Planned

variable {program : Program} {host : Name} {plans : List Blueprint} {plan : Blueprint}

section Tasks

variable (planned : program.Planned host plans) (isPlan : plan ∈ plans)
variable {task : Task}

include planned isPlan

/-- The tasks about the members of a type are those of its blueprint. -/
theorem mem_plan_tasks (isTask : task ∈ program.tasks)
    (isKey : key ∈ task.outputs ∨ task.defined? = some key) (sameOwner : key.owner = plan.name) :
    task ∈ plan.tasks host := by
  obtain ⟨other, isOther, isTask⟩ := planned.mem_tasks.mp isTask
  have formed := planned.formed other isOther
  have isOwner : key.owner = other.name := by
    rcases isKey with made | defined
    · exact formed.owner_eq (List.mem_flatMap.mpr ⟨task, isTask, made⟩)
    · cases Blueprint.mem_tasks.mp isTask <;> cases defined
      · exact formed.ctorOwner
      · exact formed.methodOwner
  rwa [planned.eq_of_name isPlan isOther (sameOwner.symm.trans isOwner)]

theorem mem_fields {key : FieldKey} {attrs : FieldAttrs}
    (isTask : .declareField key attrs ∈ program.tasks) (isOwner : key.owner = plan.name) :
    key ∈ plan.fields := by
  have isTask := planned.mem_plan_tasks isPlan isTask (.inl (List.mem_singleton_self _)) isOwner
  cases Blueprint.mem_tasks.mp isTask with | field isField => exact isField

theorem eq_method {key : MethodKey} {attrs : MethodAttrs} {ret : SourceTy}
    (isTask : .declareMethod key attrs ret ∈ program.tasks) (isOwner : key.owner = plan.name) :
    key = plan.method := by
  have isTask := planned.mem_plan_tasks isPlan isTask (.inl (List.mem_singleton_self _)) isOwner
  cases Blueprint.mem_tasks.mp isTask with | method => rfl

/-- A blueprint's method is declared by one task. -/
theorem eq_declareMethod (isTask : task ∈ program.tasks)
    (makes : Key.method plan.method ∈ task.outputs) :
    task = .declareMethod plan.method plan.methodAttrs plan.ret := by
  have isTask := planned.mem_plan_tasks isPlan isTask (.inl makes)
    (planned.formed plan isPlan).methodOwner
  cases Blueprint.mem_tasks.mp isTask with
  | method => rfl
  | _ => simp [Task.outputs] at makes

/-- A blueprint's constructor is declared by one task. -/
theorem eq_declareCtor (isTask : task ∈ program.tasks) (makes : Key.ctor plan.ctor ∈ task.outputs) :
    task = .declareCtor plan.ctor := by
  have isTask := planned.mem_plan_tasks isPlan isTask (.inl makes)
    (planned.formed plan isPlan).ctorOwner
  cases Blueprint.mem_tasks.mp isTask with
  | ctor => rfl
  | _ => simp [Task.outputs] at makes

theorem eq_ctor {key : CtorKey} (isTask : .declareCtor key ∈ program.tasks)
    (isOwner : key.owner = plan.name) : key = plan.ctor := by
  have isTask := planned.mem_plan_tasks isPlan isTask (.inl (List.mem_singleton_self _)) isOwner
  cases Blueprint.mem_tasks.mp isTask with | ctor => rfl

end Tasks

section Turns

variable {base : Image} {names : List Name} {tailCalls : Bool} {tasks : List Task} {task : Task}
variable {state : BuildState Image}

/-- A task that has its turn in a build that is under way. -/
structure Turn (program : Program) (base : Image) (tailCalls : Bool) (tasks : List Task)
    (state : BuildState Image) (task : Task) : Prop where
  underway : program.Underway base tailCalls tasks state
  built : base.Built
  turn : PhaseTurn (program.steps tailCalls) (tasks.map (Task.step tailCalls)) (task.step tailCalls)

variable (planned : program.Planned host plans) (isPlan : plan ∈ plans)
variable (turn : Turn program base tailCalls tasks state task)

namespace Turn

include turn

/-- What a task adds was not added before. -/
theorem fresh (isOutput : key ∈ task.outputs) :
    ∀ earlier ∈ tasks, key ∉ earlier.outputs := fun _ isEarlier made =>
  turn.turn.fresh key (Task.mem_step_outputs.mpr isOutput) _ (List.mem_map_of_mem isEarlier)
    (Task.mem_step_outputs.mpr made)

/-- What a task reads, some task made. -/
theorem exists_maker (isInput : key ∈ task.inputs) :
    ∃ maker ∈ program.tasks, key ∈ maker.outputs ∧ maker.Realized state :=
  turn.underway.exists_maker_of_step (turn.turn.ready key (Task.mem_step_inputs.mpr isInput))

/-- Before a declaration nothing was completed. -/
theorem uncompleted (early : task.phase = .declare) (name : Name) (supertypes : List Name) :
    .complete name supertypes ∉ tasks := fun isDone => by
  cases turn.turn.declaring early _ (List.mem_map_of_mem isDone)

include planned in
/-- A task was not carried out before. -/
theorem unperformed : task ∉ tasks := fun isDone =>
  turn.turn.once planned.steps_nodup (List.mem_map_of_mem isDone)

/-- A type takes members as long as nothing is completed. -/
theorem exists_open (early : task.phase = .declare)
    (isType : state.resolution.type name = .ok handle) :
    ∃ info, state.target.type? handle = some info ∧ state.target.openType handle = .ok info ∧
      base.types.size ≤ handle.index := by
  obtain ⟨info, isInfo, -, late, made⟩ := turn.underway.exists_info isType
  refine ⟨info, isInfo, Image.openType_eq_ok.mpr ⟨isInfo, made.origin, ?_⟩, late⟩
  by_contra complete
  obtain ⟨supertypes, isDone⟩ := made.completed (Bool.not_eq_false _ ▸ complete)
  exact turn.uncompleted early _ _ isDone

end Turn

/-! ### Requests of tasks -/

section Requests

variable {allowed : ImageError → Prop}
include turn

/-- The name of a type whose turn it is, is free. -/
theorem Turn.free {attrs : TypeAttrs} (isTask : task = .declareType name attrs none [])
    (free : base.typeNamed? name = none) : state.target.typeNamed? name = none := by
  rw [Image.typeNamed?_eq_none] at free ⊢
  intro info isMember notGeneric isName
  obtain ⟨index, isInfo⟩ := Array.mem_iff_getElem?.mp isMember
  rcases Nat.lt_or_ge index base.types.size with early | late
  · obtain ⟨after, isAfter, rfl⟩ :=
      turn.underway.beyond.unchanged.types _ _ (Array.getElem?_eq_getElem early)
    cases isAfter.symm.trans isInfo
    exact free _ (Array.getElem_mem early) notGeneric isName
  · obtain ⟨_, _, _, isDone⟩ := (turn.underway.madeBy.types index info late isInfo).declared
    rw [isName] at isDone
    exact turn.fresh (isTask ▸ List.mem_singleton_self _) _ isDone (List.mem_singleton_self _)

theorem Turn.ensures_declareType {attrs : TypeAttrs}
    (isTask : task = .declareType name attrs none []) (free : base.typeNamed? name = none) :
    Build.Ensures (Diagnostic.Allowed allowed) state (task.action tailCalls) fun _ _ => True := by
  have granted := Image.declareType_granted (turn.underway.targetBuilt turn.built)
    (turn.free isTask free) attrs
  subst isTask
  refine .resolveThen trivial fun root isRoot => .resolveThen trivial fun above areAbove => ?_
  cases isRoot
  cases areAbove
  exact .requestThen granted fun _ _ => .recordAny

/-- Known types that were given their handles can be declared with. -/
theorem Turn.checkTys {types : List SourceTy} {resolved : List RunTy}
    (known : ∀ type ∈ types, base.knows names type = true)
    (areTypes : state.resolution.runTys types = .ok resolved) :
    state.target.checkTys resolved = .ok () := by
  refine Image.checkTys_of_knows (fun name handle isType => ?_) types
    (fun type isType => Image.knows_mono turn.underway.growth type (known type isType)) areTypes
  obtain ⟨info, isInfo, -⟩ := turn.underway.exists_info isType
  rw [isInfo]
  rfl

include planned isPlan

/-- A field is declared on an open type that has no field of its name. -/
theorem Turn.ensures_declareField {key : FieldKey} {attrs : FieldAttrs}
    (isTask : task = .declareField key attrs) (isField : key ∈ plan.fields)
    (known : base.knows names key.type = true) :
    Build.Ensures (Diagnostic.Allowed allowed) state (task.action tailCalls) fun _ _ => True := by
  have formed := planned.formed plan isPlan
  have isOwner := formed.fieldOwners key isField
  have granted : ∀ owner type, state.resolution.type key.owner = .ok owner →
      state.resolution.runTy key.type = .ok type →
        ∃ result, state.target.declareField owner key.name type attrs = .ok result := by
    intro owner type isType isRun
    have checked : state.target.checkTy type = .ok () := by
      have areTypes : state.resolution.runTys [key.type] = .ok [type] :=
        Ty.resolveList_eq_ok.mpr (.cons isRun .nil)
      obtain ⟨⟨⟩, checked, -⟩ := bind_eq_ok.mp
        (turn.checkTys (List.forall_mem_singleton.mpr known) areTypes)
      exact checked
    obtain ⟨info, isInfo, isOpen, late⟩ := turn.exists_open (isTask ▸ rfl) isType
    refine Image.declareField_granted checked isOpen (fun handle listed field isHere sameName => ?_)
      attrs
    obtain ⟨_, isSame, ownedBy, other, _, isDone, isName, isOther⟩ :=
      turn.underway.exists_field turn.built isInfo late listed
    cases isSame.symm.trans isHere
    have sameOwner := turn.underway.name_eq isType (ownedBy ▸ isOther)
    have isListed := planned.mem_fields isPlan (turn.underway.member _ isDone)
      (sameOwner.symm.trans isOwner)
    obtain rfl : key = other := List.inj_on_of_nodup_map formed.fieldsApart isField isListed
      (sameName.symm.trans isName)
    exact turn.fresh (isTask ▸ List.mem_singleton_self _) _ isDone (List.mem_singleton_self _)
  subst isTask
  exact .resolveThen (allowed_of_own (Resolution.lookup_isOwn _ _)) fun owner isType =>
    .resolveThen (allowed_of_own (Resolution.runTy_isOwn _)) fun type isRun =>
      .requestThen (granted owner type isType isRun) fun _ _ => .recordAny

/-- A method is declared on an open type that has no method. -/
theorem Turn.ensures_declareMethod
    (isTask : task = .declareMethod plan.method plan.methodAttrs plan.ret)
    (known : ∀ type ∈ plan.method.params ++ [plan.ret], base.knows names type = true) :
    Build.Ensures (Diagnostic.Allowed allowed) state (task.action tailCalls) fun _ _ => True := by
  have formed := planned.formed plan isPlan
  have granted : ∀ owner params ret, state.resolution.type plan.method.owner = .ok owner →
      state.resolution.runTys plan.method.params = .ok params →
        state.resolution.runTy plan.ret = .ok ret → ∃ result, state.target.declareMethod owner
          plan.method.name plan.methodAttrs params ret = .ok result := by
    intro owner params ret isType areParams isRet
    obtain ⟨info, isInfo, isOpen, late⟩ := turn.exists_open (isTask ▸ rfl) isType
    have areTypes : state.resolution.runTys (plan.method.params ++ [plan.ret]) =
        .ok (params ++ [ret]) :=
      Ty.resolveList_eq_ok.mpr (List.rel_append (Ty.resolveList_eq_ok.mp areParams)
        (.cons isRet .nil))
    refine Image.declareMethod_granted (turn.checkTys known areTypes) isOpen
      (List.eq_nil_iff_forall_not_mem.mpr fun handle listed => ?_) _
    obtain ⟨_, -, ownedBy, made⟩ := turn.underway.exists_method turn.built isInfo late listed
    obtain ⟨other, _, _, isDone, -, isOther, -⟩ := made.declared
    have sameOwner := turn.underway.name_eq isType (ownedBy ▸ isOther)
    obtain rfl := planned.eq_method isPlan (turn.underway.member _ isDone)
      (sameOwner.symm.trans formed.methodOwner)
    exact turn.fresh (isTask ▸ List.mem_singleton_self _) _ isDone (List.mem_singleton_self _)
  subst isTask
  refine .resolveThen (allowed_of_own (Resolution.lookup_isOwn _ _)) fun owner isType =>
    .resolveThen (allowed_of_own (Resolution.runTys_isOwn _)) fun params areParams =>
      .resolveThen (allowed_of_own (Resolution.runTy_isOwn _)) fun ret isRet => ?_
  have adds : Build.Ensures (Diagnostic.Allowed allowed) state
      (Task.addMethod plan.method owner plan.methodAttrs params ret) fun _ _ => True :=
    .requestThen (granted owner params ret isType areParams isRet) fun _ _ =>
      Build.Ensures.recordAny.bind fun _ _ _ => trivial
  exact adds.bind fun _ _ _ => trivial

/-- A constructor is declared on an open type that has no constructor. -/
theorem Turn.ensures_declareCtor (isTask : task = .declareCtor plan.ctor)
    (known : ∀ type ∈ plan.ctor.params, base.knows names type = true) :
    Build.Ensures (Diagnostic.Allowed allowed) state (task.action tailCalls) fun _ _ => True := by
  have formed := planned.formed plan isPlan
  have granted : ∀ owner params, state.resolution.type plan.ctor.owner = .ok owner →
      state.resolution.runTys plan.ctor.params = .ok params →
        ∃ result, state.target.declareCtor owner params = .ok result := by
    intro owner params isType areParams
    obtain ⟨info, isInfo, isOpen, late⟩ := turn.exists_open (isTask ▸ rfl) isType
    refine Image.declareCtor_granted (turn.checkTys known areParams) isOpen
      (List.eq_nil_iff_forall_not_mem.mpr fun handle listed => ?_)
    obtain ⟨_, -, ownedBy, made⟩ := turn.underway.exists_ctor turn.built isInfo late listed
    obtain ⟨other, isDone, isOther, -⟩ := made.declared
    have sameOwner := turn.underway.name_eq isType (ownedBy ▸ isOther)
    obtain rfl := planned.eq_ctor isPlan (turn.underway.member _ isDone)
      (sameOwner.symm.trans formed.ctorOwner)
    exact turn.fresh (isTask ▸ List.mem_singleton_self _) _ isDone (List.mem_singleton_self _)
  subst isTask
  exact .resolveThen (allowed_of_own (Resolution.lookup_isOwn _ _)) fun owner isType =>
    .resolveThen (allowed_of_own (Resolution.runTys_isOwn _)) fun params areParams =>
      .requestThen (granted owner params isType areParams) fun _ _ => .recordAny

/-- Code is given to a method of an open type that has none. -/
theorem Turn.ensures_defineMethod (isTask : task = .defineMethod host plan.method plan.methodSource)
    (codes : ∀ context : LowerContext, context.image.Built → base.Extends context.image →
      Yields (Diagnostic.Allowed allowed) (plan.methodSource.code context) fun _ => True) :
    Build.Ensures (Diagnostic.Allowed allowed) state (task.action tailCalls) fun _ _ => True := by
  have formed := planned.formed plan isPlan
  have targetBuilt := turn.underway.targetBuilt turn.built
  have isInput : Key.method plan.method ∈ task.inputs := by
    rw [isTask]
    exact List.mem_cons_self
  obtain ⟨declared, isDeclared, makes, holds⟩ := turn.exists_maker isInput
  obtain rfl := planned.eq_declareMethod isPlan isDeclared makes
  obtain ⟨handle, method, isHandle, isMethod, isAttrs, isOwner⟩ :=
    BuildState.HoldsMethod.exists_entry holds targetBuilt
  obtain ⟨info, -, isOpen, -⟩ := turn.exists_open (isTask ▸ rfl) isOwner
  have missing : method.implementation.isMissing = true := by
    by_contra isThere
    have late := turn.underway.beyond.methods _ _ isHandle
    obtain ⟨other, key, source, isDone, isSame⟩ :=
      (turn.underway.madeBy.methods handle.index method late isMethod).defined
        (Bool.not_eq_true _ ▸ isThere)
    -- The task that gave the method code was this one.
    obtain ⟨maker, isMaker, makes, holds⟩ :=
      turn.underway.exists_maker isDone (List.mem_cons_self : Key.method key ∈ _)
    obtain ⟨otherPlan, isOtherPlan, isPlanned⟩ := planned.mem_tasks.mp (turn.underway.member _ isDone)
    cases Blueprint.mem_tasks.mp isPlanned with | methodCode => ?_
    obtain rfl := planned.eq_declareMethod isOtherPlan isMaker makes
    obtain ⟨_, _, isSameHandle, isSameMethod, -, isOtherOwner⟩ :=
      BuildState.HoldsMethod.exists_entry holds targetBuilt
    cases isSame.symm.trans isSameHandle
    cases isMethod.symm.trans isSameMethod
    have sameOwner := turn.underway.name_eq isOwner isOtherOwner
    obtain rfl := planned.eq_of_name isPlan isOtherPlan (formed.methodOwner.symm.trans
      (sameOwner.trans (planned.formed otherPlan isOtherPlan).methodOwner))
    exact turn.unperformed planned (isTask ▸ isDone)
  have granted : ∀ body, ∃ result, state.target.defineMethod handle body = .ok result :=
    Image.defineMethod_granted isMethod isOpen (isAttrs ▸ formed.concrete) missing
  subst isTask
  refine .generateThen (codes _ targetBuilt turn.underway.growth) fun body =>
    .resolveThen (allowed_of_own (Resolution.lookup_isOwn _ _)) fun found isFound => ?_
  cases isFound.symm.trans isHandle
  obtain ⟨result, isGranted⟩ := granted body
  exact .requestLast ⟨((), result), bind_eq_ok.mpr ⟨result, isGranted, rfl⟩⟩

/-- Code is given to a constructor of an open type that has none. -/
theorem Turn.ensures_defineCtor (isTask : task = .defineCtor host plan.ctor plan.ctorSource)
    (codes : ∀ context : LowerContext, context.image.Built → base.Extends context.image →
      Yields (Diagnostic.Allowed allowed) (plan.ctorSource.code context) fun _ => True) :
    Build.Ensures (Diagnostic.Allowed allowed) state (task.action tailCalls) fun _ _ => True := by
  have formed := planned.formed plan isPlan
  have targetBuilt := turn.underway.targetBuilt turn.built
  have isInput : Key.ctor plan.ctor ∈ task.inputs := by
    rw [isTask]
    exact List.mem_cons_self
  obtain ⟨declared, isDeclared, makes, holds⟩ := turn.exists_maker isInput
  obtain rfl := planned.eq_declareCtor isPlan isDeclared makes
  obtain ⟨handle, ctor, isHandle, isCtor, isOwner⟩ :=
    BuildState.HoldsCtor.exists_entry holds targetBuilt
  obtain ⟨info, -, isOpen, -⟩ := turn.exists_open (isTask ▸ rfl) isOwner
  have missing : ctor.implementation.isMissing = true := by
    by_contra isThere
    have late := turn.underway.beyond.ctors _ _ isHandle
    obtain ⟨other, key, source, isDone, isSame⟩ :=
      (turn.underway.madeBy.ctors handle.index ctor late isCtor).defined
        (Bool.not_eq_true _ ▸ isThere)
    obtain ⟨maker, isMaker, makes, holds⟩ :=
      turn.underway.exists_maker isDone (List.mem_cons_self : Key.ctor key ∈ _)
    obtain ⟨otherPlan, isOtherPlan, isPlanned⟩ := planned.mem_tasks.mp (turn.underway.member _ isDone)
    cases Blueprint.mem_tasks.mp isPlanned with | ctorCode => ?_
    obtain rfl := planned.eq_declareCtor isOtherPlan isMaker makes
    obtain ⟨_, _, isSameHandle, isSameCtor, isOtherOwner⟩ :=
      BuildState.HoldsCtor.exists_entry holds targetBuilt
    cases isSame.symm.trans isSameHandle
    cases isCtor.symm.trans isSameCtor
    have sameOwner := turn.underway.name_eq isOwner isOtherOwner
    obtain rfl := planned.eq_of_name isPlan isOtherPlan (formed.ctorOwner.symm.trans
      (sameOwner.trans (planned.formed otherPlan isOtherPlan).ctorOwner))
    exact turn.unperformed planned (isTask ▸ isDone)
  have granted : ∀ body, ∃ result, state.target.defineCtor handle body = .ok result :=
    Image.defineCtor_granted isCtor isOpen missing
  subst isTask
  refine .generateThen (codes _ targetBuilt turn.underway.growth) fun body =>
    .resolveThen (allowed_of_own (Resolution.lookup_isOwn _ _)) fun found isFound => ?_
  cases isFound.symm.trans isHandle
  obtain ⟨result, isGranted⟩ := granted body
  exact .requestLast ⟨((), result), bind_eq_ok.mpr ⟨result, isGranted, rfl⟩⟩

/-- A type is completed when its members have their code. -/
theorem Turn.ensures_complete (isTask : task = .complete plan.name []) :
    Build.Ensures (Diagnostic.Allowed allowed) state (task.action tailCalls) fun _ _ => True := by
  have formed := planned.formed plan isPlan
  have isDone : ∀ other ∈ plan.tasks host, other.phase = .declare →
      other.step tailCalls ∈ tasks.map (Task.step tailCalls) := fun other isOther early =>
    turn.turn.completing (isTask ▸ rfl) _ (Program.mem_steps.mpr
      ⟨other, planned.mem_tasks.mpr ⟨plan, isPlan, isOther⟩, rfl⟩) early
  have granted : ∀ handle, state.resolution.type plan.name = .ok handle →
      ∃ result, state.target.sealType handle = .ok result := by
    intro handle isType
    obtain ⟨info, isInfo, isName, late, made⟩ := turn.underway.exists_info isType
    have isOpen : state.target.openType handle = .ok info := by
      refine Image.openType_eq_ok.mpr ⟨isInfo, made.origin, ?_⟩
      by_contra complete
      obtain ⟨supertypes, isEarlier⟩ := made.completed (Bool.not_eq_false _ ▸ complete)
      rw [isName] at isEarlier
      exact turn.fresh (isTask ▸ List.mem_singleton_self _) _ isEarlier (List.mem_singleton_self _)
    refine Image.sealType_granted isOpen made.based made.alone (fun member listed => ?_)
      fun member listed => ?_
    · obtain ⟨_, -, ownedBy, entry⟩ := turn.underway.exists_method turn.built isInfo late listed
      obtain ⟨other, _, _, isEarlier, -, isOther, isHandle⟩ := entry.declared
      have sameOwner := turn.underway.name_eq isType (ownedBy ▸ isOther)
      obtain rfl := planned.eq_method isPlan (turn.underway.member _ isEarlier) sameOwner.symm
      obtain ⟨_, _, method, body, -, -, -, isSame, isMethod, isCode⟩ :=
        turn.underway.runs.method_defined (isDone _ (Blueprint.mem_tasks.mpr .methodCode) rfl)
      cases isHandle.symm.trans isSame
      exact ⟨method, isMethod, by rw [isCode]; rfl⟩
    · obtain ⟨_, -, ownedBy, entry⟩ := turn.underway.exists_ctor turn.built isInfo late listed
      obtain ⟨other, isEarlier, isOther, isHandle⟩ := entry.declared
      have sameOwner := turn.underway.name_eq isType (ownedBy ▸ isOther)
      obtain rfl := planned.eq_ctor isPlan (turn.underway.member _ isEarlier) sameOwner.symm
      obtain ⟨_, _, ctor, body, -, -, -, isSame, isCtor, isCode⟩ :=
        turn.underway.runs.ctor_defined (isDone _ (Blueprint.mem_tasks.mpr .ctorCode) rfl)
      cases isHandle.symm.trans isSame
      exact ⟨ctor, isCtor, by rw [isCode]; rfl⟩
  subst isTask
  exact .resolveThen (allowed_of_own (Resolution.lookup_isOwn _ _)) fun handle isType =>
    .requestThen (granted handle isType) fun _ _ => .recordAny

/-- A task whose turn it is fails with an allowed fault or none, when the code of bodies does. -/
theorem Turn.ensures (known : plan.Known base names host) (free : base.typeNamed? plan.name = none)
    (isTask : task ∈ plan.tasks host)
    (codes : ∀ context : LowerContext, context.image.Built → base.Extends context.image →
      Yields (Diagnostic.Allowed allowed) (plan.methodSource.code context) (fun _ => True) ∧
        Yields (Diagnostic.Allowed allowed) (plan.ctorSource.code context) fun _ => True) :
    Build.Ensures (Diagnostic.Allowed allowed) state (task.action tailCalls) fun _ _ => True := by
  cases Blueprint.mem_tasks.mp isTask with
  | type => exact turn.ensures_declareType rfl free
  | field isField =>
      exact turn.ensures_declareField planned isPlan rfl isField (known.fields _ isField)
  | ctor => exact turn.ensures_declareCtor planned isPlan rfl known.ctor
  | ctorCode =>
      exact turn.ensures_defineCtor planned isPlan rfl fun context isBuilt grown =>
        (codes context isBuilt grown).2
  | method => exact turn.ensures_declareMethod planned isPlan rfl known.method
  | methodCode =>
      exact turn.ensures_defineMethod planned isPlan rfl fun context isBuilt grown =>
        (codes context isBuilt grown).1
  | completed => exact turn.ensures_complete planned isPlan rfl

end Requests

end Turns

/-! ### Faults of builds -/

section Builds

variable {module : Module} {base : Image} {context : TypeContext} {names : List Name}
variable {allowed : ImageError → Prop} {options : CompileOptions} {diagnostic : Diagnostic}
variable (planned : program.Planned host plans)
include planned

/-- Types from blueprints neither inherit nor have properties. -/
theorem plain {task : Task} (isTask : task ∈ program.tasks) : task.IsPlain := by
  obtain ⟨plan, -, isTask⟩ := planned.mem_tasks.mp isTask
  cases Blueprint.mem_tasks.mp isTask with
  | type => exact ⟨rfl, rfl⟩
  | _ => trivial

/-- A planned program whose types are known and whose names are free is built, or stops at a fault
of the code of a body, or for an argument that no instruction can name. -/
theorem build_fault (accepted : module.Accepted base context program) (built : base.Built)
    (known : ∀ plan ∈ plans, plan.Known base names host)
    (named : ∀ name ∈ names, ∃ plan ∈ plans, plan.name = name)
    (acyclic : ¬module.InheritsCyclically) (free : ∀ plan ∈ plans, base.typeNamed? plan.name = none)
    (codes : ∀ plan ∈ plans, ∀ context : LowerContext, context.image.Built →
      base.Extends context.image →
      Yields (Diagnostic.Allowed allowed) (plan.methodSource.code context) (fun _ => True) ∧
        Yields (Diagnostic.Allowed allowed) (plan.ctorSource.code context) fun _ => True)
    (failed : (program.build options base).1 = .error diagnostic) :
    (∃ error, diagnostic = .target error ∧ allowed error) ∨
      program.Crowded ∧ ∃ index : Nat,
        diagnostic = .internal ("argument index " ++ toString index ++ " out of range") := by
  have valid : validate (program.steps options.tailCalls) .empty = .ok () :=
    planned.validated accepted built known named
  obtain ⟨first, second, declares, completes⟩ : ∃ first second,
      order (program.steps options.tailCalls) .declare = .ok first ∧
        order (program.steps options.tailCalls) .complete = .ok second :=
    planned.exists_orders accepted built known named acyclic
  rw [Program.build_eq] at failed
  cases ran : (schedule (program.steps options.tailCalls)).run (.initial base) with
  | ok _ _ =>
      rw [ran] at failed
      cases failed
  | error fault after =>
      rw [ran] at failed
      cases failed
      obtain ⟨done, step, state, runs, turn, fails⟩ :=
        exists_of_schedule_error rfl valid declares completes ran
      obtain ⟨tasks, rfl, underway⟩ := runs.underway built fun _ isTask => planned.plain isTask
      obtain ⟨task, isTask, rfl⟩ := Program.mem_steps.mp turn.member
      obtain ⟨plan, isPlan, isPlanned⟩ := planned.mem_tasks.mp isTask
      have excused : diagnostic.Excused (fun _ => False) program.Crowded := by
        have ensures := accepted.runStep_ensures built (valid_of_validate valid)
          (accepted.consistent built (valid_of_validate valid) runs) turn.toInTurn
        unfold Build.Ensures at ensures
        rwa [fails] at ensures
      cases excused with
      | unresolved missing => exact missing.elim
      | argument crowded => exact .inr ⟨crowded, _, rfl⟩
      | target error =>
          have acts := Turn.ensures planned isPlan ⟨underway, built, turn⟩ (known plan isPlan)
            (free plan isPlan) isPlanned (codes plan isPlan)
          have ensures : Build.Ensures (Diagnostic.Allowed allowed) state
              (runStep (task.step options.tailCalls)) fun _ _ => True :=
            .runStepAllowed acts
          unfold Build.Ensures at ensures
          rw [fails] at ensures
          exact .inl ⟨error, rfl, ensures error rfl⟩

end Builds

end Program.Planned

end ClassForge
