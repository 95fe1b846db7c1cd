import ClassForge.Proofs.Build.Supply
import ClassForge.Proofs.Schedule.Scheduling

/-!
# What tasks do

The tasks of an accepted program.  A task that declares or completes looks up what
its keys mention, a task that defines looks up what its code needs; both lie in
every closed set that contains the inputs of the task.  A task that succeeds adds
its outputs to the build and nothing else.
-/

namespace ClassForge

variable {key : MethodKey} {resolved : Resolved} {before : Resolution} {keys : List Key}

/-! ## Where code comes from -/

theorem mem_references {host : Name} {roots : List Core} {key : Key} :
    key ∈ references host roots ↔
      ∃ root ∈ roots, ∃ node ∈ root.preorder, key ∈ node.nodeKeys host := by
  simp only [references, List.mem_eraseDups, Core.preorderAll_eq_flatMap, List.mem_flatMap]
  constructor
  · rintro ⟨node, ⟨root, isRoot, inRoot⟩, isKey⟩
    exact ⟨root, isRoot, node, inRoot, isKey⟩
  · rintro ⟨root, isRoot, node, inRoot, isKey⟩
    exact ⟨node, ⟨root, isRoot, inRoot⟩, isKey⟩

/-- Number of argument slots of the code that a task defines. -/
def Task.argumentCount : Task → Nat
  | defineMethod _ _ (.routine routine) => routine.params.length
  | defineMethod _ _ (.closure closure) => closure.params.length + 1
  | defineMethod _ _ (.block block) => block.captures.length + block.arrays.length
  | defineCtor _ _ (.routine routine) => routine.params.length
  | defineCtor _ _ (.closure closure) => closure.captures.length + 1
  | _ => 0

section

variable {module : Module} {image : Image} {context : TypeContext} {program : Program}
variable {cls : ClassDef} {core : CoreClass} {node : Core} {task : Task}
variable {root : Core} {host : Name}
variable {params : List Param}

/-- Every expression that a class contributes code from was checked, with the arguments of
the member that it belongs to in scope. -/
theorem TypeContext.ChecksClass.exists_code (checked : context.ChecksClass cls core)
    (member : root ∈ core.roots) :
    ∃ code ∈ cls.code, ∃ expr ∈ code.roots,
      Expr.Checks context (.ofParams code.arguments) expr root := by
  have ofOption : ∀ {arguments ret body routine?} {routine : Routine},
      Option.Rel (context.ChecksRoutine arguments ret) body routine? →
      routine ∈ routine? → routine.body = root →
        ∃ code ∈ body.toList.map (MemberCode.ofBody arguments), ∃ expr ∈ code.roots,
          Expr.Checks context (.ofParams code.arguments) expr root := by
    rintro arguments ret body routine? routine related found rfl
    cases related with
    | none => cases found
    | some holds =>
        cases found
        exact ⟨_, List.mem_singleton_self _, _, List.mem_singleton_self _, holds.checked⟩
  simp only [ClassDef.code, List.mem_append, List.mem_flatMap]
  simp only [CoreClass.roots, List.mem_append, List.mem_map, List.mem_flatMap] at member
  rcases member with (⟨routine, isRoutine, isBody⟩ | ⟨ctor, isCtor, isRoot⟩) |
    ⟨property, isProperty, routine, isRoutine, isBody⟩
  · obtain ⟨method, isMethod, found⟩ := List.mem_filterMap.mp isRoutine
    obtain ⟨source, isSource, holds⟩ := exists_related_left checked.methods isMethod
    obtain ⟨code, isCode, rest⟩ := ofOption holds.routine found isBody
    exact ⟨code, .inl (.inl ⟨source, isSource, isCode⟩), rest⟩
  · obtain ⟨source, isSource, holds⟩ := exists_related_left checked.ctors isCtor
    refine ⟨_, .inl (.inr (List.mem_map_of_mem isSource)), ?_⟩
    rcases List.mem_append.mp isRoot with isArg | isBody
    · obtain ⟨arg, isSourceArg, argChecked⟩ := exists_related_left holds.baseArgs isArg
      exact ⟨arg, List.mem_append_left _ isSourceArg, argChecked⟩
    · obtain rfl := List.mem_singleton.mp isBody
      exact ⟨_, List.mem_append_right _ (List.mem_singleton_self _), holds.checked⟩
  · obtain ⟨source, isSource, holds⟩ := exists_related_left checked.properties isProperty
    rcases isRoutine with found | found
    · obtain ⟨code, isCode, rest⟩ := ofOption holds.getter (Option.mem_toList.mp found) isBody
      exact ⟨code, .inr ⟨source, isSource, .inl isCode⟩, rest⟩
    · obtain ⟨code, isCode, rest⟩ := ofOption holds.setter (Option.mem_toList.mp found) isBody
      exact ⟨code, .inr ⟨source, isSource, .inr isCode⟩, rest⟩

/-- So was every expression inside. -/
theorem TypeContext.ChecksClass.exists_checks_node (checked : context.ChecksClass cls core)
    (member : node ∈ Core.preorderAll core.roots) :
    ∃ types expr, Expr.Checks context types expr node := by
  rw [Core.preorderAll_eq_flatMap] at member
  obtain ⟨root, isRoot, inRoot⟩ := List.mem_flatMap.mp member
  obtain ⟨code, -, expr, -, rootChecked⟩ := checked.exists_code isRoot
  have start : Checkpoint.Accepted context ⟨_, expr, root⟩ := rootChecked
  obtain ⟨inner, reaches, rfl⟩ := start.exists_reaches inRoot
  exact ⟨_, _, reaches.accepted start⟩

theorem CoreClass.mem_program_tasks {cls : CoreClass} (isClass : cls ∈ program)
    (isPlanned : cls.Plans task) : task ∈ program.tasks :=
  List.mem_flatMap.mpr ⟨cls, isClass, CoreClass.mem_tasks.mpr isPlanned⟩

/-- Every task of a program is one of a class. -/
theorem Program.exists_plans (isTask : task ∈ program.tasks) : ∃ cls ∈ program, cls.Plans task := by
  obtain ⟨cls, isClass, isTask⟩ := List.mem_flatMap.mp isTask
  exact ⟨cls, isClass, CoreClass.mem_tasks.mp isTask⟩

/-! ## Generating the code of a task -/

variable {held : Key → Prop} {missing : Key → Prop} {crowded : Prop}
variable {lowering : LowerContext}

/-- The nodes of a body whose references are held are supplied. -/
theorem supplied_of_references (accepted : module.Accepted image context program)
    (built : image.Built) (closed : program.Closed held)
    (supplies : ∀ key, held key → lowering.resolution.Supplies missing key)
    {types : Scope SourceTy} {expr : Expr} {roots : List Core}
    (checked : Expr.Checks context types expr root) (isRoot : root ∈ roots)
    (keys : ∀ key ∈ references lowering.host roots, held key) :
    ∀ node ∈ root.preorder, node.Supplied lowering.resolution missing lowering.host :=
  checked.supplied accepted built closed
    (fun node member key isKey => keys key (mem_references.mpr ⟨root, isRoot, node, member, isKey⟩))
    supplies

theorem routine_yields (accepted : module.Accepted image context program) (built : image.Built)
    (closed : program.Closed held)
    (supplies : ∀ key, held key → lowering.resolution.Supplies missing key) {isStatic : Bool}
    {ret : SourceTy} {body : Expr} {routine : Routine}
    (checked : context.ChecksRoutine (cls.arguments isStatic params) ret body routine)
    (owner : held (.type cls.name)) (paramsHold : ∀ param ∈ params, HoldsType held param.type)
    (keys : ∀ key ∈ references lowering.host [routine.body], held key)
    (room : maxArgs < routine.params.length → crowded) :
    Yields (Diagnostic.Excused missing crowded) (routine.code lowering) fun _ => True := by
  refine Routine.code_yields checked ?_ ?_ ?_
  · intro param member
    refine HoldsType.supplies ?_ supplies
    unfold ClassDef.arguments at member
    split at member
    · exact paramsHold param member
    · rcases List.mem_cons.mp member with rfl | isParam
      · intro name mentioned
        obtain rfl := List.mem_singleton.mp mentioned
        exact owner
      · exact paramsHold param isParam
  · exact supplied_of_references accepted built closed supplies checked.checked
      (List.mem_singleton_self _) keys
  · intro many
    refine room ?_
    rw [checked.params, bindersOf, List.length_map]
    exact many

/-- The class that a task belongs to. -/
theorem Module.Accepted.exists_class (accepted : module.Accepted image context program)
    (member : task ∈ program.tasks) :
    ∃ cls ∈ module.classes, ∃ core ∈ program, context.ChecksClass cls core ∧
      core.Plans task := by
  obtain ⟨core, present, isPlanned⟩ := Program.exists_plans member
  obtain ⟨cls, isClass, checked⟩ := exists_related_left accepted.classes present
  exact ⟨cls, isClass, core, present, checked, isPlanned⟩

theorem core_of_block? {block : Block} (isBlock : node.block? host = some block) :
    block.core = node ∧ block.captures = node.captures := by
  cases node <;> cases isBlock <;> exact ⟨rfl, rfl⟩

theorem mem_mentioned_of_mem_handlers {handler : CatchBinder × Core}
    (member : handler ∈ node.handlers) : handler.1.type ∈ node.mentioned := by
  cases node with
  | tryCatch | tryFinally => exact List.mem_map.mpr ⟨handler, member, rfl⟩
  | _ => cases member

theorem CoreClass.mem_roots_of_ctor {cls : CoreClass} {ctor : CoreCtor}
    (isCtor : ctor ∈ cls.ctors) (isRoot : root ∈ ctor.routine.roots) : root ∈ cls.roots :=
  List.mem_append_left _ (List.mem_append_right _
    (List.mem_flatMap.mpr ⟨ctor, isCtor, isRoot⟩))

/-- The code of an accessor, once what its task reads is held. -/
theorem accessor_yields (accepted : module.Accepted image context program) (built : image.Built)
    (closed : program.Closed held)
    (supplies : ∀ key, held key → lowering.resolution.Supplies missing key)
    (isCore : core ∈ program) {property : CoreProperty} (isProperty : property ∈ core.properties)
    {isStatic : Bool} {ret : SourceTy} {body : Expr} {routine : Routine}
    (checked : context.ChecksRoutine (cls.arguments isStatic params) ret body routine)
    (isKey : Key.method key ∈ (Task.declareProperty property).outputs)
    (owner : key.owner = cls.name) (ofType : ∀ param ∈ params, param.type = property.key.type)
    (inputs : ∀ input ∈ (Task.defineMethod lowering.host key (.routine routine)).inputs, held input)
    (room : maxArgs < routine.params.length → crowded) :
    Yields (Diagnostic.Excused missing crowded) (routine.code lowering) fun _ => True := by
  have isTask : Task.declareProperty property ∈ program.tasks :=
    CoreClass.mem_program_tasks isCore (.property isProperty)
  have declared := closed _ isTask _ isKey (inputs _ List.mem_cons_self)
  refine routine_yields accepted built closed supplies checked ?_ ?_ ?_ room
  · rw [← owner]
    exact inputs _ (by simp [Task.inputs, MethodSource.inputs])
  · intro param member
    rw [ofType param member]
    refine holdsType_of_typeKeys (fun key isKey => declared key ?_) _ (List.mem_singleton_self _)
    exact List.mem_cons_of_mem _ isKey
  · intro key isKey
    exact inputs key (by simp [Task.inputs, MethodSource.inputs, isKey])

/-- Generating the code of a method fails for nothing but what is excused, once what
its task reads is held. -/
theorem Module.Accepted.defineMethod_yields (accepted : module.Accepted image context program)
    (built : image.Built) (closed : program.Closed held)
    (supplies : ∀ key, held key → lowering.resolution.Supplies missing key) {source : MethodSource}
    (member : .defineMethod lowering.host key source ∈ program.tasks)
    (inputs : ∀ input ∈ (Task.defineMethod lowering.host key source).inputs, held input)
    (room : maxArgs < (Task.defineMethod lowering.host key source).argumentCount → crowded) :
    Yields (Diagnostic.Excused missing crowded) (source.code lowering) fun _ => True := by
  generalize isHost : lowering.host = host at member
  obtain ⟨cls, -, core, isCore, checked, isPlanned⟩ := accepted.exists_class member
  cases isPlanned with
  | @methodCode method routine isMethod isRoutine =>
      obtain ⟨definition, -, holds⟩ := exists_related_left checked.methods isMethod
      have declared := closed _ (CoreClass.mem_program_tasks isCore (.method isMethod))
        (.method method.key) (by simp [Task.outputs]) (inputs _ List.mem_cons_self)
      have params : ∀ param ∈ definition.params, HoldsType held param.type := by
        intro param isParam
        refine holdsType_of_typeKeys (List.forall_mem_cons.mp declared).2
          param.type (List.mem_append_left _ ?_)
        rw [holds.key]
        exact List.mem_map_of_mem isParam
      obtain ⟨body, holdsRoutine⟩ := TypeContext.exists_of_rel_some holds.routine isRoutine
      refine routine_yields accepted built closed supplies holdsRoutine ?_ params ?_ room
      · have owner := inputs (.type method.key.owner) (by simp [Task.inputs, MethodSource.inputs])
        rwa [holds.key] at owner
      · exact fun key isKey => inputs key (by simp [Task.inputs, MethodSource.inputs, isKey])
  | getterCode isProperty isKey isRoutine =>
      obtain ⟨definition, -, holds⟩ := exists_related_left checked.properties isProperty
      obtain ⟨body, holdsRoutine⟩ := TypeContext.exists_of_rel_some holds.getter isRoutine
      refine accessor_yields accepted built closed supplies isCore isProperty holdsRoutine ?_
        ?_ (by simp) inputs room
      · simp [Task.outputs, isKey]
      · rw [getterKey?_eq holds] at isKey
        obtain ⟨_, -, rfl⟩ := Option.map_eq_some_iff.mp isKey
        rfl
  | setterCode isProperty isKey isRoutine =>
      obtain ⟨definition, -, holds⟩ := exists_related_left checked.properties isProperty
      obtain ⟨body, holdsRoutine⟩ := TypeContext.exists_of_rel_some holds.setter isRoutine
      refine accessor_yields accepted built closed supplies isCore isProperty holdsRoutine ?_
        ?_ ?_ inputs room
      · simp [Task.outputs, isKey]
      · rw [setterKey?_eq holds] at isKey
        obtain ⟨_, -, rfl⟩ := Option.map_eq_some_iff.mp isKey
        rfl
      · intro param isParam
        obtain rfl := List.mem_singleton.mp isParam
        rw [holds.key]
        rfl
  | closure isNode isClosure isTask =>
      cases isTask
      obtain ⟨types, expr, nodeChecked⟩ := checked.exists_checks_node isNode
      have declared := closed _
        (CoreClass.mem_program_tasks isCore (.closure isNode isClosure .invoke)) _
        (List.mem_singleton_self _) (inputs _ List.mem_cons_self)
      rw [← isHost] at isClosure
      obtain ⟨_, _, down⟩ := exists_descends_closure nodeChecked isClosure
      refine Closure.invokeCode_yields nodeChecked isClosure ?_ ?_ ?_ ?_ room
      · refine supplied_of_references accepted built closed supplies (down.checks nodeChecked)
          (List.mem_singleton_self _) fun key isKey => inputs key ?_
        simp [Task.inputs, MethodSource.inputs, isKey]
      · intro capture isCapture
        refine supplies _ (inputs _ (List.mem_cons_of_mem _ (List.mem_append_left _
          (List.mem_append_left _ (List.mem_map_of_mem (List.mem_map_of_mem isCapture))))))
      · intro capture isCapture
        refine HoldsType.supplies (holdsType_of_typeKeys (fun key isKey => inputs key ?_) _
          (List.mem_map_of_mem isCapture)) supplies
        simp [Task.inputs, MethodSource.inputs, isKey]
      · intro param isParam
        refine HoldsType.supplies (holdsType_of_typeKeys (fun key isKey => declared key
          (List.mem_cons_of_mem _ isKey)) _ (List.mem_append_left _ ?_)) supplies
        exact List.mem_map_of_mem isParam
  | @blockCode node block isNode isBlock =>
      obtain ⟨types, expr, nodeChecked⟩ := checked.exists_checks_node isNode
      rw [← isHost] at isBlock
      obtain ⟨isCore, isCaptures⟩ := core_of_block? isBlock
      have keys : ∀ key ∈ references lowering.host [node], held key := by
        intro key isKey
        rw [← isCore] at isKey
        exact inputs key (by simp [Task.inputs, MethodSource.inputs, isKey])
      have own : ∀ key ∈ node.nodeKeys lowering.host, held key := fun key isKey =>
        keys key (mem_references.mpr
          ⟨node, List.mem_singleton_self _, node, node.mem_preorder_self, isKey⟩)
      refine Block.code_yields nodeChecked isBlock ?_ ?_ ?_ ?_ room
      · exact supplied_of_references accepted built closed supplies nodeChecked
          (List.mem_singleton_self _) keys
      · intro capture isCapture
        refine HoldsType.supplies (holdsType_of_typeKeys (fun key isKey => own key ?_) _
          (List.mem_map_of_mem isCapture)) supplies
        simp [Core.nodeKeys, isKey]
      · refine HoldsType.supplies (holdsType_of_typeKeys (fun key isKey => own key ?_) _
          (List.mem_singleton_self _)) supplies
        simp [Core.nodeKeys, isKey]
      · intro handler isHandler
        refine HoldsType.supplies (holdsType_of_typeKeys (fun key isKey => own key ?_) _
          (mem_mentioned_of_mem_handlers isHandler)) supplies
        simp [Core.nodeKeys, isKey]

/-- In a closed set, a class brings in what its base and its interfaces mention. -/
theorem TypeContext.ChecksClass.holdsType_above (closed : program.Closed held)
    (checked : context.ChecksClass cls core) (isCore : core ∈ program)
    (owner : held (.type cls.name)) :
    ∀ type ∈ cls.base.toList ++ cls.interfaces, HoldsType held type := by
  have isTask := CoreClass.mem_program_tasks isCore .type
  have inputs := closed _ isTask (.type cls.name) (by simp [Task.outputs, checked.name]) owner
  rw [← checked.base, ← checked.interfaces]
  exact holdsType_of_typeKeys inputs

/-- The constructor of the base that has a key is declared. -/
theorem TypeContext.ChecksCtor.base_declared (accepted : module.Accepted image context program)
    (built : image.Built) {ctor : CtorDef} {core : CoreCtor}
    (checked : context.ChecksCtor cls ctor core) {callee : Callee}
    (isBase : callee ∈ core.routine.base) {key : CtorKey} (isKey : key ∈ callee.ctorKey?) :
    context.symbols.Declares (.ctor key) := by
  have plain : context.image.PlainPlatform := accepted.image ▸ built.plainPlatform
  have candidate := TypeContext.mem_of_select (checked.base callee isBase)
  exact (TypeContext.ctorCandidates_foundOn plain candidate).2.declared _
    (by simp [Option.mem_def.mp isKey])

/-- The constructor of the base that has no key needs only held types. -/
theorem TypeContext.ChecksCtor.base_needs (accepted : module.Accepted image context program)
    (built : image.Built) {ctor : CtorDef} {core : CoreCtor}
    (checked : context.ChecksCtor cls ctor core) {callee : Callee}
    (isBase : callee ∈ core.routine.base) (keyless : callee.ctorKey? = none)
    (baseHolds : HoldsType held cls.baseType) :
    ∀ type ∈ callee.owner :: callee.params, HoldsType held type := by
  have plain : context.image.PlainPlatform := accepted.image ▸ built.plainPlatform
  have candidate := TypeContext.mem_of_select (checked.base callee isBase)
  obtain ⟨isOwner, foundOn⟩ := TypeContext.ctorCandidates_foundOn plain candidate
  rw [isOwner]
  exact foundOn.holdsType (by simp [keyless]) (.inr baseHolds)

/-- Generating the code of a constructor fails for nothing but what is excused, once
what its task reads is held. -/
theorem Module.Accepted.defineCtor_yields (accepted : module.Accepted image context program)
    (built : image.Built) (closed : program.Closed held)
    (supplies : ∀ key, held key → lowering.resolution.Supplies missing key) {key : CtorKey}
    {source : CtorSource} (member : .defineCtor lowering.host key source ∈ program.tasks)
    (inputs : ∀ input ∈ (Task.defineCtor lowering.host key source).inputs, held input)
    (room : maxArgs < (Task.defineCtor lowering.host key source).argumentCount → crowded) :
    Yields (Diagnostic.Excused missing crowded) (source.code lowering) fun _ => True := by
  generalize lowering.host = host at member
  obtain ⟨cls, -, core, isCore, checked, isPlanned⟩ := accepted.exists_class member
  cases isPlanned with
  | @ctorCode ctor isCtor =>
      obtain ⟨definition, -, holds⟩ := exists_related_left checked.ctors isCtor
      have declared := closed _ (CoreClass.mem_program_tasks isCore (.ctor isCtor))
        (.ctor ctor.key) (by simp [Task.outputs]) (inputs _ List.mem_cons_self)
      have owner : held (.type cls.name) := by
        have owner := inputs (.type ctor.key.owner) (by simp [Task.inputs, CtorSource.inputs])
        rwa [holds.key] at owner
      refine CtorRoutine.code_yields holds ?_ ?_ ?_ ?_ ?_
      · intro param isParam
        refine HoldsType.supplies ?_ supplies
        rcases List.mem_cons.mp isParam with rfl | isParam
        · intro name mentioned
          obtain rfl := List.mem_singleton.mp mentioned
          exact owner
        · refine holdsType_of_typeKeys (List.forall_mem_cons.mp declared).2
            param.type ?_
          rw [holds.key]
          exact List.mem_map_of_mem isParam
      · intro root isRoot
        obtain ⟨code, -, expr, -, rootChecked⟩ := checked.exists_code
          (CoreClass.mem_roots_of_ctor isCtor isRoot)
        refine supplied_of_references accepted built closed supplies rootChecked isRoot ?_
        exact fun key isKey => inputs key (by simp [Task.inputs, CtorSource.inputs, isKey])
      · intro callee isBase key isKey
        refine supplies _ (inputs _ ?_)
        simp [Task.inputs, CtorSource.inputs, Option.mem_def.mp isBase, Option.mem_def.mp isKey]
      · intro callee isBase keyless type isType
        refine HoldsType.supplies ?_ supplies
        refine holds.base_needs accepted built isBase keyless ?_ type isType
        have above := checked.holdsType_above closed isCore owner
        unfold ClassDef.baseType
        cases base : cls.base with
        | none => exact holdsType_of_mentions_eq_nil rfl
        | some type => exact above type (by simp [base])
      · intro many
        refine room ?_
        simp only [Task.argumentCount, holds.params, bindersOf, List.length_map]
        exact many
  | closure isNode isClosure isTask =>
      cases isTask
      refine Closure.ctorCode_yields (fun capture isCapture => ?_) room
      refine supplies _ (inputs _ (List.mem_cons_of_mem _ ?_))
      exact List.mem_map_of_mem (List.mem_map_of_mem isCapture)

end

/-! ## Actions -/

section Actions

variable {τ α β : Type} {permits : Diagnostic → Prop} {state : BuildState τ}

/-- Run in a state, an action ends as promised or with a permitted fault. -/
def Build.Ensures (permits : Diagnostic → Prop) (state : BuildState τ) (action : Build τ α)
    (post : α → BuildState τ → Prop) : Prop :=
  match action.run state with
  | .ok value after => post value after
  | .error diagnostic _ => permits diagnostic

namespace Build.Ensures

variable {action : Build τ α}
variable {post : α → BuildState τ → Prop}

theorem bind {next : α → Build τ β} {middle : α → BuildState τ → Prop}
    {post : β → BuildState τ → Prop} (first : Build.Ensures permits state action middle)
    (second : ∀ value after, middle value after → Build.Ensures permits after (next value) post) :
    Build.Ensures permits state (action >>= next) post := by
  unfold Build.Ensures at first ⊢
  rw [EStateM.run_bind]
  cases ran : action.run state with
  | error diagnostic after =>
      rw [ran] at first
      exact first
  | ok value after =>
      rw [ran] at first
      exact second value after first

theorem imp {weaker : α → BuildState τ → Prop} (ensures : Build.Ensures permits state action post)
    (implies : ∀ value after, post value after → weaker value after) :
    Build.Ensures permits state action weaker := by
  unfold Build.Ensures at ensures ⊢
  cases ran : action.run state with
  | error diagnostic after =>
      rw [ran] at ensures
      exact ensures
  | ok value after =>
      rw [ran] at ensures
      exact implies value after ensures

theorem permit {more : Diagnostic → Prop} (ensures : Build.Ensures permits state action post)
    (implies : ∀ diagnostic, permits diagnostic → more diagnostic) :
    Build.Ensures more state action post := by
  unfold Build.Ensures at ensures ⊢
  cases ran : action.run state with
  | error diagnostic after =>
      rw [ran] at ensures
      exact implies diagnostic ensures
  | ok value after =>
      rw [ran] at ensures
      exact ensures

/-- Reading the handles leaves the state alone. -/
theorem resolve {read : Resolution → Except Diagnostic α}
    (yields : Yields permits (read state.resolution) fun _ => True) :
    Build.Ensures permits state (Build.resolve read) fun _ after => state = after := by
  unfold Build.Ensures
  rw [Build.run_resolve]
  cases done : read state.resolution with
  | ok value => rfl
  | error diagnostic =>
      rw [done] at yields
      exact yields

/-- A request changes the target only. -/
theorem request {action : τ → Except ImageError (α × τ)}
    (permitted : ∀ error, permits (.target error)) :
    Build.Ensures permits state (Build.request action) fun _ after =>
      after.resolution = state.resolution := by
  unfold Build.Ensures
  rw [Build.run_request]
  cases action state.target with
  | ok result => rfl
  | error error => exact permitted error

/-- Recording a key that is not taken adds just that key. -/
theorem record {key : Key}
    (permitted : (state.resolution.get? key).isSome = true →
      permits (.internal (key.text ++ " resolved twice"))) :
    Build.Ensures permits state (Build.record key resolved) fun _ after =>
      ∀ other, after.resolution.get? other =
        if other = key then some resolved else state.resolution.get? other := by
  unfold Build.Ensures
  rw [Build.run_record]
  unfold Resolution.insert
  cases added : state.resolution.insert? key resolved with
  | some extended => exact fun other => KeyTable.get?_insert? added other
  | none =>
      refine permitted ?_
      unfold KeyTable.insert? at added
      split at added
      · rename_i taken
        exact taken
      · cases added

theorem pure {value : α} {post : α → BuildState τ → Prop} (holds : post value state) :
    Build.Ensures permits state (pure value) post :=
  holds

end Build.Ensures

end Actions

/-- A resolution holds some keys more than before, each with a handle of its kind. -/
def Resolution.Adds (before after : Resolution) (keys : List Key) : Prop :=
  ∀ key, if key ∈ keys then ∃ resolved, after.get? key = some resolved ∧ resolved.Fits key
    else after.get? key = before.get? key

theorem Resolution.adds_nil (resolution : Resolution) : resolution.Adds resolution [] :=
  fun _ => by simp

theorem Resolution.Adds.cons {middle after : Resolution} {key : Key}
    (adds : before.Adds middle keys) (fits : resolved.Fits key)
    (recorded : ∀ other, after.get? other =
      if other = key then some resolved else middle.get? other) :
    before.Adds after (key :: keys) := by
  intro other
  rw [recorded other]
  by_cases same : other = key
  · subst same
    simp [fits]
  · simpa [same] using adds other

theorem Resolution.Adds.perm {after : Resolution} {others : List Key}
    (adds : before.Adds after keys) (same : ∀ key, key ∈ others ↔ key ∈ keys)
    : before.Adds after others := by
  intro key
  simpa [same key] using adds key

/-- The faults that a task may end with: those that are excused when code is generated,
and a key of its own that is taken. -/
def Task.Permits (missing : Key → Prop) (crowded : Prop) (resolution : Resolution)
    (task : Task) (diagnostic : Diagnostic) : Prop :=
  diagnostic.Excused missing crowded ∨
    ∃ key ∈ task.outputs, (resolution.get? key).isSome = true ∧
      diagnostic = .internal (key.text ++ " resolved twice")

namespace Task

variable {held missing : Key → Prop} {crowded : Prop} {state : BuildState Image} {task : Task}
variable {permits : Diagnostic → Prop}
variable {code : LowerContext → Except Diagnostic Body}

section

variable (excused : ∀ diagnostic : Diagnostic, diagnostic.Excused missing crowded → permits diagnostic)
include excused

theorem resolve_type {name : Name} (supplied : state.resolution.Supplies missing (.type name)) :
    Build.Ensures permits state (Build.resolve fun resolution => resolution.type name)
      fun _ after => state = after :=
  .resolve ((Resolution.type_yields supplied).permit excused)

theorem resolve_runTy {type : SourceTy} (supplied : state.resolution.SuppliesType missing type) :
    Build.Ensures permits state (Build.resolve fun resolution => resolution.runTy type)
      fun _ after => state = after :=
  .resolve ((resolve_yields type supplied).permit excused)

theorem resolve_runTys {types : List SourceTy}
    (supplied : ∀ type ∈ types, state.resolution.SuppliesType missing type) :
    Build.Ensures permits state (Build.resolve fun resolution => resolution.runTys types)
      fun _ after => state = after :=
  .resolve ((resolveList_yields types supplied).permit excused)

theorem addMethod_ensures
    (adds : before.Adds state.resolution keys)
    (taken : (state.resolution.get? (.method key)).isSome = true →
      permits (.internal ((Key.method key).text ++ " resolved twice")))
    (owner : TypeHandle) (attrs : MethodAttrs) (params : List RunTy) (ret : RunTy) :
    Build.Ensures permits state (addMethod key owner attrs params ret) fun _ after =>
      before.Adds after.resolution (.method key :: keys) := by
  refine Build.Ensures.bind (.request fun error => excused _ (.target error)) ?_
  intro handle requested same
  refine Build.Ensures.bind (.record ?_) ?_
  · rw [same]
    exact taken
  · intro _ after recorded
    refine .pure ?_
    rw [same] at recorded
    have fits : (Resolved.method handle).Fits (.method key) := trivial
    exact adds.cons fits recorded

end

/-- The accessors of a property are different methods. -/
theorem getter_ne_setter (key : PropertyKey) (isInstance other : Bool) :
    key.getter isInstance ≠ key.setter other := by
  intro same
  have names : getterName key.name = setterName key.name := congrArg MethodKey.name same
  have chars := congrArg (fun name : String => name.toList.head?) names
  simp [getterName, setterName] at chars

theorem run_generate {host : Name} {tailCalls : Bool} :
    (generate host tailCalls code).run state =
      match code { image := state.target, resolution := state.resolution, host, tailCalls } with
      | .ok body => .ok body state
      | .error diagnostic => .error diagnostic state := by
  simp only [generate, EStateM.run_bind, EStateM.run_get]
  cases code { image := state.target, resolution := state.resolution, host, tailCalls } <;> rfl

/-- Generating code reads the state and leaves it alone. -/
theorem generate_ensures
    (excused : ∀ diagnostic : Diagnostic,
      diagnostic.Excused missing crowded → permits diagnostic) {host : Name} {tailCalls : Bool}
    (yields : Yields (Diagnostic.Excused missing crowded)
      (code { image := state.target, resolution := state.resolution, host, tailCalls })
      fun _ => True) :
    Build.Ensures permits state (generate host tailCalls code) fun _ after => state = after := by
  unfold Build.Ensures
  rw [run_generate]
  cases done : code { image := state.target, resolution := state.resolution, host, tailCalls } with
  | ok body => rfl
  | error diagnostic =>
      rw [done] at yields
      exact excused diagnostic yields

end Task

/-- A task that succeeds adds its outputs and nothing else.  It looks up nothing outside
a closed set that contains its inputs. -/
theorem Module.Accepted.action_ensures {module : Module} {image : Image} {context : TypeContext}
    {program : Program} {held missing : Key → Prop} {crowded : Prop}
    (accepted : module.Accepted image context program) (built : image.Built)
    (closed : program.Closed held) {state : BuildState Image}
    (supplies : ∀ key, held key → state.resolution.Supplies missing key) {task : Task}
    (member : task ∈ program.tasks) (inputs : ∀ input ∈ task.inputs, held input)
    (room : maxArgs < task.argumentCount → crowded)
    (tailCalls : Bool) :
    Build.Ensures (task.Permits missing crowded state.resolution) state (task.action tailCalls)
      fun _ after => state.resolution.Adds after.resolution task.outputs := by
  have excused : ∀ diagnostic : Diagnostic, diagnostic.Excused missing crowded →
      task.Permits missing crowded state.resolution diagnostic := fun _ => .inl
  have taken : ∀ key ∈ task.outputs, (state.resolution.get? key).isSome = true →
      task.Permits missing crowded state.resolution (.internal (key.text ++ " resolved twice")) :=
    fun key isOutput present => .inr ⟨key, isOutput, present, rfl⟩
  have typeKey : ∀ name, Key.type name ∈ task.inputs →
      state.resolution.Supplies missing (.type name) :=
    fun name isInput => supplies _ (inputs _ isInput)
  have types : ∀ {list : List SourceTy}, (∀ key ∈ typeKeys list, key ∈ task.inputs) →
      ∀ type ∈ list, state.resolution.SuppliesType missing type := by
    intro list listed type isType
    exact HoldsType.supplies (holdsType_of_typeKeys (fun key isKey => inputs key (listed key isKey))
      type isType) supplies
  have request : ∀ {α : Type} {now : BuildState Image} {action : Image → Except ImageError (α × Image)},
      Build.Ensures (task.Permits missing crowded state.resolution) now (Build.request action)
        fun _ after => after.resolution = now.resolution :=
    .request fun error => excused _ (.target error)
  -- The last act of a declaration: record its key.
  have record : ∀ {key : Key} {resolved : Resolved} {now : BuildState Image},
      task.outputs = [key] → resolved.Fits key → now.resolution = state.resolution →
      Build.Ensures (task.Permits missing crowded state.resolution) now (Build.record key resolved)
        fun _ after => state.resolution.Adds after.resolution task.outputs := by
    intro key resolved now output fits same
    refine (Build.Ensures.record ?_).imp fun _ after recorded => ?_
    · rw [same]
      exact taken key (by simp [output])
    · rw [same] at recorded
      rw [output]
      exact state.resolution.adds_nil.cons fits recorded
  cases task with
  | declareType name attrs base interfaces =>
      have all : ∀ type ∈ base.toList ++ interfaces, state.resolution.SuppliesType missing type :=
        types fun key isKey => isKey
      have readBase : Yields (Diagnostic.Excused missing crowded)
          (base.mapM state.resolution.runTy) fun _ => True := by
        cases base with
        | none => trivial
        | some base =>
            have yields : Yields (Diagnostic.Excused missing crowded)
                (state.resolution.runTy base) fun _ => True := resolve_yields base (all base (by simp))
            exact yields.bind fun _ _ => trivial
      refine (Build.Ensures.resolve (readBase.permit excused)).bind ?_
      rintro base _ rfl
      refine (Task.resolve_runTys excused fun type isType =>
        all type (List.mem_append_right _ isType)).bind ?_
      rintro interfaces _ rfl
      exact request.bind fun handle after same => record rfl trivial same
  | declareField key attrs =>
      refine (Task.resolve_type excused (typeKey _ List.mem_cons_self)).bind ?_
      rintro owner _ rfl
      refine (Task.resolve_runTy excused (types (fun key isKey => List.mem_cons_of_mem _ isKey) _
        (List.mem_singleton_self _))).bind ?_
      rintro type _ rfl
      exact request.bind fun handle after same => record rfl trivial same
  | declareMethod key attrs ret =>
      have all : ∀ type ∈ key.params ++ [ret], state.resolution.SuppliesType missing type :=
        types fun key isKey => List.mem_cons_of_mem _ isKey
      refine (Task.resolve_type excused (typeKey _ List.mem_cons_self)).bind ?_
      rintro owner _ rfl
      refine (Task.resolve_runTys excused fun type isType =>
        all type (List.mem_append_left _ isType)).bind ?_
      rintro params _ rfl
      refine (Task.resolve_runTy excused (all ret (by simp))).bind ?_
      rintro type _ rfl
      refine (Task.addMethod_ensures excused (Resolution.adds_nil _)
        (taken (.method key) (by simp [Task.outputs])) _ _ _ _).bind ?_
      exact fun _ _ adds => adds
  | declareCtor key =>
      refine (Task.resolve_type excused (typeKey _ List.mem_cons_self)).bind ?_
      rintro owner _ rfl
      refine (Task.resolve_runTys excused
        (types fun key isKey => List.mem_cons_of_mem _ isKey)).bind ?_
      rintro params _ rfl
      exact request.bind fun handle after same => record rfl trivial same
  | declareProperty property =>
      refine (Task.resolve_type excused (typeKey _ List.mem_cons_self)).bind ?_
      rintro owner _ rfl
      refine (Task.resolve_runTy excused (types (fun key isKey => List.mem_cons_of_mem _ isKey) _
        (List.mem_singleton_self _))).bind ?_
      rintro type _ rfl
      have output : ∀ {accessor}, property.getterKey? = some accessor ∨
          property.setterKey? = some accessor →
          Key.method accessor ∈ (Task.declareProperty property).outputs := by
        rintro accessor (isGetter | isSetter)
        · simp [Task.outputs, isGetter]
        · simp [Task.outputs, isSetter]
      -- Each accessor adds its key to what was added before it.
      have accessor : ∀ {now : BuildState Image} {keys : List Key} {accessor? : Option MethodKey}
          {attrs : MethodAttrs} {params : List RunTy} {ret : RunTy},
          state.resolution.Adds now.resolution keys →
          (∀ accessor ∈ accessor?, Key.method accessor ∈ (Task.declareProperty property).outputs ∧
            Key.method accessor ∉ keys) →
          Build.Ensures (Task.Permits missing crowded state.resolution (.declareProperty property))
            now (accessor?.mapM fun accessor => Task.addMethod accessor owner attrs params ret)
            fun _ after => state.resolution.Adds after.resolution
              (accessor?.toList.map Key.method ++ keys) := by
        intro now keys accessor? attrs params ret adds fresh
        cases accessor? with
        | none => exact .pure adds
        | some key =>
            obtain ⟨isOutput, absent⟩ := fresh key rfl
            refine (Task.addMethod_ensures excused adds ?_ _ _ _ _).bind ?_
            · have same := adds (.method key)
              rw [if_neg absent] at same
              rw [same]
              exact taken _ isOutput
            · exact fun _ _ adds => adds
      refine (accessor (Resolution.adds_nil _) fun key isKey => ⟨output (.inl isKey), by simp⟩).bind ?_
      intro getter afterGetter adds
      refine (accessor adds fun key isKey => ⟨output (.inr isKey), ?_⟩).bind ?_
      · intro present
        have isGetter : property.getterKey? = some key := by simpa using present
        obtain ⟨_, -, same⟩ := Option.map_eq_some_iff.mp isGetter
        obtain ⟨_, -, rfl⟩ := Option.map_eq_some_iff.mp isKey
        exact Task.getter_ne_setter _ _ _ same
      · intro setter afterSetter adds
        refine request.bind fun handle requested same => ?_
        refine (Build.Ensures.record ?_).imp fun _ after recorded => ?_
        · have kept := adds (.property property.key)
          rw [if_neg (by simp)] at kept
          rw [same, kept]
          exact taken _ List.mem_cons_self
        · rw [same] at recorded
          have fits : (Resolved.property handle).Fits (.property property.key) := trivial
          refine (adds.cons fits recorded).perm fun key => ?_
          simp only [Task.outputs, List.mem_cons, List.mem_append, List.map_append, List.append_nil]
          tauto
  | defineMethod host key source =>
      have yields : Yields (Diagnostic.Excused missing crowded)
          (source.code { image := state.target, resolution := state.resolution, host, tailCalls })
          fun _ => True :=
        accepted.defineMethod_yields built closed supplies member inputs room
      refine (Task.generate_ensures excused yields).bind ?_
      rintro body _ rfl
      have found : Yields (Diagnostic.Excused missing crowded) (state.resolution.method key)
          fun _ => True :=
        Resolution.method_yields (supplies _ (inputs (.method key) List.mem_cons_self))
      refine (Build.Ensures.resolve (found.permit excused)).bind ?_
      rintro handle _ rfl
      refine request.imp fun _ after same => ?_
      rw [same]
      exact Resolution.adds_nil _
  | defineCtor host key source =>
      have yields : Yields (Diagnostic.Excused missing crowded)
          (source.code { image := state.target, resolution := state.resolution, host, tailCalls })
          fun _ => True :=
        accepted.defineCtor_yields built closed supplies member inputs room
      refine (Task.generate_ensures excused yields).bind ?_
      rintro body _ rfl
      have found : Yields (Diagnostic.Excused missing crowded) (state.resolution.ctor key)
          fun _ => True :=
        Resolution.ctor_yields (supplies _ (inputs (.ctor key) List.mem_cons_self))
      refine (Build.Ensures.resolve (found.permit excused)).bind ?_
      rintro handle _ rfl
      refine request.imp fun _ after same => ?_
      rw [same]
      exact Resolution.adds_nil _
  | complete name supertypes =>
      refine (Task.resolve_type excused (typeKey _ List.mem_cons_self)).bind ?_
      rintro handle _ rfl
      exact request.bind fun realized after same => record rfl trivial same

end ClassForge
