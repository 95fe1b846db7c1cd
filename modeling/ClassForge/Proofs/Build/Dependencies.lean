import ClassForge.Proofs.Build.Builds
import Mathlib.Logic.Relation

/-!
# Dependencies of tasks

A task depends on the tasks that make what it reads.  Whatever its action looks up
is made by a task that it depends on, directly or through others, so a build never
misses an item; the only items that no task makes are types that no class of the
module declares.
-/

namespace ClassForge

open Schedule

/-- A task depends on the tasks that make what it reads. -/
def Program.DependsOn (program : Program) (task other : Task) : Prop :=
  other ∈ program.tasks ∧ ∃ key ∈ task.inputs, key ∈ other.outputs

/-- A task is reached from another one through what is read and who makes it. -/
def Program.Reaches (program : Program) : Task → Task → Prop :=
  Relation.TransGen program.DependsOn

/-- A task looks up a key when, in some state, its action fails for want of it. -/
def Task.LooksUp (task : Task) (tailCalls : Bool) (key : Key) : Prop :=
  ∃ state after, state.resolution.Fitting ∧
    (task.action tailCalls).run state = .error (.unresolved key) after

/-- A key that a task or a task reached from it reads. -/
def Program.Reads (program : Program) (task : Task) (key : Key) : Prop :=
  key ∈ task.inputs ∨ ∃ other, program.Reaches task other ∧ key ∈ other.inputs

/-- The key of a type that no class declares, or of its completion. -/
def Module.Lacks (module : Module) : Key → Prop
  | .type name | .completed name => module.class? name = none
  | _ => False

theorem Program.reads_closed (program : Program) (task : Task) :
    program.Closed (program.Reads task) := by
  intro maker isTask key made read input isInput
  refine .inr ⟨maker, ?_, isInput⟩
  rcases read with isOwn | ⟨other, reaches, isOther⟩
  · exact .single ⟨isTask, key, isOwn, made⟩
  · exact reaches.tail ⟨isTask, key, isOther, made⟩

/-- What every reached task reads is made by a task that is reached too. -/
theorem Program.Reads.reached {program : Program} {task maker : Task} {key : Key}
    (read : program.Reads task key) (isTask : maker ∈ program.tasks)
    (made : key ∈ maker.outputs) : program.Reaches task maker := by
  rcases read with isOwn | ⟨other, reaches, isOther⟩
  · exact .single ⟨isTask, key, isOwn, made⟩
  · exact reaches.tail ⟨isTask, key, isOther, made⟩

theorem Program.Reads.exists_reader {program : Program} {task : Task} {key : Key}
    (read : program.Reads task key)
    (isTask : task ∈ program.tasks) : ∃ reader ∈ program.tasks, key ∈ reader.inputs := by
  rcases read with isOwn | ⟨other, reaches, isOther⟩
  · exact ⟨task, isTask, isOwn⟩
  · obtain ⟨_, -, isTask, -⟩ := Relation.TransGen.tail'_iff.mp reaches
    exact ⟨other, isTask, isOther⟩

section

variable {module : Module} {image : Image} {context : TypeContext} {program : Program}
variable {task : Task} {key : Key} {host : Name}
variable {types : List SourceTy} {roots : List Core}

/-- An action looks up nothing that is not read on the way. -/
theorem Module.Accepted.reads_of_looksUp (accepted : module.Accepted image context program)
    (built : image.Built) (isTask : task ∈ program.tasks) {tailCalls : Bool}
    (looksUp : task.LooksUp tailCalls key) : program.Reads task key := by
  obtain ⟨state, after, fitting, fails⟩ := looksUp
  have supplies : ∀ key, program.Reads task key →
      state.resolution.Supplies (program.Reads task) key :=
    fun key read => fitting.supplies fun _ => read
  have ensures := accepted.action_ensures built (program.reads_closed task) supplies isTask
    (fun input isInput => .inl isInput) (fun _ => trivial) tailCalls
  unfold Build.Ensures at ensures
  rw [fails] at ensures
  rcases ensures with excused | ⟨_, -, -, ⟨⟩⟩
  cases excused with
  | unresolved read => exact read

/-! ## Producers -/

theorem Module.class?_eq_none {name : Name} :
    module.class? name = none ↔ ∀ cls ∈ module.classes, cls.name ≠ name := by
  simp [Module.class?]

/-- Every task that makes a key does so in the phase that its kind belongs to. -/
def Key.phase : Key → Phase
  | .completed _ => .complete
  | _ => .declare

theorem Task.phase_of_mem_outputs (made : key ∈ task.outputs) : task.phase = key.phase := by
  cases task with
  | declareProperty property =>
      rcases List.mem_cons.mp made with rfl | isAccessor
      · rfl
      · obtain ⟨accessor, -, rfl⟩ := List.mem_map.mp isAccessor
        rfl
  | defineMethod | defineCtor => cases made
  | _ =>
      obtain rfl := List.mem_singleton.mp made
      rfl

theorem phase_of_mem_typeKeys (isKey : key ∈ typeKeys types) : key.phase = .declare := by
  obtain ⟨_, -, _, -, rfl⟩ := mem_typeKeys.mp isKey
  rfl

theorem phase_of_mem_references (isKey : key ∈ references host roots) : key.phase = .declare := by
  obtain ⟨_, -, node, -, isKey⟩ := mem_references.mp isKey
  simp only [Core.nodeKeys, List.mem_append] at isKey
  rcases isKey with (((isType | isMember) | isMentioned) | isCapture) | isLifted
  · exact phase_of_mem_typeKeys isType
  · cases node with
    | member type use operands =>
        have found : use.key? = some key := Option.mem_toList.mp isMember
        cases use with
        | _ target =>
            obtain ⟨_, -, rfl⟩ := Option.map_eq_some_iff.mp found
            rfl
    | _ => cases isMember
  · exact phase_of_mem_typeKeys isMentioned
  · exact phase_of_mem_typeKeys isCapture
  · unfold Core.liftedKeys at isLifted
    split at isLifted
    · rcases List.mem_pair.mp isLifted with rfl | rfl <;> rfl
    · obtain ⟨_, -, rfl⟩ := List.mem_map.mp isLifted
      rfl

/-- Only tasks of the second phase read what is made in it. -/
theorem Task.phase_le_of_mem_inputs (isInput : key ∈ task.inputs) :
    key.phase.number ≤ task.phase.number := by
  cases task with
  | complete name supertypes =>
      show key.phase.number ≤ 2
      cases key.phase <;> decide
  | declareType => exact Nat.le_of_eq (congrArg Phase.number (phase_of_mem_typeKeys isInput))
  | declareField | declareMethod | declareCtor | declareProperty =>
      refine Nat.le_of_eq (congrArg Phase.number ?_)
      rcases List.mem_cons.mp isInput with rfl | isType
      · rfl
      · exact phase_of_mem_typeKeys isType
  | defineMethod host method source =>
      refine Nat.le_of_eq (congrArg Phase.number ?_)
      rcases List.mem_cons.mp isInput with rfl | isInput
      · rfl
      · cases source with
        | routine =>
            rcases List.mem_cons.mp isInput with rfl | isReference
            · rfl
            · exact phase_of_mem_references isReference
        | closure =>
            simp only [MethodSource.inputs, List.mem_append] at isInput
            rcases isInput with (isField | isType) | isReference
            · obtain ⟨_, -, rfl⟩ := List.mem_map.mp isField
              rfl
            · exact phase_of_mem_typeKeys isType
            · exact phase_of_mem_references isReference
        | block => exact phase_of_mem_references isInput
  | defineCtor host ctor source =>
      refine Nat.le_of_eq (congrArg Phase.number ?_)
      rcases List.mem_cons.mp isInput with rfl | isInput
      · rfl
      · cases source with
        | routine =>
            simp only [CtorSource.inputs, List.cons_append, List.mem_cons, List.mem_append]
              at isInput
            rcases isInput with rfl | isReference | isBase
            · rfl
            · exact phase_of_mem_references isReference
            · obtain ⟨_, -, rfl⟩ := List.mem_map.mp isBase
              rfl
        | closure =>
            obtain ⟨_, -, rfl⟩ := List.mem_map.mp isInput
            rfl

/-- Some task makes a key, or the module lacks it. -/
def Module.Provides (module : Module) (program : Program) (key : Key) : Prop :=
  (∃ maker ∈ program.tasks, key ∈ maker.outputs) ∨ module.Lacks key

section

variable (accepted : module.Accepted image context program)
include accepted

theorem Module.Accepted.provides_type (name : Name) : module.Provides program (.type name) := by
  by_cases declared : ∃ cls ∈ module.classes, cls.name = name
  · obtain ⟨cls, isClass, rfl⟩ := declared
    obtain ⟨core, isCore, checked⟩ := exists_related_right accepted.classes isClass
    refine .inl ⟨_, CoreClass.mem_program_tasks isCore .type, ?_⟩
    simp [Task.outputs, checked.name]
  · refine .inr (Module.class?_eq_none.mpr fun cls isClass same => ?_)
    exact declared ⟨cls, isClass, same⟩

theorem Module.Accepted.provides_completed (name : Name) :
    module.Provides program (.completed name) := by
  by_cases declared : ∃ cls ∈ module.classes, cls.name = name
  · obtain ⟨cls, isClass, rfl⟩ := declared
    obtain ⟨core, isCore, checked⟩ := exists_related_right accepted.classes isClass
    refine .inl ⟨_, CoreClass.mem_program_tasks isCore .completion, ?_⟩
    simp [Task.outputs, checked.name]
  · refine .inr (Module.class?_eq_none.mpr fun cls isClass same => ?_)
    exact declared ⟨cls, isClass, same⟩

theorem Module.Accepted.provides_typeKeys (isKey : key ∈ typeKeys types) :
    module.Provides program key := by
  obtain ⟨_, -, name, -, rfl⟩ := mem_typeKeys.mp isKey
  exact accepted.provides_type name

/-- The member that a checked node uses is declared. -/
theorem Expr.Checks.declares (built : image.Built) {types : Scope SourceTy} {expr : Expr}
    {core : Core} (checked : expr.Checks context types core) (isKey : core.memberKey? = some key) :
    context.symbols.Declares key := by
  cases checked.elaborates with
  | operation _ _ _ acts =>
      cases acts with
      | apply => cases isKey
      | member found => exact (found.needs accepted built fun _ => True).1 key isKey
  | _ => cases isKey

/-- The keys that code in a class refers to are provided. -/
theorem Module.Accepted.provides_references (built : image.Built) {cls : ClassDef}
    {core : CoreClass} (checked : context.ChecksClass cls core) (isCore : core ∈ program)
    (inside : ∀ root ∈ roots, root.preorder ⊆ Core.preorderAll core.roots)
    (isKey : key ∈ references core.name roots) : module.Provides program key := by
  obtain ⟨root, isRoot, node, inRoot, isKey⟩ := mem_references.mp isKey
  have isNode : node ∈ Core.preorderAll core.roots := inside root isRoot inRoot
  simp only [Core.nodeKeys, List.mem_append] at isKey
  rcases isKey with (((isType | isMember) | isMentioned) | isCapture) | isLifted
  · exact accepted.provides_typeKeys isType
  · obtain ⟨types, expr, nodeChecked⟩ := checked.exists_checks_node isNode
    obtain ⟨decl, declared⟩ := nodeChecked.declares accepted built (Option.mem_toList.mp isMember)
    exact .inl (accepted.produced declared)
  · exact accepted.provides_typeKeys isMentioned
  · exact accepted.provides_typeKeys isCapture
  · refine .inl ?_
    unfold Core.liftedKeys at isLifted
    cases isClosure : node.closure? core.name with
    | some closure =>
        rw [isClosure] at isLifted
        rcases List.mem_pair.mp isLifted with rfl | rfl
        · exact ⟨_, CoreClass.mem_program_tasks isCore (.closure isNode isClosure .ctor),
            List.mem_singleton_self _⟩
        · exact ⟨_, CoreClass.mem_program_tasks isCore (.closure isNode isClosure .invoke),
            List.mem_singleton_self _⟩
    | none =>
        rw [isClosure] at isLifted
        obtain ⟨block, isBlock, rfl⟩ := List.mem_map.mp isLifted
        exact ⟨_, CoreClass.mem_program_tasks isCore (.block isNode (Option.mem_toList.mp isBlock)),
          List.mem_singleton_self _⟩

end

theorem Core.preorder_subset_preorderAll {root : Core} (isRoot : root ∈ roots) :
    root.preorder ⊆ Core.preorderAll roots := by
  intro node inRoot
  rw [Core.preorderAll_eq_flatMap]
  exact List.mem_flatMap.mpr ⟨root, isRoot, inRoot⟩

theorem TypeContext.ChecksClass.preorder_subset {cls : ClassDef} {core : CoreClass}
    (checked : context.ChecksClass cls core) {node : Core}
    (isNode : node ∈ Core.preorderAll core.roots) :
    node.preorder ⊆ Core.preorderAll core.roots := by
  rw [Core.preorderAll_eq_flatMap] at isNode
  obtain ⟨root, isRoot, inRoot⟩ := List.mem_flatMap.mp isNode
  obtain ⟨code, -, expr, -, rootChecked⟩ := checked.exists_code isRoot
  have start : Checkpoint.Accepted context ⟨_, expr, root⟩ := rootChecked
  obtain ⟨inner, reaches, rfl⟩ := start.exists_reaches inRoot
  exact List.Subset.trans reaches.preorder_subset (Core.preorder_subset_preorderAll isRoot)

theorem CoreClass.mem_roots_of_method {cls : CoreClass} {method : CoreMethod}
    {routine : Routine} (isMethod : method ∈ cls.methods)
    (isRoutine : method.routine = some routine) : routine.body ∈ cls.roots :=
  List.mem_append_left _ (List.mem_append_left _
    (List.mem_map_of_mem (List.mem_filterMap.mpr ⟨method, isMethod, isRoutine⟩)))

theorem CoreClass.mem_roots_of_accessor {cls : CoreClass} {property : CoreProperty}
    {routine : Routine} (isProperty : property ∈ cls.properties)
    (isRoutine : property.getter = some routine ∨ property.setter = some routine) :
    routine.body ∈ cls.roots := by
  refine List.mem_append_right _ (List.mem_flatMap.mpr ⟨property, isProperty, ?_⟩)
  refine List.mem_map_of_mem (List.mem_append.mpr ?_)
  simpa using isRoutine

theorem preorder_subset_of_closure? {node : Core} {closure : Closure}
    (isClosure : node.closure? host = some closure) : closure.body.preorder ⊆ node.preorder := by
  have isPart : closure.body ∈ node.parts := by
    cases node <;> cases isClosure
    · exact List.mem_append_right _ (List.mem_singleton_self _)
    · exact List.mem_singleton_self _
  exact fun _ member => Core.mem_preorder_of_mem_parts isPart member

variable (accepted : module.Accepted image context program)
include accepted

/-- A definition of a method reads what other tasks declare. -/
theorem Module.Accepted.provides_defineMethod (built : image.Built) {method : MethodKey}
    {source : MethodSource} (isTask : .defineMethod host method source ∈ program.tasks)
    (isInput : key ∈ (Task.defineMethod host method source).inputs) :
    module.Provides program key := by
  obtain ⟨cls, -, core, isCore, checked, isPlanned⟩ := accepted.exists_class isTask
  have ofTask : ∀ {task : Task}, core.Plans task → key ∈ task.outputs →
      module.Provides program key :=
    fun isPlanned made => .inl ⟨_, CoreClass.mem_program_tasks isCore isPlanned, made⟩
  have ofRoutine : ∀ {routine : Routine}, routine.body ∈ core.roots →
      key ∈ Key.type method.owner :: references core.name [routine.body] →
      module.Provides program key := by
    intro routine isRoot member
    rcases List.mem_cons.mp member with rfl | isReference
    · exact accepted.provides_type _
    · refine accepted.provides_references built checked isCore (fun root member => ?_) isReference
      obtain rfl := List.mem_singleton.mp member
      exact Core.preorder_subset_preorderAll isRoot
  rcases List.mem_cons.mp isInput with rfl | isReference
  · cases isPlanned with
    | methodCode isMethod => exact ofTask (.method isMethod) (List.mem_singleton_self _)
    | getterCode isProperty isKey | setterCode isProperty isKey =>
        exact ofTask (.property isProperty) (by simp [Task.outputs, isKey])
    | closure isNode isClosure isTask =>
        cases isTask
        exact ofTask (.closure isNode isClosure .invoke) (List.mem_singleton_self _)
    | blockCode isNode isBlock => exact ofTask (.block isNode isBlock) (List.mem_singleton_self _)
  · cases isPlanned with
    | methodCode isMethod isRoutine =>
        exact ofRoutine (CoreClass.mem_roots_of_method isMethod isRoutine) isReference
    | getterCode isProperty _ isRoutine =>
        exact ofRoutine (CoreClass.mem_roots_of_accessor isProperty (.inl isRoutine)) isReference
    | setterCode isProperty _ isRoutine =>
        exact ofRoutine (CoreClass.mem_roots_of_accessor isProperty (.inr isRoutine)) isReference
    | closure isNode isClosure isTask =>
        cases isTask
        simp only [MethodSource.inputs, List.mem_append] at isReference
        rcases isReference with (isField | isType) | isReference
        · obtain ⟨field, isCapture, rfl⟩ := List.mem_map.mp isField
          exact ofTask (.closure isNode isClosure (.field isCapture)) (List.mem_singleton_self _)
        · exact accepted.provides_typeKeys isType
        · refine accepted.provides_references built checked isCore (fun root member => ?_)
            isReference
          obtain rfl := List.mem_singleton.mp member
          exact List.Subset.trans (preorder_subset_of_closure? isClosure)
            (checked.preorder_subset isNode)
    | blockCode isNode isBlock =>
        refine accepted.provides_references built checked isCore (fun root member => ?_)
          isReference
        obtain rfl := List.mem_singleton.mp member
        rw [(core_of_block? isBlock).1]
        exact checked.preorder_subset isNode

/-- A definition of a constructor reads what other tasks declare. -/
theorem Module.Accepted.provides_defineCtor (built : image.Built) {ctor : CtorKey}
    {source : CtorSource} (isTask : .defineCtor host ctor source ∈ program.tasks)
    (isInput : key ∈ (Task.defineCtor host ctor source).inputs) : module.Provides program key := by
  obtain ⟨cls, -, core, isCore, checked, isPlanned⟩ := accepted.exists_class isTask
  have ofTask : ∀ {task : Task}, core.Plans task → key ∈ task.outputs →
      module.Provides program key :=
    fun isPlanned made => .inl ⟨_, CoreClass.mem_program_tasks isCore isPlanned, made⟩
  cases isPlanned with
  | ctorCode isCtor =>
      obtain ⟨definition, -, holds⟩ := exists_related_left checked.ctors isCtor
      simp only [Task.inputs, CtorSource.inputs, List.cons_append, List.mem_cons,
        List.mem_append] at isInput
      rcases isInput with rfl | rfl | isReference | isBase
      · exact ofTask (.ctor isCtor) (List.mem_singleton_self _)
      · exact accepted.provides_type _
      · exact accepted.provides_references built checked isCore (fun root member =>
          Core.preorder_subset_preorderAll (CoreClass.mem_roots_of_ctor isCtor member)) isReference
      · obtain ⟨base, isKey, rfl⟩ := List.mem_map.mp isBase
        obtain ⟨callee, isCallee, isKey⟩ :=
          Option.bind_eq_some_iff.mp (Option.mem_toList.mp isKey)
        obtain ⟨decl, entry⟩ := holds.base_declared accepted built isCallee isKey
        exact .inl (accepted.produced entry)
  | closure isNode isClosure isTask =>
      cases isTask
      rcases List.mem_cons.mp isInput with rfl | isField
      · exact ofTask (.closure isNode isClosure .ctor) (List.mem_singleton_self _)
      · obtain ⟨field, isCapture, rfl⟩ := List.mem_map.mp isField
        exact ofTask (.closure isNode isClosure (.field isCapture)) (List.mem_singleton_self _)

/-- Everything that a task of an accepted program reads is provided. -/
theorem Module.Accepted.provides (built : image.Built) (isTask : task ∈ program.tasks)
    (isInput : key ∈ task.inputs) :
    module.Provides program key := by
  have signature : ∀ {name : Name} {types : List SourceTy},
      key ∈ Key.type name :: typeKeys types → module.Provides program key := by
    intro name types member
    rcases List.mem_cons.mp member with rfl | isType
    · exact accepted.provides_type name
    · exact accepted.provides_typeKeys isType
  cases task with
  | declareType name attrs base interfaces => exact accepted.provides_typeKeys isInput
  | declareField | declareMethod | declareCtor | declareProperty => exact signature isInput
  | complete name supertypes =>
      rcases List.mem_cons.mp isInput with rfl | isCompleted
      · exact accepted.provides_type name
      · obtain ⟨above, -, rfl⟩ := List.mem_map.mp isCompleted
        exact accepted.provides_completed above
  | defineMethod host method source =>
      exact accepted.provides_defineMethod built isTask isInput
  | defineCtor host ctor source =>
      exact accepted.provides_defineCtor built isTask isInput

/-- What is unavailable to a step of an accepted program is lacking from the module. -/
theorem Module.Accepted.lacks_of_unavailable (built : image.Built) {tailCalls : Bool}
    {step : Step Image} (isStep : step ∈ program.steps tailCalls) (isInput : key ∈ step.inputs)
    (unavailable : isAvailable (program.steps tailCalls) .empty step.phase key = false) :
    module.Lacks key := by
  obtain ⟨task, isTask, rfl⟩ := Program.mem_steps.mp isStep
  rw [Task.mem_step_inputs] at isInput
  refine (accepted.provides built isTask isInput).resolve_left ?_
  rintro ⟨maker, isMaker, made⟩
  -- Whichever producer is found first, it runs in the phase of the key.
  cases found : producer? (program.steps tailCalls) key with
  | none =>
      have unmade := producer?_eq_none.mp found _ (Program.mem_steps.mpr ⟨maker, isMaker, rfl⟩)
      exact unmade (Task.mem_step_outputs.mpr made)
  | some producer =>
      have isProducer := List.mem_of_find?_eq_some found
      have makes : key ∈ producer.outputs := by simpa using List.find?_some found
      obtain ⟨first, isFirst, rfl⟩ := Program.mem_steps.mp isProducer
      rw [Task.mem_step_outputs] at makes
      have inTime : key.phase.number ≤ task.phase.number := Task.phase_le_of_mem_inputs isInput
      have late : ¬ first.phase.number ≤ task.phase.number := by
        intro early
        simp [isAvailable, found, Task.step, Step.make, early] at unavailable
      rw [Task.phase_of_mem_outputs makes] at late
      exact late inTime

end

/-- Dependencies are complete.  In an accepted module, what the action of a task looks up
is an input of the task or made by a task that is reached from it; a type that no class
declares may come up as well, but then no action ever runs.  So compiling the module never
fails for want of an item that was not built yet, and the only inputs that nothing makes
are types that no class declares, or their completions. -/
theorem Module.dependencies_complete {module : Module} {image : Image} {program : Program}
    (built : image.Built) (checked : module.check image = .ok program)
    (options : CompileOptions) :
    (∀ task ∈ program.tasks, ∀ key, task.LooksUp options.tailCalls key →
      key ∈ task.inputs ∨
        (∃ other, program.Reaches task other ∧ key ∈ other.outputs) ∨
        (module.Lacks key ∧ ∃ diagnostic,
          Schedule.validate (program.steps options.tailCalls) .empty = .error diagnostic ∧
          module.compile options image = (.error diagnostic, image))) ∧
    (∀ key, (module.compile options image).1 ≠ .error (.unresolved key)) ∧
    (∀ label key, (module.compile options image).1 ≠ .error (.missingOutput label key)) ∧
    ∀ key label, (module.compile options image).1 = .error (.unproducible key label) →
      module.Lacks key := by
  obtain ⟨context, accepted⟩ := Module.accepted_of_check checked
  rw [Module.compile_of_check checked]
  refine ⟨fun task isTask key looksUp => ?_, fun key failed => ?_, fun label key failed => ?_,
    fun key label failed => ?_⟩
  · have read := accepted.reads_of_looksUp built isTask looksUp
    obtain ⟨reader, isReader, isInput⟩ := read.exists_reader isTask
    cases validated : validate (program.steps options.tailCalls) .empty with
    | ok =>
        obtain ⟨producer, isProducer, made, -⟩ := (valid_of_validate validated).produced _
          (Program.mem_steps.mpr ⟨reader, isReader, rfl⟩) key (Task.mem_step_inputs.mpr isInput)
        obtain ⟨maker, isMaker, rfl⟩ := Program.mem_steps.mp isProducer
        rw [Task.mem_step_outputs] at made
        exact .inr (.inl ⟨maker, read.reached isMaker made, made⟩)
    | error diagnostic =>
        rcases accepted.provides built isReader isInput with ⟨maker, isMaker, made⟩ | lacks
        · exact .inr (.inl ⟨maker, read.reached isMaker made, made⟩)
        · refine .inr (.inr ⟨lacks, diagnostic, rfl, ?_⟩)
          exact Program.build_of_invalid validated
  · rcases accepted.build_faults built failed with excused | ⟨_, _, _, ⟨⟩⟩ |
      ⟨_, -, _, -, ⟨⟩, -⟩ | ⟨_, _, ⟨⟩⟩
    cases excused with
    | unresolved missing => exact missing
  · rcases accepted.build_faults built failed with excused | ⟨_, _, _, ⟨⟩⟩ |
      ⟨_, -, _, -, ⟨⟩, -⟩ | ⟨_, _, ⟨⟩⟩
    cases excused
  · rcases accepted.build_faults built failed with excused | ⟨_, _, _, ⟨⟩⟩ |
      ⟨step, isStep, _, isInput, same, unavailable⟩ | ⟨_, _, ⟨⟩⟩
    · cases excused
    · obtain ⟨rfl, rfl⟩ := Diagnostic.unproducible.inj same
      exact accepted.lacks_of_unavailable built isStep isInput unavailable

theorem Module.counter_dependencies_complete :
    Image.library.Built ∧ (Module.counter.check .library).isOk = true ∧
      ∀ key, (Module.counter.compile {} .library).1 ≠ .error (.unresolved key) := by
  obtain ⟨program, checked⟩ := exists_ok_of_isOk Module.counter_isOk
  exact ⟨.library, Module.counter_isOk,
    (Module.dependencies_complete .library checked {}).2.1⟩

/-- A method writes a field that a class inherits from cells of a type that no class declares.
It mentions the class alone. -/
def Module.shelf : Module where
  classes := [
    { name := "Shelf"
      attrs := .publicClass
      base := none
      interfaces := []
      fields := []
      methods := [
        { name := "put"
          attrs := .publicStatic
          params := [⟨"crate", .declared "Crate"⟩, ⟨"toy", .declared "Toy"⟩]
          ret := .void
          body := some (.binary (.setField "Value") (.var "crate") (.var "toy")) }]
      ctors := []
      properties := [] },
    { name := "Crate"
      attrs := .publicClass
      base := some (.cell (.declared "Item"))
      interfaces := []
      fields := []
      methods := []
      ctors := []
      properties := [] },
    { name := "Toy"
      attrs := .publicClass
      base := none
      interfaces := [.declared "Item"]
      fields := []
      methods := []
      ctors := []
      properties := [] }]

/-- An action may look up the type of a class that the module does not declare although its
task neither reads that type nor reaches a task that makes it. -/
theorem Module.shelf_lookup_incomplete :
    ∃ program, Module.shelf.check .library = .ok program ∧ ∃ task ∈ program.tasks,
      task.LooksUp true (.type "Item") ∧ .type "Item" ∉ task.inputs ∧
      ∀ other, program.Reaches task other → .type "Item" ∉ other.outputs := by
  have evaluates : (Module.shelf.check .library).toOption.any (fun program =>
      (program.tasks.any fun task =>
        (match (task.action true).run ⟨.library, .empty⟩ with
          | .error (.unresolved key) _ => key == .type "Item"
          | _ => false) && !task.inputs.contains (.type "Item")) &&
      program.tasks.all fun other => !other.outputs.contains (.type "Item")) = true := by
    decide +kernel
  obtain ⟨program, checked, holds⟩ := exists_ok_of_any evaluates
  simp only [Bool.and_eq_true, List.any_eq_true, List.all_eq_true, Bool.not_eq_true',
    List.contains_eq_mem, decide_eq_false_iff_not] at holds
  obtain ⟨⟨task, isTask, looksUp, unread⟩, unmade⟩ := holds
  refine ⟨program, checked, task, isTask, ?_, unread, fun other reaches => ?_⟩
  · split at looksUp
    · rename_i key after failed
      rw [eq_of_beq looksUp] at failed
      exact ⟨_, after, fun key resolved found => (by simp at found), failed⟩
    · cases looksUp
  · obtain ⟨_, -, isOther, -⟩ := Relation.TransGen.tail'_iff.mp reaches
    exact unmade other isOther

end ClassForge
