import ClassForge.Proofs.Build.Builds
import ClassForge.Proofs.Schedule.DependencyCycles

/-!
# Inheritance cycles

Everything that has to exist before a member is declared is a type, and nothing waits
for a definition.  A cycle of dependencies therefore runs through declarations of types,
and a type is declared after the types that its base and its interfaces mention.  So the
cycles that stop a build are the cycles of inheritance among the classes of a module.
-/

namespace ClassForge

open Relation Schedule

variable {name : Name}
variable {task : Task} {key : Key} {base : Option SourceTy} {interfaces : List SourceTy}
    {previous : Step Image} {above : Name} {options : CompileOptions}

/-- The base or an interface of a class of the module mentions another class of the module,
possibly as the element of an array or as an argument of a generic type. -/
def Module.Inherits (module : Module) (name other : Name) : Prop :=
  ∃ cls ∈ module.classes, cls.name = name ∧
    (∃ above ∈ module.classes, above.name = other) ∧
      ∃ type ∈ cls.base.toList ++ cls.interfaces, other ∈ type.mentions

/-- Some class of the module inherits from itself, directly or through others. -/
def Module.InheritsCyclically (module : Module) : Prop :=
  ∃ name, TransGen module.Inherits name name

variable {module : Module} {image : Image} {context : TypeContext} {program : Program}
variable {tailCalls : Bool} {step other : Step Image}

/-! ## What declarations wait for -/

/-- Of the first phase, only what adds nothing waits for anything but types. -/
theorem Task.exists_type_of_mem_inputs (early : task.phase = .declare) (adds : task.outputs ≠ [])
    (isInput : key ∈ task.inputs) : ∃ name, key = .type name := by
  have ofTypes : ∀ {types : List SourceTy}, key ∈ typeKeys types → ∃ name, key = .type name := by
    intro types member
    obtain ⟨_, -, name, -, rfl⟩ := mem_typeKeys.mp member
    exact ⟨name, rfl⟩
  cases task with
  | declareType => exact ofTypes isInput
  | declareField | declareMethod | declareCtor | declareProperty =>
      rcases List.mem_cons.mp isInput with rfl | member
      · exact ⟨_, rfl⟩
      · exact ofTypes member
  | defineMethod | defineCtor => exact (adds rfl).elim
  | complete => cases early

/-- Types are added by their declarations only. -/
theorem Task.eq_declareType (made : .type name ∈ task.outputs) :
    ∃ attrs base interfaces, task = .declareType name attrs base interfaces := by
  cases task with
  | declareType _ attrs base interfaces =>
      cases List.mem_singleton.mp made
      exact ⟨attrs, base, interfaces, rfl⟩
  | _ => simp [outputs] at made

/-- A type that is declared after others comes from a class: what a function or a loop
becomes builds on nothing. -/
theorem Program.exists_class_of_declareType {attrs : TypeAttrs}
    (isTask : .declareType name attrs base interfaces ∈ program.tasks)
    (isInput : key ∈ (Task.declareType name attrs base interfaces).inputs) :
    ∃ core ∈ program, core.name = name ∧ core.base = base ∧ core.interfaces = interfaces := by
  obtain ⟨core, isCore, isPlanned⟩ := Program.exists_plans isTask
  cases isPlanned with
  | type => exact ⟨core, isCore, rfl, rfl, rfl⟩
  | closure _ _ isTask =>
      cases isTask
      cases isInput

/-- Every type that is declared is completed too. -/
theorem Program.exists_complete {attrs : TypeAttrs}
    (isTask : .declareType name attrs base interfaces ∈ program.tasks) :
    ∃ supertypes, .complete name supertypes ∈ program.tasks := by
  obtain ⟨core, isCore, isPlanned⟩ := Program.exists_plans isTask
  cases isPlanned with
  | type => exact ⟨_, CoreClass.mem_program_tasks isCore .completion⟩
  | closure isNode isClosure isTask =>
      cases isTask
      exact ⟨_, CoreClass.mem_program_tasks isCore (.closure isNode isClosure .completion)⟩

/-- Every type that is completed was declared. -/
theorem Program.exists_declareType {supertypes : List Name}
    (isTask : .complete name supertypes ∈ program.tasks) :
    ∃ attrs base interfaces, .declareType name attrs base interfaces ∈ program.tasks := by
  obtain ⟨core, isCore, isPlanned⟩ := Program.exists_plans isTask
  cases isPlanned with
  | completion => exact ⟨_, _, _, CoreClass.mem_program_tasks isCore .type⟩
  | closure isNode isClosure isTask =>
      cases isTask
      exact ⟨_, _, _, CoreClass.mem_program_tasks isCore (.closure isNode isClosure .type)⟩

/-! ## From dependencies to inheritance -/

/-- A step declares the type of a name. -/
def Declares (program : Program) (tailCalls : Bool) (name : Name) (step : Step Image) : Prop :=
  ∃ attrs base interfaces, .declareType name attrs base interfaces ∈ program.tasks ∧
    step = (Task.declareType name attrs base interfaces).step tailCalls

theorem Declares.mem_outputs (declares : Declares program tailCalls name step) :
    .type name ∈ step.outputs := by
  obtain ⟨_, _, _, -, rfl⟩ := declares
  simp [Task.outputs]

theorem Declares.mem_steps (declares : Declares program tailCalls name step) :
    step ∈ program.steps tailCalls := by
  obtain ⟨_, _, _, isTask, rfl⟩ := declares
  exact Program.mem_steps.mpr ⟨_, isTask, rfl⟩

/-- A step declares one type. -/
theorem Declares.name_eq {first second : Name} (declares : Declares program tailCalls first step)
    (alsoDeclares : Declares program tailCalls second step) : first = second := by
  obtain ⟨_, _, _, -, rfl⟩ := declares
  simpa [Task.outputs, eq_comm] using alsoDeclares.mem_outputs

/-- A step that others wait for, waits for types. -/
theorem exists_declares_of_dependsIn
    (awaited : DependsIn (program.steps tailCalls) .declare previous step)
    (depends : DependsIn (program.steps tailCalls) .declare step other) :
    ∃ name, Declares program tailCalls name other ∧ .type name ∈ step.inputs := by
  obtain ⟨task, isTask, rfl⟩ := Program.mem_steps.mp depends.member
  obtain ⟨producer, isProducer, rfl⟩ := Program.mem_steps.mp depends.otherMember
  obtain ⟨key, isInput, made⟩ := depends.reads
  have adds : task.outputs ≠ [] := by
    obtain ⟨output, -, isOutput⟩ := awaited.reads
    exact List.ne_nil_of_mem (Task.mem_step_outputs.mp isOutput)
  obtain ⟨name, rfl⟩ :=
    Task.exists_type_of_mem_inputs depends.ofPhase adds (Task.mem_step_inputs.mp isInput)
  obtain ⟨attrs, base, interfaces, rfl⟩ := Task.eq_declareType (Task.mem_step_outputs.mp made)
  exact ⟨name, ⟨attrs, base, interfaces, isProducer, rfl⟩, isInput⟩

section

variable (accepted : module.Accepted image context program)
include accepted

/-- The class that is declared after some other class inherits from it. -/
theorem Module.Accepted.inherits_of_declares (declares : Declares program tailCalls name step)
    (isClass : ∃ cls ∈ module.classes, cls.name = above) (isInput : .type above ∈ step.inputs) :
    module.Inherits name above := by
  obtain ⟨attrs, base, interfaces, isTask, rfl⟩ := declares
  rw [Task.mem_step_inputs] at isInput
  obtain ⟨core, isCore, rfl, rfl, rfl⟩ := Program.exists_class_of_declareType isTask isInput
  obtain ⟨cls, isMember, checked⟩ := exists_related_left accepted.classes isCore
  obtain ⟨type, isType, mentioned, isMentioned, ⟨⟩⟩ := mem_typeKeys.mp isInput
  refine ⟨cls, isMember, checked.name.symm, isClass, type, ?_, isMentioned⟩
  rwa [← checked.base, ← checked.interfaces]

/-- A declaration that waits for something declares a class of the module. -/
theorem Module.Accepted.exists_class_of_declares
    (declares : Declares program tailCalls name step) (isInput : key ∈ step.inputs) :
    ∃ cls ∈ module.classes, cls.name = name := by
  obtain ⟨attrs, base, interfaces, isTask, rfl⟩ := declares
  rw [Task.mem_step_inputs] at isInput
  obtain ⟨core, isCore, rfl, -, -⟩ := Program.exists_class_of_declareType isTask isInput
  obtain ⟨cls, isMember, checked⟩ := exists_related_left accepted.classes isCore
  exact ⟨cls, isMember, checked.name.symm⟩

/-- A path of dependencies from a declaration to one that waits for something is a path of
inheritance. -/
theorem Module.Accepted.transGen_inherits
    {next : Step Image} (declares : Declares program tailCalls name step)
    (awaited : DependsIn (program.steps tailCalls) .declare previous step)
    (path : TransGen (DependsIn (program.steps tailCalls) .declare) step other)
    (waits : DependsIn (program.steps tailCalls) .declare other next) :
    ∃ above, Declares program tailCalls above other ∧ TransGen module.Inherits name above := by
  induction path generalizing next with
  | single depends =>
      obtain ⟨above, declaresAbove, isInput⟩ := exists_declares_of_dependsIn awaited depends
      obtain ⟨key, read, -⟩ := waits.reads
      have isClass := accepted.exists_class_of_declares declaresAbove read
      exact ⟨above, declaresAbove, .single (accepted.inherits_of_declares declares isClass isInput)⟩
  | tail path depends ih =>
      obtain ⟨middle, declaresMiddle, inherits⟩ := ih depends
      obtain ⟨_, -, before⟩ := TransGen.tail'_iff.mp path
      obtain ⟨above, declaresAbove, isInput⟩ := exists_declares_of_dependsIn before depends
      obtain ⟨key, read, -⟩ := waits.reads
      have isClass := accepted.exists_class_of_declares declaresAbove read
      exact ⟨above, declaresAbove,
        inherits.tail (accepted.inherits_of_declares declaresMiddle isClass isInput)⟩

/-- A cycle of dependencies is a cycle of inheritance. -/
theorem Module.Accepted.inheritsCyclically_of_hasCycle
    (cyclic : HasCycle (program.steps tailCalls) .declare) : module.InheritsCyclically := by
  obtain ⟨step, cycle⟩ := cyclic
  obtain ⟨next, first, -⟩ := TransGen.head'_iff.mp cycle
  obtain ⟨last, path, back⟩ := TransGen.tail'_iff.mp cycle
  -- The step before the last one is awaited too, so the first declares a type.
  obtain ⟨previous, before⟩ : ∃ previous,
      DependsIn (program.steps tailCalls) .declare previous last := by
    rcases path.cases_tail with rfl | ⟨previous, -, before⟩
    · exact ⟨last, back⟩
    · exact ⟨previous, before⟩
  obtain ⟨name, declares, -⟩ := exists_declares_of_dependsIn before back
  obtain ⟨again, declaresAgain, inherits⟩ :=
    accepted.transGen_inherits declares back cycle first
  exact ⟨name, declares.name_eq declaresAgain ▸ inherits⟩

/-! ## From inheritance to dependencies -/

theorem Module.Accepted.declareType_mem_tasks {cls : ClassDef}
    (isClass : cls ∈ module.classes) :
    .declareType cls.name cls.attrs cls.base cls.interfaces ∈ program.tasks := by
  obtain ⟨core, isCore, checked⟩ := exists_related_right accepted.classes isClass
  rw [← checked.name, ← checked.attrs, ← checked.base, ← checked.interfaces]
  exact CoreClass.mem_program_tasks isCore .type

/-- A class is declared after a class that it inherits from. -/
theorem Module.Accepted.dependsIn_of_inherits
    (valid : Valid (program.steps tailCalls)) (inherits : module.Inherits name above)
    (declares : Declares program tailCalls name step)
    (declaresAbove : Declares program tailCalls above other) :
    DependsIn (program.steps tailCalls) .declare step other := by
  obtain ⟨cls, isClass, rfl, -, type, isType, mentioned⟩ := inherits
  have isTask := accepted.declareType_mem_tasks isClass
  -- Only one step declares the class.
  have same : step = (Task.declareType cls.name cls.attrs cls.base cls.interfaces).step tailCalls :=
    valid.eq_of_mem_outputs declares.mem_outputs (by simp [Task.outputs]) declares.mem_steps
      (Program.mem_steps.mpr ⟨_, isTask, rfl⟩)
  have isInput : .type above ∈ step.inputs := by
    rw [same, Task.mem_step_inputs]
    exact mem_typeKeys.mpr ⟨type, isType, above, mentioned, rfl⟩
  have declared : other.phase = .declare := by
    obtain ⟨_, _, _, -, rfl⟩ := declaresAbove
    rfl
  exact ⟨declares.mem_steps, same ▸ rfl, declaresAbove.mem_steps, declared, .type above, isInput,
    declaresAbove.mem_outputs⟩

end

theorem Module.Inherits.exists_step (tailCalls : Bool)
    (accepted : module.Accepted image context program) (inherits : module.Inherits name above) :
    ∃ step, Declares program tailCalls above step := by
  obtain ⟨_, -, -, ⟨cls, isClass, rfl⟩, -⟩ := inherits
  exact ⟨_, _, _, _, accepted.declareType_mem_tasks isClass, rfl⟩

/-- A cycle of inheritance is a cycle of dependencies. -/
theorem Module.Accepted.hasCycle_of_inheritsCyclically
    (accepted : module.Accepted image context program) (valid : Valid (program.steps tailCalls))
    (cyclic : module.InheritsCyclically) : HasCycle (program.steps tailCalls) .declare := by
  obtain ⟨name, cycle⟩ := cyclic
  have declares : ∃ step, Declares program tailCalls name step := by
    obtain ⟨_, -, back⟩ := TransGen.tail'_iff.mp cycle
    exact back.exists_step tailCalls accepted
  obtain ⟨step, declares⟩ := declares
  have path : ∀ above other, TransGen module.Inherits name above →
      Declares program tailCalls above other →
      TransGen (DependsIn (program.steps tailCalls) .declare) step other := by
    intro above other path
    induction path generalizing other with
    | single inherits =>
        exact fun declaresAbove =>
          .single (accepted.dependsIn_of_inherits valid inherits declares declaresAbove)
    | tail path inherits ih =>
        intro declaresAbove
        obtain ⟨_, -, before⟩ := TransGen.tail'_iff.mp path
        obtain ⟨middle, declaresMiddle⟩ := before.exists_step tailCalls accepted
        exact (ih middle declaresMiddle).tail
          (accepted.dependsIn_of_inherits valid inherits declaresMiddle declaresAbove)
  exact ⟨step, path name step cycle declares⟩

/-! ## Compilations that meet a cycle -/

/-- A cycle that a build of an accepted program reports lies in its first phase. -/
theorem Module.Accepted.cycle_of_build (accepted : module.Accepted image context program)
    (built : image.Built) (validated : validate (program.steps options.tailCalls) .empty = .ok ())
    {target : Image} {number : Nat} {labels : List String}
    (failed : (program.build options target).1 = .error (.cycle number labels)) :
    number = Phase.declare.number ∧ HasCycle (program.steps options.tailCalls) .declare := by
  rcases accepted.build_error built (Prod.ext failed rfl) with ⟨-, invalid | stuck⟩ | excused
  · cases validated.symm.trans invalid
  · by_cases cyclic : HasCycle (program.steps options.tailCalls) .declare
    · obtain ⟨_, ⟨⟩⟩ := order_error stuck
      exact ⟨rfl, cyclic⟩
    · cases (order_of_acyclic (disjoint_of_validate validated) cyclic).symm.trans stuck
  · cases excused

theorem Program.build_of_cycle
    (validated : validate (program.steps options.tailCalls) .empty = .ok ())
    (cyclic : HasCycle (program.steps options.tailCalls) .declare) (target : Image) :
    ∃ labels, (program.build options target).1 =
      .error (.cycle Phase.declare.number labels) := by
  have reached : Reached (program.steps options.tailCalls) (.initial target) .declare := by
    intro earlier before
    cases earlier <;> simp [Phase.number] at before
  obtain ⟨final, stopped, -⟩ := refuses_of_cycle validated cyclic reached
  exact ⟨_, by rw [Program.build_eq, stopped]⟩

/-- The cycles of a compilation are the cycles of inheritance.  A module that passes the
check and whose steps are valid is refused with a cycle just when some class of it inherits
from itself, and the cycle is always one of the first phase: nothing that fields,
signatures, code, closures and blocks refer to makes one. -/
theorem Module.cycle_iff_inheritsCyclically {module : Module} {image : Image} {program : Program}
    {options : CompileOptions} (built : image.Built) (checked : module.check image = .ok program)
    (validated : validate (program.steps options.tailCalls) .empty = .ok ()) :
    ((∃ number labels, (module.compile options image).1 = .error (.cycle number labels)) ↔
      module.InheritsCyclically) ∧
    ∀ number labels, (module.compile options image).1 = .error (.cycle number labels) →
      number = 1 := by
  obtain ⟨context, accepted⟩ := Module.accepted_of_check checked
  rw [Module.compile_of_check checked]
  refine ⟨⟨?_, fun cyclic => ?_⟩, fun number labels failed => ?_⟩
  · rintro ⟨number, labels, failed⟩
    exact accepted.inheritsCyclically_of_hasCycle
      (accepted.cycle_of_build built validated failed).2
  · obtain ⟨labels, stopped⟩ := Program.build_of_cycle validated
      (accepted.hasCycle_of_inheritsCyclically (valid_of_validate validated) cyclic) image
    exact ⟨_, labels, stopped⟩
  · exact (accepted.cycle_of_build built validated failed).1

/-- A class that extends another one, which is a cell for arrays of the first. -/
def Module.knotted : Module where
  classes := [
    { name := "Leaf"
      attrs := .publicClass
      base := some (.declared "Tree")
      interfaces := []
      fields := []
      methods := []
      ctors := []
      properties := [] },
    { name := "Tree"
      attrs := .publicClass
      base := some (.cell (.array (.declared "Leaf")))
      interfaces := []
      fields := []
      methods := []
      ctors := []
      properties := [] }]

theorem Module.knotted_cycle_iff_inheritsCyclically :
    Image.library.Built ∧ ∃ program, Module.knotted.check .library = .ok program ∧
      validate (program.steps true) .empty = .ok () ∧ Module.knotted.InheritsCyclically ∧
      ∃ labels, (Module.knotted.compile {} .library).1 = .error (.cycle 1 labels) := by
  have accepted : (Module.knotted.check .library).isOk = true := by decide +kernel
  obtain ⟨program, checked⟩ := exists_ok_of_isOk accepted
  have sound : ((Module.knotted.check .library).toOption.all fun program =>
      (validate (program.steps true) .empty).isOk) = true := by
    decide +kernel
  rw [checked] at sound
  obtain ⟨⟨⟩, validated⟩ := exists_ok_of_isOk sound
  have leaf : Module.knotted.Inherits "Leaf" "Tree" :=
    ⟨_, .head _, rfl, ⟨_, .tail _ (.head _), rfl⟩, .declared "Tree", .head _, .head _⟩
  have tree : Module.knotted.Inherits "Tree" "Leaf" :=
    ⟨_, .tail _ (.head _), rfl, ⟨_, .head _, rfl⟩, _, .head _, .head _⟩
  have cyclic : Module.knotted.InheritsCyclically := ⟨"Leaf", .tail (.single leaf) tree⟩
  obtain ⟨refused, first⟩ :=
    @Module.cycle_iff_inheritsCyclically _ _ _ {} .library checked validated
  obtain ⟨number, labels, stopped⟩ := refused.mpr cyclic
  obtain rfl := first number labels stopped
  exact ⟨.library, program, checked, validated, cyclic, labels, stopped⟩

end ClassForge
