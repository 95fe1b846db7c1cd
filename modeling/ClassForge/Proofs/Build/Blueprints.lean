import ClassForge.Proofs.Build.PhasedBuilds
import ClassForge.Proofs.Typing.KnownTypes

/-!
# Types with one method

A function becomes a type with a field for each captured variable, one constructor and one method,
and so does a class whose only member is a method.  A blueprint says what such a type is built from.
The tasks of a program that is made of blueprints never collide: the names of the types tell their
keys apart.
-/

namespace ClassForge

open Schedule

/-- The member that a task gives code to. -/
def Task.defined? : Task → Option Key
  | defineMethod _ key _ => some (.method key)
  | defineCtor _ key _ => some (.ctor key)
  | _ => none

theorem Task.exists_defined {task : Task} (none : task.outputs = []) :
    ∃ key, task.defined? = some key := by
  cases task with
  | defineMethod _ key _ => exact ⟨.method key, rfl⟩
  | defineCtor _ key _ => exact ⟨.ctor key, rfl⟩
  | _ => cases none

/-- A member is the first that the task reads that gives it code. -/
theorem Task.head_inputs {task : Task} {key : Key} (defines : task.defined? = some key)
    (tailCalls : Bool) : (task.step tailCalls).inputs.head? = some key := by
  have heads : ∀ keys : List Key, (key :: keys).eraseDups.head? = some key := by
    intro keys
    rw [List.eraseDups_cons]
    rfl
  cases task with
  | defineMethod | defineCtor =>
      cases defines
      exact heads _
  | _ => cases defines

/-- What a type with one constructor and one method is built from. -/
structure Blueprint where
  name : Name
  attrs : TypeAttrs
  fields : List FieldKey
  ctor : CtorKey
  ctorSource : CtorSource
  method : MethodKey
  methodAttrs : MethodAttrs
  ret : SourceTy
  methodSource : MethodSource

namespace Blueprint

/-- Build a type from its blueprint. -/
def tasks (host : Name) (plan : Blueprint) : List Task :=
  .declareType plan.name plan.attrs none [] ::
    plan.fields.map (fun key => .declareField key .publicInstance) ++
    [.declareCtor plan.ctor,
      .defineCtor host plan.ctor plan.ctorSource,
      .declareMethod plan.method plan.methodAttrs plan.ret,
      .defineMethod host plan.method plan.methodSource,
      .complete plan.name []]

/-- The members of a blueprint are those of one type, with fields of different names. -/
structure WellFormed (plan : Blueprint) : Prop where
  fieldOwners : ∀ key ∈ plan.fields, key.owner = plan.name
  fieldsApart : (plan.fields.map FieldKey.name).Nodup
  ctorOwner : plan.ctor.owner = plan.name
  methodOwner : plan.method.owner = plan.name
  concrete : plan.methodAttrs.isAbstract = false

/-- A blueprint that mentions no types but known ones. -/
structure Known (image : Image) (names : List Name) (host : Name) (plan : Blueprint) : Prop where
  fields : ∀ key ∈ plan.fields, image.knows names key.type = true
  ctor : ∀ type ∈ plan.ctor.params, image.knows names type = true
  method : ∀ type ∈ plan.method.params ++ [plan.ret], image.knows names type = true
  methodInputs : ∀ name, .type name ∈ plan.methodSource.inputs host plan.method →
    name = plan.name ∨ name ∈ names
  ctorInputs : ∀ name, .type name ∈ plan.ctorSource.inputs host plan.ctor →
    name = plan.name ∨ name ∈ names

variable {plan : Blueprint} {host : Name} {task : Task} {key : Key}

/-- The tasks of a blueprint, kind by kind. -/
inductive Plans (plan : Blueprint) (host : Name) : Task → Prop where
  | type : Plans plan host (.declareType plan.name plan.attrs none [])
  | field {key : FieldKey} (isField : key ∈ plan.fields) :
      Plans plan host (.declareField key .publicInstance)
  | ctor : Plans plan host (.declareCtor plan.ctor)
  | ctorCode : Plans plan host (.defineCtor host plan.ctor plan.ctorSource)
  | method : Plans plan host (.declareMethod plan.method plan.methodAttrs plan.ret)
  | methodCode : Plans plan host (.defineMethod host plan.method plan.methodSource)
  | completed : Plans plan host (.complete plan.name [])

theorem mem_tasks : task ∈ plan.tasks host ↔ plan.Plans host task := by
  simp only [tasks, List.cons_append, List.mem_cons, List.mem_append, List.mem_map,
    List.not_mem_nil, or_false]
  grind [Plans]

theorem outputs_eq (plan : Blueprint) (host : Name) :
    (plan.tasks host).flatMap Task.outputs =
      Key.type plan.name :: plan.fields.map Key.field ++
        [Key.ctor plan.ctor, Key.method plan.method, Key.completed plan.name] := by
  have fields : (plan.fields.map fun key => Task.declareField key .publicInstance).flatMap
      Task.outputs = plan.fields.map .field := by
    rw [List.flatMap_map, List.map_eq_flatMap]
    rfl
  simp only [tasks, List.flatMap_cons, List.flatMap_append, fields]
  rfl

/-- Everything that a blueprint adds belongs to its type. -/
theorem WellFormed.owner_eq (formed : plan.WellFormed)
    (made : key ∈ (plan.tasks host).flatMap Task.outputs) : key.owner = plan.name := by
  rw [outputs_eq] at made
  simp only [List.cons_append, List.mem_cons, List.mem_append, List.mem_map, List.not_mem_nil,
    or_false] at made
  rcases made with rfl | ⟨field, isField, rfl⟩ | rfl | rfl | rfl
  · rfl
  · exact formed.fieldOwners field isField
  · exact formed.ctorOwner
  · exact formed.methodOwner
  · rfl

/-- A blueprint adds nothing twice. -/
theorem WellFormed.outputs_nodup (formed : plan.WellFormed) (host : Name) :
    ((plan.tasks host).flatMap Task.outputs).Nodup := by
  have fields : (plan.fields.map Key.field).Nodup :=
    (List.Nodup.of_map _ formed.fieldsApart).map fun _ _ => Key.field.inj
  rw [outputs_eq, List.cons_append, List.nodup_cons, List.nodup_append]
  refine ⟨by simp, fields, by simp, fun key isField other isOther => ?_⟩
  obtain ⟨_, -, rfl⟩ := List.mem_map.mp isField
  rintro rfl
  simp at isOther

end Blueprint

/-! ## Programs that are made of blueprints -/

/-- What is built for a program are types from blueprints. -/
structure Program.Planned (program : Program) (host : Name) (plans : List Blueprint) : Prop where
  tasks : program.tasks.Perm (plans.flatMap (Blueprint.tasks host))
  apart : (plans.map Blueprint.name).Nodup
  formed : ∀ plan ∈ plans, plan.WellFormed

namespace Program.Planned

variable {program : Program} {host : Name} {plans : List Blueprint} {plan other : Blueprint}
variable {task : Task} {tailCalls : Bool}
variable (planned : program.Planned host plans)
include planned

theorem mem_tasks : task ∈ program.tasks ↔ ∃ plan ∈ plans, task ∈ plan.tasks host := by
  rw [planned.tasks.mem_iff, List.mem_flatMap]

/-- The name of a type tells its blueprint. -/
theorem eq_of_name (isPlan : plan ∈ plans) (isOther : other ∈ plans)
    (same : plan.name = other.name) : plan = other :=
  List.inj_on_of_nodup_map planned.apart isPlan isOther same

/-- No two tasks add the same item. -/
theorem outputs_nodup : (program.tasks.flatMap Task.outputs).Nodup := by
  rw [(planned.tasks.flatMap_right _).nodup_iff, List.flatMap_assoc, List.nodup_flatMap]
  refine ⟨fun plan isPlan => (planned.formed plan isPlan).outputs_nodup host, ?_⟩
  have apart : plans.Pairwise fun plan other => plan.name ≠ other.name :=
    List.pairwise_map.mp planned.apart
  refine apart.imp_of_mem fun {plan other} isPlan isOther different key isMade isAlsoMade => ?_
  exact different ((planned.formed plan isPlan).owner_eq isMade ▸
    (planned.formed other isOther).owner_eq isAlsoMade)

theorem disjoint (tailCalls : Bool) : (program.steps tailCalls).Pairwise Disjoint := by
  rw [Program.steps, List.pairwise_map]
  refine (List.nodup_flatMap.mp planned.outputs_nodup).2.imp fun {first second} apart key isMade
    isAlsoMade => ?_
  exact apart (Task.mem_step_outputs.mp isMade) (Task.mem_step_outputs.mp isAlsoMade)

/-! ### Steps -/

/-- Each member is given code by one task. -/
theorem defined_nodup : (program.tasks.filterMap Task.defined?).Nodup := by
  have ofPlan : ∀ plan : Blueprint, (plan.tasks host).filterMap Task.defined? =
      [.ctor plan.ctor, .method plan.method] := by
    intro plan
    have fields : plan.fields.filterMap (Task.defined? ∘ fun key =>
        .declareField key .publicInstance) = [] := List.filterMap_eq_nil_iff.mpr fun _ _ => rfl
    simp only [Blueprint.tasks, List.cons_append, List.filterMap_cons, List.filterMap_append,
      List.filterMap_map, fields]
    rfl
  rw [(planned.tasks.filterMap _).nodup_iff, List.filterMap_flatMap, List.nodup_flatMap]
  simp only [ofPlan]
  refine ⟨fun plan _ => by simp, ?_⟩
  have apart : plans.Pairwise fun plan other => plan.name ≠ other.name :=
    List.pairwise_map.mp planned.apart
  refine apart.imp_of_mem fun {plan other} isPlan isOther different key isDefined alsoDefined => ?_
  have owner : ∀ {plan : Blueprint}, plan ∈ plans → key ∈ [.ctor plan.ctor, .method plan.method] →
      key.owner = plan.name := by
    intro plan isPlan isDefined
    have output : key ∈ (plan.tasks host).flatMap Task.outputs := by
      rw [Blueprint.outputs_eq]
      grind
    exact (planned.formed plan isPlan).owner_eq output
  exact different (owner isPlan isDefined ▸ owner isOther alsoDefined)

/-- No step is listed twice. -/
theorem steps_nodup : (program.steps tailCalls).Nodup := by
  have apart := (List.pairwise_filterMap.mp planned.defined_nodup).and
    (List.pairwise_map.mp (planned.disjoint tailCalls))
  rw [Program.steps, List.Nodup, List.pairwise_map]
  refine apart.imp fun {first second} unlike same => ?_
  obtain ⟨defines, disjoint⟩ := unlike
  cases isOutput : first.outputs with
  | cons key outputs =>
      -- Both steps would make the same item.
      have made : key ∈ (first.step tailCalls).outputs :=
        Task.mem_step_outputs.mpr (by simp [isOutput])
      exact disjoint key made (same ▸ made)
  | nil =>
      have none : second.outputs = [] := by
        rw [List.eq_nil_iff_forall_not_mem] at isOutput ⊢
        intro key isKey
        have made : key ∈ (second.step tailCalls).outputs := Task.mem_step_outputs.mpr isKey
        rw [← same] at made
        exact isOutput key (Task.mem_step_outputs.mp made)
      obtain ⟨key, isKey⟩ := Task.exists_defined isOutput
      obtain ⟨other, isOther⟩ := Task.exists_defined none
      have sameKey := (Task.head_inputs isKey tailCalls).symm.trans
        (same ▸ Task.head_inputs isOther tailCalls)
      exact defines key isKey other isOther (Option.some.inj sameKey)

/-! ### Validation -/

section Validation

variable {module : Module} {image : Image} {context : TypeContext} {names : List Name}
variable (accepted : module.Accepted image context program) (built : image.Built)
variable (known : ∀ plan ∈ plans, plan.Known image names host)
variable (named : ∀ name ∈ names, ∃ plan ∈ plans, plan.name = name)

include known named in
/-- Types that tasks read are built for the program. -/
theorem exists_plan_of_input (isTask : task ∈ program.tasks) {name : Name}
    (isInput : .type name ∈ task.inputs) : ∃ plan ∈ plans, plan.name = name := by
  obtain ⟨plan, isPlan, isTask⟩ := planned.mem_tasks.mp isTask
  have formed := planned.formed plan isPlan
  have isKnown := known plan isPlan
  have mentioned : ∀ {types : List SourceTy}, (∀ type ∈ types, image.knows names type = true) →
      Key.type name ∈ typeKeys types → ∃ plan ∈ plans, plan.name = name := by
    intro types areKnown isKey
    obtain ⟨type, isType, _, isName, ⟨⟩⟩ := mem_typeKeys.mp isKey
    exact named name (Image.mem_of_knows type (areKnown type isType) isName)
  have either : name = plan.name ∨ name ∈ names → ∃ plan ∈ plans, plan.name = name := by
    rintro (rfl | isName)
    · exact ⟨plan, isPlan, rfl⟩
    · exact named name isName
  rcases Blueprint.mem_tasks.mp isTask with _ | isField
  · cases isInput
  · rcases List.mem_cons.mp isInput with same | isKey
    · exact ⟨plan, isPlan, (formed.fieldOwners _ isField).symm.trans (Key.type.inj same).symm⟩
    · exact mentioned (List.forall_mem_singleton.mpr (isKnown.fields _ isField)) isKey
  · rcases List.mem_cons.mp isInput with same | isKey
    · exact ⟨plan, isPlan, formed.ctorOwner.symm.trans (Key.type.inj same).symm⟩
    · exact mentioned isKnown.ctor isKey
  · rcases List.mem_cons.mp isInput with ⟨⟨⟩⟩ | isKey
    exact either (isKnown.ctorInputs name isKey)
  · rcases List.mem_cons.mp isInput with same | isKey
    · exact ⟨plan, isPlan, formed.methodOwner.symm.trans (Key.type.inj same).symm⟩
    · exact mentioned isKnown.method isKey
  · rcases List.mem_cons.mp isInput with ⟨⟨⟩⟩ | isKey
    exact either (isKnown.methodInputs name isKey)
  · cases List.mem_singleton.mp isInput
    exact ⟨plan, isPlan, rfl⟩

include accepted built known named in
/-- The steps of a planned program are valid. -/
theorem validated : validate (program.steps tailCalls) .empty = .ok () := by
  refine validate_eq_ok.mpr
    ⟨Program.nodup_outputs, planned.disjoint tailCalls, fun step isStep key isInput => .inr ?_⟩
  obtain ⟨task, isTask, rfl⟩ := Program.mem_steps.mp isStep
  rw [Task.mem_step_inputs] at isInput
  obtain ⟨maker, isMaker, made⟩ : ∃ maker ∈ program.tasks, key ∈ maker.outputs := by
    rcases accepted.provides built isTask isInput with made | lacks
    · exact made
    cases key with
    | type name =>
        obtain ⟨plan, isPlan, rfl⟩ := planned.exists_plan_of_input known named isTask isInput
        exact ⟨_, planned.mem_tasks.mpr ⟨plan, isPlan, Blueprint.mem_tasks.mpr .type⟩,
          List.mem_singleton_self _⟩
    | completed name =>
        -- Only completions read completions, and those of blueprints read none.
        have late := Task.phase_le_of_mem_inputs isInput
        obtain ⟨plan, isPlan, isPlanned⟩ := planned.mem_tasks.mp isTask
        cases Blueprint.mem_tasks.mp isPlanned with
        | completed => cases List.mem_singleton.mp isInput
        | _ => exact absurd late (Nat.not_le.mpr Nat.one_lt_two)
    | _ => cases lacks
  have inTime : key.phase.number ≤ task.phase.number := Task.phase_le_of_mem_inputs isInput
  rw [← Task.phase_of_mem_outputs made] at inTime
  exact ⟨_, Program.mem_steps.mpr ⟨maker, isMaker, rfl⟩, Task.mem_step_outputs.mpr made, inTime⟩

include accepted built known named in
/-- The steps of a planned program have an order when no class of the module inherits. -/
theorem exists_orders (acyclic : ¬module.InheritsCyclically) :
    ∃ first second, order (program.steps tailCalls) .declare = .ok first ∧
      order (program.steps tailCalls) .complete = .ok second := by
  have valid : validate (program.steps tailCalls) .empty = .ok () :=
    planned.validated accepted built known named
  have ordered := order_of_acyclic (disjoint_of_validate valid)
    fun cyclic => acyclic (accepted.inheritsCyclically_of_hasCycle cyclic)
  obtain ⟨second, completes⟩ := Program.exists_order (valid_of_validate valid) ordered
  exact ⟨_, second, ordered, completes⟩

end Validation

end Program.Planned

end ClassForge
