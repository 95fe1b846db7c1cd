import ClassForge.Proofs.Build.Realization
import ClassForge.Proofs.Typing.Reordering

/-!
# Names of fields and properties

The target refuses a second field, or a second property, of a name in the same type, and
nothing that a build does takes one away.  In a module that was built to the end the names of
the fields of a type are therefore different, and so are those of its properties, although
the declarations of a module are told apart by their types as well.
-/

namespace ClassForge

variable {member : MemberName} {task : Task}

/-! ## Members of an image -/

namespace Image

/-- A type has a field of a name. -/
def HasField (image : Image) (owner : TypeHandle) (name : Name) : Prop :=
  ∃ info ∈ image.type? owner, ∃ handle ∈ info.fields,
    ∃ field ∈ image.field? handle, field.name = name

/-- A type has a property of a name. -/
def HasProperty (image : Image) (owner : TypeHandle) (name : Name) : Prop :=
  ∃ info ∈ image.type? owner, ∃ handle ∈ info.properties,
    ∃ property ∈ image.property? handle, property.name = name

variable {image extended : Image} {owner : TypeHandle} {name : Name}

theorem Extends.hasField (growth : image.Extends extended) (has : image.HasField owner name) :
    extended.HasField owner name := by
  obtain ⟨info, isInfo, handle, listed, field, isField, rfl⟩ := has
  obtain ⟨after, isAfter, grows⟩ := growth.types _ info isInfo
  obtain ⟨later, isLater, same⟩ := growth.fields _ field isField
  exact ⟨after, isAfter, handle, grows.fields listed, later, isLater, same.name⟩

theorem Extends.hasProperty (growth : image.Extends extended)
    (has : image.HasProperty owner name) : extended.HasProperty owner name := by
  obtain ⟨info, isInfo, handle, listed, property, isProperty, rfl⟩ := has
  obtain ⟨after, isAfter, grows⟩ := growth.types _ info isInfo
  obtain ⟨later, isLater, rfl⟩ := growth.properties _ property isProperty
  exact ⟨after, isAfter, handle, grows.properties listed, property, isLater, rfl⟩

/-- A new field was not there before. -/
theorem declareField_new {type : RunTy} {attrs : FieldAttrs} {handle : FieldHandle}
    (done : image.declareField owner name type attrs = .ok (handle, extended)) :
    ¬image.HasField owner name ∧ extended.HasField owner name := by
  obtain ⟨info, isOpen, -, isNew, -, rfl⟩ := declareField_shape done
  obtain ⟨isInfo, -, -⟩ := openType_eq_ok.mp isOpen
  refine ⟨?_, _, type?_modifyType isInfo, ⟨image.fields.size⟩, by simp, _,
    Array.getElem?_push_size, rfl⟩
  rintro ⟨other, isOther, handle, listed, field, isField, named⟩
  rw [isInfo] at isOther
  cases isOther
  exact isNew _ (mem_fieldsOf.mpr ⟨listed, isField⟩) named

/-- A new property was not there before. -/
theorem declareProperty_new {type : RunTy} {getter setter : Option MethodHandle}
    {handle : PropertyHandle}
    (done : image.declareProperty owner name type getter setter = .ok (handle, extended)) :
    ¬image.HasProperty owner name ∧ extended.HasProperty owner name := by
  obtain ⟨info, isOpen, -, isNew, -, rfl⟩ := declareProperty_shape done
  obtain ⟨isInfo, -, -⟩ := openType_eq_ok.mp isOpen
  refine ⟨?_, _, type?_modifyType isInfo, ⟨image.properties.size⟩, by simp, _,
    Array.getElem?_push_size, rfl⟩
  rintro ⟨other, isOther, handle, listed, property, isProperty, named⟩
  rw [isInfo] at isOther
  cases isOther
  exact isNew _ (mem_propertiesOf.mpr ⟨listed, isProperty⟩) named

end Image

/-! ## Tasks that declare members -/

/-- A field or a property, by the name of its owner and its own. -/
inductive MemberName where
  | field (owner name : Name)
  | property (owner name : Name)

/-- The field or property that a task declares. -/
def Task.memberName? : Task → Option MemberName
  | declareField key _ => some (.field key.owner key.name)
  | declareProperty property => some (.property property.key.owner property.key.name)
  | _ => none

namespace BuildState

/-- The target has a field or property. -/
def Has (state : BuildState Image) : MemberName → Prop
  | .field owner name => ∃ handle, state.resolution.type owner = .ok handle ∧
      state.target.HasField handle name
  | .property owner name => ∃ handle, state.resolution.type owner = .ok handle ∧
      state.target.HasProperty handle name

variable {before after : BuildState Image}

theorem Extends.has (growth : before.Extends after) (has : before.Has member)
    : after.Has member := by
  cases member with
  | field owner name =>
      obtain ⟨handle, found, present⟩ := has
      exact ⟨handle, growth.resolution.type found, growth.target.hasField present⟩
  | property owner name =>
      obtain ⟨handle, found, present⟩ := has
      exact ⟨handle, growth.resolution.type found, growth.target.hasProperty present⟩

end BuildState

namespace Task

theorem accessor_extends {accessor? : Option MethodKey} {owner : TypeHandle} {attrs : MethodAttrs}
    {params : List RunTy} {ret : RunTy} {handle? : Option MethodHandle}
    {state after : BuildState Image}
    (ran : (accessor?.mapM fun key => addMethod key owner attrs params ret).run state =
      .ok handle? after) : state.Extends after := by
  rcases Build.optionMapM_eq_ok ran with ⟨rfl, rfl, rfl⟩ | ⟨key, handle, rfl, rfl, added⟩
  · exact .refl _
  · obtain ⟨target, resolution, declared, inserted, rfl⟩ := addMethod_ok added
    exact ⟨Image.declareMethod_extends declared, Resolution.within_of_insert? inserted⟩

/-- A task that declares a member finds it missing and leaves it there. -/
theorem action_declares {tailCalls : Bool} {state after : BuildState Image}
    (declares : task.memberName? = some member)
    (ran : (task.action tailCalls).run state = .ok () after) :
    ¬state.Has member ∧ after.Has member := by
  cases carried ran with
  | @declareField key attrs owner _ _ _ _ isOwner _ declared added =>
      cases declares
      obtain ⟨absent, present⟩ := Image.declareField_new declared
      refine ⟨?_, owner, (Resolution.within_of_insert? added).type isOwner, present⟩
      rintro ⟨other, isOther, has⟩
      rw [isOwner] at isOther
      cases isOther
      exact absent has
  | @declareProperty property owner _ _ _ _ _ _ _ _ isOwner _ getterAdded setterAdded declared
      added =>
      cases declares
      obtain ⟨absent, present⟩ := Image.declareProperty_new declared
      have accessors := (accessor_extends getterAdded).trans (accessor_extends setterAdded)
      have ownerKept := accessors.resolution.type isOwner
      refine ⟨fun has => ?_, owner, (Resolution.within_of_insert? added).type ownerKept, present⟩
      obtain ⟨other, isOther, has⟩ := accessors.has has
      rw [ownerKept] at isOther
      cases isOther
      exact absent has
  | _ => cases declares

end Task

/-! ## Members of a module that was built -/

section

open Schedule

variable {program : Program} {tailCalls : Bool} {start state : BuildState Image}
  {done : List (Step Image)}

/-- The members that a build has declared so far are there, and each was declared once. -/
theorem Schedule.Runs.distinct_members (runs : Runs (program.steps tailCalls) start done state) :
    ∃ tasks : List Task, done = tasks.map (Task.step tailCalls) ∧
      (tasks.filterMap Task.memberName?).Nodup ∧
      ∀ member ∈ tasks.filterMap Task.memberName?, state.Has member := by
  induction runs with
  | start => exact ⟨[], rfl, List.nodup_nil, by simp⟩
  | step _ turn ran ih =>
      obtain ⟨tasks, rfl, distinct, present⟩ := ih
      obtain ⟨task, -, rfl⟩ := Program.mem_steps.mp turn.member
      have acted := (runStep_eq_ok ran).1
      have growth := (Task.action_moves acted).1.extends'
      refine ⟨tasks ++ [task], by simp, ?_⟩
      rw [List.filterMap_append]
      cases declares : task.memberName? with
      | none =>
          rw [List.filterMap_cons_none declares, List.filterMap_nil, List.append_nil]
          exact ⟨distinct, fun member isMember => growth.has (present member isMember)⟩
      | some added =>
          obtain ⟨absent, held⟩ := Task.action_declares declares acted
          rw [List.filterMap_cons_some declares, List.filterMap_nil, ← List.concat_eq_append,
            List.nodup_concat]
          refine ⟨⟨fun isMember => absent (present added isMember), distinct⟩, ?_⟩
          intro member isMember
          rcases List.mem_append.mp (List.concat_eq_append ▸ isMember) with earlier | isAdded
          · exact growth.has (present member earlier)
          · rw [List.mem_singleton.mp isAdded]
            exact held

theorem Task.eq_of_field_output {key : FieldKey} (output : .field key ∈ task.outputs) :
    ∃ attrs, task = .declareField key attrs := by
  cases task <;> simp_all [Task.outputs]

theorem Task.eq_of_property_output {key : PropertyKey} (output : .property key ∈ task.outputs) :
    ∃ property : CoreProperty, task = .declareProperty property ∧ property.key = key := by
  cases task <;> simp_all [Task.outputs]

theorem eq_of_nodup_filterMap {α β : Type} {choose : α → Option β} {items : List α}
    (distinct : (items.filterMap choose).Nodup) {first second : α} {value : β}
    (isFirst : first ∈ items) (isSecond : second ∈ items)
    (chosen : choose first = some value) (alsoChosen : choose second = some value) :
    first = second := by
  induction items with
  | nil => cases isFirst
  | cons item items ih =>
      have listed : ∀ {other}, other ∈ items → choose other = some value →
          value ∈ items.filterMap choose :=
        fun member isChosen => List.mem_filterMap.mpr ⟨_, member, isChosen⟩
      rw [List.filterMap_cons] at distinct
      rcases List.mem_cons.mp isFirst with rfl | firstLater
      · rw [chosen] at distinct
        rcases List.mem_cons.mp isSecond with rfl | secondLater
        · rfl
        · exact ((List.nodup_cons.mp distinct).1 (listed secondLater alsoChosen)).elim
      · rcases List.mem_cons.mp isSecond with rfl | secondLater
        · rw [alsoChosen] at distinct
          exact ((List.nodup_cons.mp distinct).1 (listed firstLater chosen)).elim
        · refine ih ?_ firstLater secondLater
          cases found : choose item with
          | none => rwa [found] at distinct
          | some other =>
              rw [found] at distinct
              exact (List.nodup_cons.mp distinct).2

/-- In a module that was built to the end, a type has at most one field and at most one
property of a name. -/
theorem Module.Accepted.uniqueNames {module : Module} {image target : Image}
    {context : TypeContext} (accepted : module.Accepted image context program)
    (built : (schedule (program.steps tailCalls)).run (.initial target) = .ok () state) :
    context.symbols.UniqueNames := by
  have ends : Ends (program.steps tailCalls) (.initial target) (.ok () state) :=
    built ▸ schedule_ends rfl
  cases ends with
  | finished _ runs perm =>
      obtain ⟨tasks, rfl, distinct, -⟩ := runs.distinct_members
      have produced : ∀ {key decl}, (key, decl) ∈ context.symbols.entries →
          ∃ task ∈ tasks, key ∈ task.outputs := by
        intro key decl entry
        obtain ⟨task, isTask, output⟩ := accepted.produced entry
        obtain ⟨ran, isRan, same⟩ := List.mem_map.mp
          (perm.mem_iff.mpr (Program.mem_steps.mpr ⟨task, isTask, rfl⟩))
        rw [← Task.mem_step_outputs, ← same, Task.mem_step_outputs] at output
        exact ⟨ran, isRan, output⟩
      have unique : ∀ {first second : Task} {member : MemberName}, first ∈ tasks →
          second ∈ tasks → first.memberName? = some member → second.memberName? = some member →
          first = second := eq_of_nodup_filterMap distinct
      constructor
      · intro key other decl another entry otherEntry sameOwner sameName
        obtain ⟨first, isFirst, output⟩ := produced entry
        obtain ⟨second, isSecond, otherOutput⟩ := produced otherEntry
        obtain ⟨attrs, rfl⟩ := Task.eq_of_field_output output
        obtain ⟨otherAttrs, rfl⟩ := Task.eq_of_field_output otherOutput
        have same := unique isFirst isSecond rfl
          (show some (MemberName.field other.owner other.name) = some (.field key.owner key.name) by
            rw [sameOwner, sameName])
        exact (Task.declareField.inj same).1
      · intro key other decl another entry otherEntry sameOwner sameName
        obtain ⟨first, isFirst, output⟩ := produced entry
        obtain ⟨second, isSecond, otherOutput⟩ := produced otherEntry
        obtain ⟨property, rfl, rfl⟩ := Task.eq_of_property_output output
        obtain ⟨otherProperty, rfl, rfl⟩ := Task.eq_of_property_output otherOutput
        have same := unique isFirst isSecond rfl
          (show some (MemberName.property otherProperty.key.owner otherProperty.key.name) =
            some (.property property.key.owner property.key.name) by rw [sameOwner, sameName])
        rw [Task.declareProperty.inj same]

end

end ClassForge
