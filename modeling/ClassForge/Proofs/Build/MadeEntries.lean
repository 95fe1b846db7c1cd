import ClassForge.Proofs.Build.DefinedMethods
import ClassForge.Proofs.Image.PlatformObjects

/-!
# Where the entries of a build come from

What a build adds to an image is the work of its tasks.  For each type, field, method and
constructor that was not there before, there is a task that declared it, and if it is complete or
has code, one that completed or defined it.  With this a request that would be refused because
something is there already can be traced to an earlier task.
-/

namespace ClassForge

namespace Image

variable {α : Type} {bound : Nat} {holds holdsLater : Nat → α → Prop} {table : Array α}

/-- The entries of a table from a position on have a property. -/
def Since (bound : Nat) (holds : Nat → α → Prop) (table : Array α) : Prop :=
  ∀ index value, bound ≤ index → table[index]? = some value → holds index value

namespace Since

theorem of_size_le (isEnd : table.size ≤ bound) : Since bound holds table := by
  intro index value isLate isEntry
  obtain ⟨inBounds, -⟩ := Array.getElem?_eq_some_iff.mp isEntry
  omega

theorem imp (since : Since bound holds table)
    (implies : ∀ index value, holds index value → holdsLater index value) :
    Since bound holdsLater table :=
  fun index value isLate isEntry => implies index value (since index value isLate isEntry)

theorem push (since : Since bound holds table) {added : α} (isNew : holds table.size added) :
    Since bound holds (table.push added) := by
  intro index value isLate isEntry
  rw [Array.getElem?_push] at isEntry
  split at isEntry
  · rename_i isLast
    cases isEntry
    exact isLast ▸ isNew
  · exact since index value isLate isEntry

theorem modify (since : Since bound holds table) {changed : Nat} {change : α → α}
    (keeps : ∀ value, table[changed]? = some value → holds changed value →
      holds changed (change value)) :
    Since bound holds (table.modify changed change) := by
  intro index value isLate isEntry
  rw [Array.getElem?_modify] at isEntry
  split at isEntry
  · rename_i same
    obtain ⟨before, isBefore, rfl⟩ := Option.map_eq_some_iff.mp isEntry
    subst same
    exact keeps before isBefore (since _ before isLate isBefore)
  · exact since index value isLate isEntry

/-- Fields that get slots keep a property that is not about slots. -/
theorem assignSlots {holds : Nat → FieldInfo → Prop} {fields : Array FieldInfo}
    (since : Since bound holds fields)
    (keeps : ∀ index field slot, holds index field → holds index { field with slot })
    (handles : List FieldHandle) (nextInstance nextStatic : Nat) :
    Since bound holds (Image.assignSlots handles fields nextInstance nextStatic).1 := by
  induction handles generalizing fields nextInstance nextStatic with
  | nil => exact since
  | cons handle handles ih =>
      have set : ∀ field slot, fields[handle.index]? = some field →
          Since bound holds (fields.setIfInBounds handle.index { field with slot }) := by
        intro field slot isField index value isLate isEntry
        rw [Array.getElem?_setIfInBounds] at isEntry
        split at isEntry
        · rename_i same
          subst same
          split at isEntry
          · cases isEntry
            exact keeps _ field slot (since _ field isLate isField)
          · cases isEntry
        · exact since index value isLate isEntry
      rw [Image.assignSlots]
      split
      · exact ih since _ _
      · rename_i field isField
        split
        all_goals exact ih (set field _ isField) _ _

end Since

end Image

/-! ## Tasks -/

/-- A task that declares no type below a type that it names, and no property. -/
def Task.IsPlain : Task → Prop
  | declareType _ _ base interfaces => base = none ∧ interfaces = []
  | declareProperty _ => False
  | _ => True

namespace BuildState

section Entries

variable (state : BuildState Image) (done : List Task)

/-- A type comes from tasks that were carried out. -/
structure TypeMade (info : TypeInfo) : Prop where
  declared : ∃ attrs base interfaces, Task.declareType info.name attrs base interfaces ∈ done
  origin : info.origin = .declared
  alone : info.interfaces = []
  based : ∀ root ∈ info.base, ∃ above, state.target.type? root = some above ∧
    above.isComplete = true
  completed : info.isComplete = true → ∃ supertypes, Task.complete info.name supertypes ∈ done

/-- A field comes from a task that was carried out. -/
def FieldMade (field : FieldInfo) : Prop :=
  ∃ key attrs, Task.declareField key attrs ∈ done ∧ field.name = key.name ∧
    state.resolution.type key.owner = .ok field.owner

/-- A method comes from tasks that were carried out. -/
structure MethodMade (handle : MethodHandle) (method : MethodInfo) : Prop where
  declared : ∃ key attrs ret, Task.declareMethod key attrs ret ∈ done ∧ method.name = key.name ∧
    state.resolution.type key.owner = .ok method.owner ∧ state.resolution.method key = .ok handle
  defined : method.implementation.isMissing = false → ∃ host key source,
    Task.defineMethod host key source ∈ done ∧ state.resolution.method key = .ok handle

/-- A constructor comes from tasks that were carried out. -/
structure CtorMade (handle : CtorHandle) (ctor : CtorInfo) : Prop where
  declared : ∃ key, Task.declareCtor key ∈ done ∧
    state.resolution.type key.owner = .ok ctor.owner ∧ state.resolution.ctor key = .ok handle
  defined : ctor.implementation.isMissing = false → ∃ host key source,
    Task.defineCtor host key source ∈ done ∧ state.resolution.ctor key = .ok handle

/-- What a build has added to an image comes from tasks that were carried out. -/
structure MadeBy (base : Image) : Prop where
  names : ∀ name handle, state.resolution.type name = .ok handle →
    ∃ info, state.target.type? handle = some info ∧ info.name = name
  types : Image.Since base.types.size (fun _ => state.TypeMade done) state.target.types
  fields : Image.Since base.fields.size (fun _ => state.FieldMade done) state.target.fields
  methods : Image.Since base.methods.size (fun index => state.MethodMade done ⟨index⟩)
    state.target.methods
  ctors : Image.Since base.ctors.size (fun index => state.CtorMade done ⟨index⟩) state.target.ctors

end Entries

section Growth

variable {before after : BuildState Image} {done : List Task}

theorem TypeMade.mono {info : TypeInfo} (made : before.TypeMade done info)
    (growth : before.Extends after) (task : Task) : after.TypeMade (done ++ [task]) info where
  declared := by
    obtain ⟨attrs, base, interfaces, isTask⟩ := made.declared
    exact ⟨attrs, base, interfaces, List.mem_append_left _ isTask⟩
  origin := made.origin
  alone := made.alone
  based root isRoot := by
    obtain ⟨above, isAbove, complete⟩ := made.based root isRoot
    obtain ⟨later, isLater, grows⟩ := growth.target.types _ above isAbove
    exact ⟨later, isLater, grows.isComplete complete⟩
  completed isComplete := by
    obtain ⟨supertypes, isTask⟩ := made.completed isComplete
    exact ⟨supertypes, List.mem_append_left _ isTask⟩

theorem FieldMade.mono {field : FieldInfo} (made : before.FieldMade done field)
    (growth : before.Extends after) (task : Task) : after.FieldMade (done ++ [task]) field := by
  obtain ⟨key, attrs, isTask, isName, isOwner⟩ := made
  exact ⟨key, attrs, List.mem_append_left _ isTask, isName, growth.resolution.type isOwner⟩

theorem MethodMade.mono {handle : MethodHandle} {method : MethodInfo}
    (made : before.MethodMade done handle method) (growth : before.Extends after) (task : Task) :
    after.MethodMade (done ++ [task]) handle method where
  declared := by
    obtain ⟨key, attrs, ret, isTask, isName, isOwner, isHandle⟩ := made.declared
    exact ⟨key, attrs, ret, List.mem_append_left _ isTask, isName, growth.resolution.type isOwner,
      growth.resolution.method isHandle⟩
  defined isThere := by
    obtain ⟨host, key, source, isTask, isHandle⟩ := made.defined isThere
    exact ⟨host, key, source, List.mem_append_left _ isTask, growth.resolution.method isHandle⟩

theorem CtorMade.mono {handle : CtorHandle} {ctor : CtorInfo}
    (made : before.CtorMade done handle ctor) (growth : before.Extends after) (task : Task) :
    after.CtorMade (done ++ [task]) handle ctor where
  declared := by
    obtain ⟨key, isTask, isOwner, isHandle⟩ := made.declared
    exact ⟨key, List.mem_append_left _ isTask, growth.resolution.type isOwner,
      growth.resolution.ctor isHandle⟩
  defined isThere := by
    obtain ⟨host, key, source, isTask, isHandle⟩ := made.defined isThere
    exact ⟨host, key, source, List.mem_append_left _ isTask, growth.resolution.ctor isHandle⟩

end Growth

section Tasks

variable {base : Image} {state after : BuildState Image} {done : List Task} {tailCalls : Bool}

theorem madeBy_initial (image : Image) : (BuildState.initial image).MadeBy [] image where
  names name handle found := by
    have found := Resolution.type_eq_ok.mp found
    simp [BuildState.initial] at found
  types := .of_size_le le_rfl
  fields := .of_size_le le_rfl
  methods := .of_size_le le_rfl
  ctors := .of_size_le le_rfl

/-- Handles of types still lead to entries of their names when something is recorded. -/
theorem names_insert {image extended : Image} {resolution later : Resolution} {key : Key}
    {resolved : Resolved}
    (names : ∀ name handle, resolution.type name = .ok handle →
      ∃ info, image.type? handle = some info ∧ info.name = name)
    (growth : image.Extends extended) (added : resolution.insert? key resolved = some later)
    (isNew : ∀ name handle, key = .type name → resolved = .type handle →
      ∃ info, extended.type? handle = some info ∧ info.name = name) :
    ∀ name handle, later.type name = .ok handle →
      ∃ info, extended.type? handle = some info ∧ info.name = name := by
  intro name handle found
  have found := Resolution.type_eq_ok.mp found
  rw [KeyTable.get?_insert? added] at found
  split at found
  · rename_i same
    exact isNew name handle same.symm (Option.some.inj found)
  · obtain ⟨info, isInfo, isName⟩ := names name handle (Resolution.type_eq_ok.mpr found)
    obtain ⟨last, isLast, grows⟩ := growth.types _ info isInfo
    exact ⟨last, isLast, grows.name.trans isName⟩

/-- The base that a type has without naming one is complete. -/
theorem based_of_resolveBase {image : Image} (built : image.Built) {attrs : TypeAttrs}
    {root : Option TypeHandle} (done : image.resolveBase attrs none = .ok root) :
    ∀ base ∈ root, ∃ info, image.type? base = some info ∧ info.isComplete = true := by
  have isRoot := Image.resolveBase_of_none done
  split at isRoot
  · rintro _ rfl
    cases isRoot
  · obtain ⟨handle, rfl, isHandle⟩ := isRoot
    obtain ⟨-, info, isInfo, -, -, complete, -⟩ := Image.library_object
    rintro _ ⟨⟩
    cases isHandle.symm.trans built.handleOf_object
    exact ⟨info, (built.keeps_library isInfo).type, complete⟩

/-- What a task adds comes from the tasks that were carried out before it and from itself. -/
theorem MadeBy.task (madeBy : state.MadeBy done base) (built : state.target.Built) {task : Task}
    (plain : task.IsPlain) (ran : (task.action tailCalls).run state = .ok () after) :
    after.MadeBy (done ++ [task]) base := by
  have growth := (Task.action_moves ran).1.extends'
  have isDone : task ∈ done ++ [task] := by simp
  have types := madeBy.types.imp fun _ _ made => made.mono growth task
  have fields := madeBy.fields.imp fun _ _ made => made.mono growth task
  have methods := madeBy.methods.imp fun _ _ made => made.mono growth task
  have ctors := madeBy.ctors.imp fun _ _ made => made.mono growth task
  cases Task.carried ran with
  | @declareType name attrs _ _ _ _ _ _ _ isBase areInterfaces declared added =>
      obtain ⟨rfl, rfl⟩ := plain
      cases isBase
      cases areInterfaces
      obtain ⟨root, _, -, isRoot, ⟨⟩, rfl, rfl⟩ := Image.declareType_shape declared
      refine ⟨names_insert madeBy.names growth.target added ?_, types.push ?_, fields, methods, ctors⟩
      · rintro _ _ ⟨⟩ ⟨⟩
        exact ⟨_, Array.getElem?_push_size, rfl⟩
      · refine ⟨⟨attrs, none, [], isDone⟩, rfl, rfl, fun above isAbove => ?_, by rintro ⟨⟩⟩
        obtain ⟨info, isInfo, complete⟩ := based_of_resolveBase built isRoot above isAbove
        exact ⟨info, Image.getElem?_push_of_eq_some isInfo, complete⟩
  | @declareField key attrs _ _ _ _ _ isOwner _ declared added =>
      obtain ⟨info, -, -, -, rfl, rfl⟩ := Image.declareField_shape declared
      refine ⟨names_insert madeBy.names growth.target added (by rintro _ _ ⟨⟩), types.modify ?_, fields.push ?_,
        methods, ctors⟩
      · exact fun _ _ made => ⟨made.declared, made.origin, made.alone, made.based, made.completed⟩
      · exact ⟨key, attrs, isDone, rfl, growth.resolution.type isOwner⟩
  | @declareMethod key attrs ret _ _ _ _ _ isOwner _ _ declared =>
      obtain ⟨target, resolution, isDeclared, added, rfl⟩ := Task.addMethod_ok declared
      obtain ⟨info, -, -, -, rfl, rfl⟩ := Image.declareMethod_shape isDeclared
      refine ⟨names_insert madeBy.names growth.target added (by rintro _ _ ⟨⟩), types.modify ?_, fields,
        methods.push ?_, ctors⟩
      · exact fun _ _ made => ⟨made.declared, made.origin, made.alone, made.based, made.completed⟩
      · exact ⟨⟨key, attrs, ret, isDone, rfl, growth.resolution.type isOwner,
          Resolution.method_eq_ok.mpr (Resolution.get?_of_insert? added)⟩, by rintro ⟨⟩⟩
  | @declareCtor key _ _ _ _ _ isOwner _ declared added =>
      obtain ⟨info, -, -, -, rfl, rfl⟩ := Image.declareCtor_shape declared
      refine ⟨names_insert madeBy.names growth.target added (by rintro _ _ ⟨⟩), types.modify ?_, fields, methods,
        ctors.push ?_⟩
      · exact fun _ _ made => ⟨made.declared, made.origin, made.alone, made.based, made.completed⟩
      · exact ⟨⟨key, isDone, growth.resolution.type isOwner,
          Resolution.ctor_eq_ok.mpr (Resolution.get?_of_insert? added)⟩, by rintro ⟨⟩⟩
  | declareProperty => cases plain
  | @defineMethod host key source _ _ _ _ isMethod defined =>
      obtain ⟨_, _, -, -, -, rfl⟩ := Image.defineMethod_shape defined
      refine ⟨madeBy.names, types, fields, methods.modify ?_, ctors⟩
      exact fun _ _ made => ⟨made.declared, fun _ => ⟨host, key, source, isDone, isMethod⟩⟩
  | @defineCtor host key source _ _ _ _ isCtor defined =>
      obtain ⟨_, _, -, -, -, rfl⟩ := Image.defineCtor_shape defined
      refine ⟨madeBy.names, types, fields, methods, ctors.modify ?_⟩
      exact fun _ _ made => ⟨made.declared, fun _ => ⟨host, key, source, isDone, isCtor⟩⟩
  | @complete name supertypes handle _ _ _ isType completed added =>
      obtain ⟨info, inherited, slots, isOpen, -, -, -, rfl, rfl, rfl⟩ := Image.sealType_shape completed
      obtain ⟨isInfo, -, -⟩ := Image.openType_eq_ok.mp isOpen
      refine ⟨names_insert madeBy.names growth.target added (by rintro _ _ ⟨⟩), types.modify ?_,
        fields.assignSlots ?_ _ _ _, methods, ctors⟩
      · intro other isOther made
        obtain ⟨named, isNamed, rfl⟩ := madeBy.names name handle isType
        cases isNamed.symm.trans isOther
        exact ⟨made.declared, made.origin, made.alone, made.based, fun _ => ⟨supertypes, isDone⟩⟩
      · exact fun _ _ _ made => made

end Tasks

end BuildState

end ClassForge
