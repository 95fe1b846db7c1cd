import ClassForge.Proofs.Typing.Program

/-!
# What a module declares

The symbols of a module are the declarations of its classes, one after the other.
Whatever the checker finds among them is built by a task of the checked program.
-/

namespace ClassForge

variable {decl : Declaration} {property : PropertyDef}

/-! ## Symbols -/

theorem KeyTable.mem_entries_of_get? {α : Type} {table : KeyTable α} {key : Key} {value : α}
    (found : table.get? key = some value) : (key, value) ∈ table.entries := by
  obtain ⟨before, after, shape, -⟩ := List.lookup_eq_some_iff.mp found
  rw [shape]
  simp

namespace Symbols

variable {symbols extended : Symbols}
variable {name owner : Name}

theorem declare_entries {key : Key} (done : symbols.declare key decl = .ok extended) :
    extended.entries = symbols.entries ++ [(key, decl)] := by
  unfold declare KeyTable.insert? at done
  split at done
  · rename_i added
    split at added
    · cases added
    · cases added
      cases done
      rfl
  · cases done

theorem declareAll_entries {declarations : List (Key × Declaration)}
    (done : declarations.foldlM (fun symbols (key, decl) => symbols.declare key decl) symbols =
      .ok extended) :
    extended.entries = symbols.entries ++ declarations := by
  induction declarations generalizing symbols with
  | nil =>
      cases done
      simp
  | cons declaration declarations ih =>
      obtain ⟨key, decl⟩ := declaration
      rw [List.foldlM_cons, bind_eq_ok] at done
      obtain ⟨middle, first, rest⟩ := done
      rw [ih rest, declare_entries first]
      simp

theorem ofClasses_entries {classes : List ClassDef} {taken : List NodeId}
    (done : ofClasses classes taken symbols = .ok extended) :
    extended.entries = symbols.entries ++ classes.flatMap ClassDef.declarations := by
  induction classes generalizing taken symbols with
  | nil =>
      cases done
      simp
  | cons cls classes ih =>
      simp only [ofClasses, bind_eq_ok] at done
      obtain ⟨⟨⟩, -, taken, -, middle, declared, rest⟩ := done
      rw [ih rest, declareAll_entries declared]
      simp

/-- The symbols of a module are the declarations of its classes. -/
theorem ofModule_entries {module : Module} (done : ofModule module = .ok symbols) :
    symbols.entries = module.classes.flatMap ClassDef.declarations := by
  simpa [KeyTable.empty] using ofClasses_entries done

theorem mem_entries_of_type? {decl : TypeDecl} (found : symbols.type? name = some decl) :
    (.type name, .type decl) ∈ symbols.entries := by
  unfold type? at found
  split at found
  · rename_i present
    cases found
    exact KeyTable.mem_entries_of_get? present
  · cases found

theorem mem_methodsNamed {key : MethodKey} {decl : MethodDecl}
    (found : (key, decl) ∈ symbols.methodsNamed owner name) :
    (.method key, .method decl) ∈ symbols.entries ∧ key.owner = owner ∧ key.name = name := by
  obtain ⟨⟨_, _⟩, present, same⟩ := List.mem_filterMap.mp found
  split at same
  · rename_i heads
    cases heads
    split at same
    · rename_i named
      cases same
      exact ⟨present, named⟩
    · cases same
  · cases same

theorem mem_ctorsOf {key : CtorKey} {decl : CtorDecl}
    (found : (key, decl) ∈ symbols.ctorsOf owner) :
    (.ctor key, .ctor decl) ∈ symbols.entries ∧ key.owner = owner := by
  obtain ⟨⟨_, _⟩, present, same⟩ := List.mem_filterMap.mp found
  split at same
  · rename_i heads
    cases heads
    split at same
    · rename_i named
      cases same
      exact ⟨present, named⟩
    · cases same
  · cases same

theorem mem_of_fieldNamed? {key : FieldKey} {decl : FieldDecl}
    (found : symbols.fieldNamed? owner name = some (key, decl)) :
    (.field key, .field decl) ∈ symbols.entries ∧ key.owner = owner ∧ key.name = name := by
  obtain ⟨⟨_, _⟩, present, same⟩ := List.exists_of_findSome?_eq_some found
  split at same
  · rename_i heads
    cases heads
    split at same
    · rename_i named
      cases same
      exact ⟨present, named⟩
    · cases same
  · cases same

theorem mem_of_propertyNamed? {key : PropertyKey} {decl : PropertyDecl}
    (found : symbols.propertyNamed? owner name = some (key, decl)) :
    (.property key, .property decl) ∈ symbols.entries ∧ key.owner = owner ∧
      key.name = name := by
  obtain ⟨⟨_, _⟩, present, same⟩ := List.exists_of_findSome?_eq_some found
  split at same
  · rename_i heads
    cases heads
    split at same
    · rename_i named
      cases same
      exact ⟨present, named⟩
    · cases same
  · cases same

end Symbols

/-! ## Declarations of a class -/

namespace ClassDef

variable {cls : ClassDef} {key : Key} {decl : Declaration}

/-- The members that a class can declare something as. -/
theorem mem_declarations :
    (key, decl) ∈ cls.declarations ↔
      (key = .type cls.name ∧
        decl = .type { attrs := cls.attrs, base := cls.base, interfaces := cls.interfaces }) ∨
      (∃ field ∈ cls.fields, key = .field (field.key cls.name) ∧
        decl = .field { attrs := field.attrs, type := field.type }) ∨
      (∃ method ∈ cls.methods, key = .method (method.key cls.name) ∧
        decl = .method { attrs := cls.methodAttrs method.attrs, ret := method.ret }) ∨
      (∃ ctor ∈ cls.allCtors, key = .ctor (ctor.key cls.name) ∧
        decl = .ctor { attrs := ctor.attrs }) ∨
      ∃ property ∈ cls.properties, (key, decl) ∈ declarations.ofProperty cls property := by
  simp only [declarations, List.mem_append, List.mem_cons, List.mem_map, List.mem_flatMap,
    Prod.mk.injEq, List.cons_append]
  grind

/-- A property is declared with its accessors. -/
theorem mem_ofProperty :
    (key, decl) ∈ declarations.ofProperty cls property ↔
      (key = .property (property.key cls.name) ∧
        decl = .property
          { isStatic := property.isStatic, type := property.type,
            hasGetter := property.getter.isSome, hasSetter := property.setter.isSome }) ∨
      (∃ getter ∈ property.getterKey? cls.name, key = .method getter ∧
        decl = .method { attrs := .generated property.isStatic, ret := property.type }) ∨
      ∃ setter ∈ property.setterKey? cls.name, key = .method setter ∧
        decl = .method { attrs := .generated property.isStatic, ret := .void } := by
  simp only [declarations.ofProperty, List.mem_append, List.mem_cons, List.mem_map,
    Option.mem_toList, Option.mem_def, Prod.mk.injEq, List.cons_append]
  grind

theorem of_mem_type {name : Name} {decl : TypeDecl}
    (declared : (.type name, .type decl) ∈ cls.declarations) :
    name = cls.name ∧
      decl = { attrs := cls.attrs, base := cls.base, interfaces := cls.interfaces } := by
  simpa [mem_declarations, mem_ofProperty] using declared

theorem of_mem_field {key : FieldKey} {decl : FieldDecl}
    (declared : (.field key, .field decl) ∈ cls.declarations) :
    ∃ field ∈ cls.fields, key = field.key cls.name ∧
      decl = { attrs := field.attrs, type := field.type } := by
  simpa [mem_declarations, mem_ofProperty] using declared

/-- The accessors of a property that is declared are declared. -/
theorem of_mem_property {key : PropertyKey} {decl : PropertyDecl}
    (declared : (.property key, .property decl) ∈ cls.declarations) :
    ∃ property ∈ cls.properties, decl.type = property.type ∧
      (decl.hasGetter = true → ∃ attrs, (.method ⟨key.owner, getterName key.name, !decl.isStatic,
        []⟩, .method ⟨attrs, decl.type⟩) ∈ cls.declarations) ∧
      (decl.hasSetter = true → ∃ attrs, (.method ⟨key.owner, setterName key.name, !decl.isStatic,
        [decl.type]⟩, .method ⟨attrs, .void⟩) ∈ cls.declarations) := by
  obtain ⟨property, isProperty, rfl, rfl⟩ : ∃ property ∈ cls.properties,
      key = property.key cls.name ∧ decl =
        { isStatic := property.isStatic, type := property.type,
          hasGetter := property.getter.isSome, hasSetter := property.setter.isSome } := by
    simpa [mem_declarations, mem_ofProperty] using declared
  have accessor : ∀ {key decl}, (key, decl) ∈ declarations.ofProperty cls property →
      (key, decl) ∈ cls.declarations := fun isAccessor =>
    mem_declarations.mpr (.inr (.inr (.inr (.inr ⟨property, isProperty, isAccessor⟩))))
  refine ⟨property, isProperty, rfl,
    fun hasGetter => ⟨_, accessor (mem_ofProperty.mpr (.inr (.inl ⟨_, ?_, rfl, rfl⟩)))⟩,
    fun hasSetter => ⟨_, accessor (mem_ofProperty.mpr (.inr (.inr ⟨_, ?_, rfl, rfl⟩)))⟩⟩
  · obtain ⟨body, isBody⟩ := Option.isSome_iff_exists.mp hasGetter
    simp [PropertyDef.getterKey?, isBody, PropertyKey.getter, PropertyDef.key]
  · obtain ⟨body, isBody⟩ := Option.isSome_iff_exists.mp hasSetter
    simp [PropertyDef.setterKey?, isBody, PropertyKey.setter, PropertyDef.key]

end ClassDef

/-! ## Tasks of a class -/

theorem exists_related_left {α β : Type} {relation : α → β → Prop} {left : List α}
    {right : List β} {second : β} (related : List.Forall₂ relation left right)
    (member : second ∈ right) : ∃ first ∈ left, relation first second := by
  induction related with
  | nil => cases member
  | cons holds _ ih =>
      rcases List.mem_cons.mp member with rfl | later
      · exact ⟨_, List.mem_cons_self, holds⟩
      · obtain ⟨first, present, holds⟩ := ih later
        exact ⟨first, List.mem_cons_of_mem _ present, holds⟩

theorem exists_related_right {α β : Type} {relation : α → β → Prop} {left : List α}
    {right : List β} {first : α} (related : List.Forall₂ relation left right)
    (member : first ∈ left) : ∃ second ∈ right, relation first second := by
  obtain ⟨second, present, holds⟩ := exists_related_left related.flip member
  exact ⟨second, present, holds⟩

/-- The tasks that build the class behind a boundary. -/
inductive Closure.Plans (host : Name) (closure : Closure) : Task → Prop where
  | type : Plans host closure (.declareType closure.typeName .sealedClass none [])
  | field {key : FieldKey} (isField : key ∈ closure.fieldKeys) :
      Plans host closure (.declareField key .publicInstance)
  | ctor : Plans host closure (.declareCtor closure.ctorKey)
  | ctorCode : Plans host closure (.defineCtor host closure.ctorKey (.closure closure))
  | invoke : Plans host closure (.declareMethod closure.invokeKey .publicInstance closure.ret)
  | invokeCode : Plans host closure (.defineMethod host closure.invokeKey (.closure closure))
  | completion : Plans host closure (.complete closure.typeName [])

theorem Closure.mem_tasks {closure : Closure} {host : Name} {task : Task} :
    task ∈ closure.tasks host ↔ closure.Plans host task := by
  simp only [Closure.tasks, List.cons_append, List.mem_cons, List.mem_append, List.mem_map,
    List.not_mem_nil, or_false]
  constructor
  · rintro (rfl | ⟨key, isField, rfl⟩ | rfl | rfl | rfl | rfl | rfl) <;> constructor
    exact isField
  · rintro (_ | isField | _) <;> simp_all

/-- The tasks that build a class: those of its members, and those of what its boundaries move
their code into. -/
inductive CoreClass.Plans (cls : CoreClass) : Task → Prop where
  | type : cls.Plans (.declareType cls.name cls.attrs cls.base cls.interfaces)
  | field {field : FieldDef} (isField : field ∈ cls.fields) :
      cls.Plans (.declareField (field.key cls.name) field.attrs)
  | method {method : CoreMethod} (isMethod : method ∈ cls.methods) :
      cls.Plans (.declareMethod method.key method.attrs method.ret)
  | methodCode {method : CoreMethod} {routine : Routine} (isMethod : method ∈ cls.methods)
      (isRoutine : method.routine = some routine) :
      cls.Plans (.defineMethod cls.name method.key (.routine routine))
  | ctor {ctor : CoreCtor} (isCtor : ctor ∈ cls.ctors) : cls.Plans (.declareCtor ctor.key)
  | ctorCode {ctor : CoreCtor} (isCtor : ctor ∈ cls.ctors) :
      cls.Plans (.defineCtor cls.name ctor.key (.routine ctor.routine))
  | property {property : CoreProperty} (isProperty : property ∈ cls.properties) :
      cls.Plans (.declareProperty property)
  | getterCode {property : CoreProperty} {key : MethodKey} {routine : Routine}
      (isProperty : property ∈ cls.properties) (isKey : property.getterKey? = some key)
      (isRoutine : property.getter = some routine) :
      cls.Plans (.defineMethod cls.name key (.routine routine))
  | setterCode {property : CoreProperty} {key : MethodKey} {routine : Routine}
      (isProperty : property ∈ cls.properties) (isKey : property.setterKey? = some key)
      (isRoutine : property.setter = some routine) :
      cls.Plans (.defineMethod cls.name key (.routine routine))
  | closure {node : Core} {closure : Closure} {task : Task}
      (isNode : node ∈ Core.preorderAll cls.roots)
      (isClosure : node.closure? cls.name = some closure) (isTask : closure.Plans cls.name task) :
      cls.Plans task
  | block {node : Core} {block : Block} (isNode : node ∈ Core.preorderAll cls.roots)
      (isBlock : node.block? cls.name = some block) :
      cls.Plans (.declareMethod block.key .publicStatic block.ret)
  | blockCode {node : Core} {block : Block} (isNode : node ∈ Core.preorderAll cls.roots)
      (isBlock : node.block? cls.name = some block) :
      cls.Plans (.defineMethod cls.name block.key (.block block))
  | completion : cls.Plans (.complete cls.name cls.declaredSupertypes)

theorem CoreClass.mem_tasks {cls : CoreClass} {task : Task} :
    task ∈ cls.tasks ↔ cls.Plans task := by
  simp only [tasks, List.mem_append, List.mem_cons, List.mem_map, List.mem_flatMap,
    List.cons_append, List.not_mem_nil, or_false, CoreMethod.tasks, CoreCtor.tasks,
    CoreProperty.tasks, CoreProperty.accessorTask?, Core.liftedTasks, Block.tasks,
    Closure.mem_tasks, Option.mem_toList, Option.bind_eq_bind, Option.bind_eq_some_iff, or_assoc,
    Option.pure_def, Option.some.injEq]
  constructor
  · rintro (rfl | ⟨field, isField, rfl⟩ | ⟨method, isMethod, rfl | ⟨routine, isRoutine, rfl⟩⟩ |
      ⟨ctor, isCtor, rfl | rfl⟩ | ⟨property, isProperty, rfl |
        ⟨key, isKey, routine, isRoutine, rfl⟩ | ⟨key, isKey, routine, isRoutine, rfl⟩⟩ |
      ⟨node, isNode, ⟨closure, isClosure, isTask⟩ | ⟨block, isBlock, rfl | rfl⟩⟩ | rfl)
    · exact .type
    · exact .field isField
    · exact .method isMethod
    · exact .methodCode isMethod isRoutine
    · exact .ctor isCtor
    · exact .ctorCode isCtor
    · exact .property isProperty
    · exact .getterCode isProperty isKey isRoutine
    · exact .setterCode isProperty isKey isRoutine
    · exact .closure isNode isClosure isTask
    · exact .block isNode isBlock
    · exact .blockCode isNode isBlock
    · exact .completion
  · intro planned
    cases planned <;> grind

theorem option_rel_map_const {α β γ : Type} {relation : α → β → Prop} {left : Option α}
    {right : Option β} {value : γ} (related : Option.Rel relation left right) :
    right.map (fun _ => value) = left.map fun _ => value := by
  cases related <;> rfl

theorem getterKey?_eq {context : TypeContext} {cls : ClassDef} {core : CoreProperty}
    (checked : context.ChecksProperty cls property core) :
    core.getterKey? = property.getterKey? cls.name := by
  unfold CoreProperty.getterKey? PropertyDef.getterKey?
  rw [checked.key, checked.isStatic]
  exact option_rel_map_const checked.getter

theorem setterKey?_eq {context : TypeContext} {cls : ClassDef} {core : CoreProperty}
    (checked : context.ChecksProperty cls property core) :
    core.setterKey? = property.setterKey? cls.name := by
  unfold CoreProperty.setterKey? PropertyDef.setterKey?
  rw [checked.key, checked.isStatic]
  exact option_rel_map_const checked.setter

/-- Whatever a class declares is an output of one of its tasks. -/
theorem TypeContext.ChecksClass.produced {context : TypeContext} {cls : ClassDef} {core : CoreClass}
    (checked : context.ChecksClass cls core) {key : Key} (declared : (key, decl) ∈ cls.declarations) :
    ∃ task ∈ core.tasks, key ∈ task.outputs := by
  rcases ClassDef.mem_declarations.mp declared with ⟨rfl, -⟩ | ⟨field, member, rfl, -⟩ |
    ⟨method, member, rfl, -⟩ | ⟨ctor, member, rfl, -⟩ | ⟨property, member, ofProperty⟩
  · refine ⟨_, CoreClass.mem_tasks.mpr .type, ?_⟩
    simp [Task.outputs, checked.name]
  · rw [← checked.fields] at member
    refine ⟨_, CoreClass.mem_tasks.mpr (.field member), ?_⟩
    simp [Task.outputs, checked.name]
  · obtain ⟨built, present, holds⟩ := exists_related_right checked.methods member
    exact ⟨_, CoreClass.mem_tasks.mpr (.method present), by simp [Task.outputs, holds.key]⟩
  · obtain ⟨built, present, holds⟩ := exists_related_right checked.ctors member
    exact ⟨_, CoreClass.mem_tasks.mpr (.ctor present), by simp [Task.outputs, holds.key]⟩
  · obtain ⟨built, present, holds⟩ := exists_related_right checked.properties member
    refine ⟨_, CoreClass.mem_tasks.mpr (.property present), ?_⟩
    simp only [Task.outputs, getterKey?_eq holds, setterKey?_eq holds, holds.key]
    rcases ClassDef.mem_ofProperty.mp ofProperty with ⟨rfl, -⟩ | ⟨getter, isGetter, rfl, -⟩ |
      ⟨setter, isSetter, rfl, -⟩
    · exact List.mem_cons_self
    · refine List.mem_cons_of_mem _ (List.mem_map_of_mem ?_)
      exact List.mem_append_left _ (Option.mem_toList.mpr isGetter)
    · refine List.mem_cons_of_mem _ (List.mem_map_of_mem ?_)
      exact List.mem_append_right _ (Option.mem_toList.mpr isSetter)

namespace Module.Accepted

variable {module : Module} {image : Image} {context : TypeContext} {program : Program}

theorem mem_entries (accepted : module.Accepted image context program) {key : Key}
    (found : (key, decl) ∈ context.symbols.entries) :
    ∃ cls ∈ module.classes, (key, decl) ∈ cls.declarations := by
  rw [Symbols.ofModule_entries accepted.symbols] at found
  exact List.mem_flatMap.mp found

/-- Whatever the symbols of a module hold is an output of a task. -/
theorem produced (accepted : module.Accepted image context program) {key : Key}
    (found : (key, decl) ∈ context.symbols.entries) :
    ∃ task ∈ program.tasks, key ∈ task.outputs := by
  obtain ⟨cls, member, declared⟩ := accepted.mem_entries found
  obtain ⟨core, present, checked⟩ := exists_related_right accepted.classes member
  obtain ⟨task, isTask, output⟩ := checked.produced declared
  exact ⟨task, List.mem_flatMap.mpr ⟨core, present, isTask⟩, output⟩

end Module.Accepted

end ClassForge
