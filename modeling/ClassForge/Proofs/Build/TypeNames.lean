import ClassForge.Proofs.Build.Realization
import ClassForge.Proofs.Typing.Reordering

/-!
# The types that a module is compiled to

A module is compiled to a type for each of its classes, and to one for each lambda and each
loop in their code.  Checking an expression keeps its nodes in order, so these can be read
off the module as it is written.
-/

namespace ClassForge

variable {task : Task} {name : Name}

/-! ## Nodes of checked expressions -/

/-- The type that a node of a class becomes, if it is a lambda or a loop. -/
def Expr.closureName? (host : Name) : Expr → Option Name
  | lambda id _ _ => some (host ++ "$closure" ++ toString id)
  | loop id _ _ _ _ => some (host ++ "$loop" ++ toString id)
  | _ => none

namespace Expr

theorem preorderAll_eq_flatMap (items : List Expr) :
    preorderAll items = items.flatMap preorder := by
  induction items with
  | nil => rfl
  | cons item items ih => rw [preorderAll, ih, List.flatMap_cons]

theorem preorderArms_eq_flatMap (arms : List (List UInt32 × Expr)) :
    preorderArms arms = (arms.map (·.2)).flatMap preorder := by
  induction arms with
  | nil => rfl
  | cons arm arms ih => rw [preorderArms, ih, List.map_cons, List.flatMap_cons]

theorem preorderNamed_eq_flatMap (clauses : List (Name × Expr)) :
    preorderNamed clauses = (clauses.map (·.2)).flatMap preorder := by
  induction clauses with
  | nil => rfl
  | cons clause clauses ih => rw [preorderNamed, ih, List.map_cons, List.flatMap_cons]

theorem preorderTyped_eq_flatMap (clauses : List (Param × Expr)) :
    preorderTyped clauses = (clauses.map (·.2)).flatMap preorder := by
  induction clauses with
  | nil => rfl
  | cons clause clauses ih => rw [preorderTyped, ih, List.map_cons, List.flatMap_cons]

/-- The nodes of an expression are its root and the nodes of its parts. -/
theorem preorder_eq_cons (expr : Expr) :
    expr.preorder = expr :: expr.children.flatMap preorder := by
  cases expr <;>
    simp [preorder, children, preorderAll_eq_flatMap, preorderArms_eq_flatMap,
      preorderNamed_eq_flatMap, preorderTyped_eq_flatMap]

variable {context : TypeContext} {scope : Scope SourceTy}

/-- Parts that are checked in some scope. -/
def ChecksSomewhere (context : TypeContext) (expr : Expr) (core : Core) : Prop :=
  ∃ scope, Checks context scope expr core

theorem ChecksInTurn.somewhere {body : Usage} {clauses : List (Name × Expr)}
    {cores : List (Binder × Core)} {inner : Scope SourceTy}
    (checked : ChecksInTurn context body scope clauses cores inner) :
    List.Forall₂ (ChecksSomewhere context) (clauses.map (·.2)) (cores.map (·.2)) := by
  induction checked with
  | nil => exact .nil
  | cons first _ ih => exact .cons ⟨_, first⟩ ih

/-- The parts of a checked expression are what its parts were checked as. -/
theorem Checks.parts {expr : Expr} {core : Core} (checked : Checks context scope expr core) :
    List.Forall₂ (ChecksSomewhere context) expr.children core.parts := by
  have all : ∀ {items : List Expr} {cores : List Core},
      List.Forall₂ (Checks context scope) items cores →
      List.Forall₂ (ChecksSomewhere context) items cores :=
    fun related => related.imp fun _ _ holds => ⟨scope, holds⟩
  -- The parts of clauses, and what stands behind them.
  have mapped : ∀ {α β : Type} {relation : α × Expr → β × Core → Prop}
      {items : List (α × Expr)} {cores : List (β × Core)},
      List.Forall₂ relation items cores →
      (∀ item core, relation item core → ChecksSomewhere context item.2 core.2) →
      List.Forall₂ (ChecksSomewhere context) (items.map (·.2)) (cores.map (·.2)) := by
    intro α β relation items cores related holds
    rw [List.forall₂_map_left_iff, List.forall₂_map_right_iff]
    exact related.imp holds
  have followed : ∀ {items : List Expr} {cores : List Core} {last : Expr} {lastCore : Core}
      {inner : Scope SourceTy},
      List.Forall₂ (ChecksSomewhere context) items cores → Checks context inner last lastCore →
      List.Forall₂ (ChecksSomewhere context) (items ++ [last]) (cores ++ [lastCore]) :=
    fun related holds => List.rel_append related (.cons ⟨_, holds⟩ .nil)
  cases checked.elaborates with
  | literal | var => exact .nil
  | set _ value _ => exact .cons ⟨_, value⟩ .nil
  | seq items => exact all items
  | logic items => exact items.imp fun _ _ holds => ⟨scope, holds.1⟩
  | when test _ body _ => exact .cons ⟨_, test⟩ (.cons ⟨_, body⟩ .nil)
  | cond test _ yes no _ => exact .cons ⟨_, test⟩ (.cons ⟨_, yes⟩ (.cons ⟨_, no⟩ .nil))
  | «while» test _ body => exact .cons ⟨_, test⟩ (.cons ⟨_, body⟩ .nil)
  | switch _ selector _ default arms =>
      exact followed (.cons ⟨_, selector⟩ (mapped arms fun _ _ holds => ⟨_, holds.checked⟩)) default
  | letPar clauses body =>
      exact followed (mapped clauses fun _ _ holds => ⟨_, holds.checked⟩) body
  | letSeq clauses body => exact followed clauses.somewhere body
  | letRec _ clauses body =>
      exact followed (mapped clauses fun _ _ holds => ⟨_, holds.checked⟩) body
  | loop clauses _ body _ _ =>
      exact followed (mapped clauses fun _ _ holds => ⟨_, holds.checked⟩) body
  | lambda body _ => exact .cons ⟨_, body⟩ .nil
  | invoke function _ args _ => exact .cons ⟨_, function⟩ (all args)
  | operation _ _ operands acts =>
      cases acts with
      | apply => exact all operands
      | member => exact all operands
  | tryCatch body handlers _ =>
      exact .cons ⟨_, body⟩ (mapped handlers fun _ _ holds => ⟨_, holds.checked⟩)
  | tryFinally body handlers final _ =>
      exact followed (.cons ⟨_, body⟩ (mapped handlers fun _ _ holds => ⟨_, holds.checked⟩)) final
  | pin arrays body _ =>
      exact followed (mapped arrays fun _ _ holds => ⟨_, holds.checked⟩) body

/-- A node and what it is checked as become the same type, if any. -/
theorem Checks.closureName? {expr : Expr} {core : Core}
    (checked : Checks context scope expr core) (host : Name) :
    (core.closure? host).map Closure.typeName = expr.closureName? host := by
  cases checked.elaborates with
  | operation isOperation _ _ acts =>
      cases acts <;> cases expr <;> first | rfl | cases isOperation
  | _ => rfl

/-- The types that the nodes of an expression become. -/
def closureNames (host : Name) (expr : Expr) : List Name :=
  expr.preorder.filterMap (closureName? host)

end Expr

/-- The types that the nodes of a checked expression become. -/
def Core.closureNames (host : Name) (core : Core) : List Name :=
  core.preorder.filterMap fun node => (node.closure? host).map Closure.typeName

theorem flatMap_eq_of_forall₂ {α β γ : Type} {relation : α → β → Prop} {left : List α}
    {right : List β} {first : α → List γ} {second : β → List γ}
    (related : List.Forall₂ relation left right)
    (same : ∀ item ∈ left, ∀ other, relation item other → second other = first item) :
    right.flatMap second = left.flatMap first := by
  induction related with
  | nil => rfl
  | cons holds _ ih =>
      rw [List.flatMap_cons, List.flatMap_cons, same _ List.mem_cons_self _ holds,
        ih (List.forall_mem_cons.mp same).2]

theorem filterMap_eq_of_forall₂ {α β γ : Type} {relation : α → β → Prop} {left : List α}
    {right : List β} {first : α → Option γ} {second : β → Option γ}
    (related : List.Forall₂ relation left right)
    (same : ∀ item other, relation item other → second other = first item) :
    right.filterMap second = left.filterMap first := by
  induction related with
  | nil => rfl
  | cons holds _ ih => rw [List.filterMap_cons, List.filterMap_cons, same _ _ holds, ih]

theorem forall₂_flatMap {α β γ δ : Type} {relation : α → β → Prop} {goal : γ → δ → Prop}
    {left : List α} {right : List β} {first : α → List γ} {second : β → List δ}
    (related : List.Forall₂ relation left right)
    (each : ∀ item ∈ left, ∀ other, relation item other →
      List.Forall₂ goal (first item) (second other)) :
    List.Forall₂ goal (left.flatMap first) (right.flatMap second) := by
  induction related with
  | nil => exact .nil
  | cons holds _ ih =>
      rw [List.flatMap_cons, List.flatMap_cons]
      exact List.rel_append (each _ List.mem_cons_self _ holds)
        (ih (List.forall_mem_cons.mp each).2)

section Checked

variable {context : TypeContext} {scope : Scope SourceTy} {expr : Expr} {core : Core}

/-- The nodes of a checked expression are what its nodes were checked as. -/
theorem Expr.Checks.nodes (checked : expr.Checks context scope core) :
    List.Forall₂ (ChecksSomewhere context) expr.preorder core.preorder := by
  induction expr using Expr.childInduction generalizing scope core with
  | _ expr ih =>
      rw [Expr.preorder_eq_cons, Core.preorder_eq_cons]
      refine .cons ⟨scope, checked⟩
        (forall₂_flatMap checked.parts fun child isChild part holds => ?_)
      obtain ⟨_, holds⟩ := holds
      exact ih child isChild holds

theorem Expr.ChecksSomewhere.closureName? (checked : ChecksSomewhere context expr core)
    (host : Name) : (core.closure? host).map Closure.typeName = expr.closureName? host := by
  obtain ⟨_, checked⟩ := checked
  exact checked.closureName? host

/-- Checking an expression keeps the types that its nodes become, in order. -/
theorem Expr.Checks.closureNames (checked : expr.Checks context scope core) (host : Name) :
    core.closureNames host = expr.closureNames host :=
  filterMap_eq_of_forall₂ checked.nodes fun _ _ holds => holds.closureName? host

end Checked

/-! ## Types of a class -/

/-- The types that a class is compiled to: its own, and those of the lambdas and loops in
its code. -/
def ClassDef.typeNames (cls : ClassDef) : List Name :=
  cls.name :: cls.roots.flatMap (Expr.closureNames cls.name)

/-- The types that a module is compiled to. -/
def Module.typeNames (module : Module) : List Name :=
  module.classes.flatMap ClassDef.typeNames

/-- Names of the types that a class makes. -/
def CoreClass.typeNames (core : CoreClass) : List Name :=
  core.name :: core.roots.flatMap (Core.closureNames core.name)

theorem flatMap_filterMap {α β γ : Type} (choose : α → Option β) (next : β → List γ)
    (items : List α) :
    (items.filterMap choose).flatMap next =
      items.flatMap fun item => (choose item).toList.flatMap next := by
  induction items with
  | nil => rfl
  | cons item items ih =>
      rw [List.filterMap_cons, List.flatMap_cons, ← ih]
      cases choose item <;> simp

/-- The expressions that checking a class goes over: those that are written in it, and that of a
constructor that is not. -/
def ClassDef.checkedRoots (cls : ClassDef) : List Expr :=
  cls.methods.filterMap MethodDef.body ++
    cls.allCtors.flatMap (fun ctor => ctor.baseArgs ++ [ctor.body]) ++
    cls.properties.flatMap fun property => property.getter.toList ++ property.setter.toList

/-- A constructor that is not written has nothing that something else could depend on. -/
theorem ClassDef.flatMap_checkedRoots {α : Type} (cls : ClassDef) (read : Expr → List α)
    (nothing : read (.seq []) = []) :
    (cls.checkedRoots.flatMap Expr.preorder).flatMap read =
      (cls.roots.flatMap Expr.preorder).flatMap read := by
  have ctors : ((cls.allCtors.flatMap fun ctor => ctor.baseArgs ++ [ctor.body]).flatMap
        Expr.preorder).flatMap read =
      ((cls.ctors.flatMap fun ctor => ctor.baseArgs ++ [ctor.body]).flatMap
        Expr.preorder).flatMap read := by
    unfold ClassDef.allCtors
    split
    · rename_i none
      have empty : cls.ctors = [] := List.isEmpty_iff.mp (Bool.and_eq_true_iff.mp none).1
      rw [empty]
      simp [CtorDef.implicit, Expr.preorder, Expr.preorderAll, nothing]
    · rfl
  simp only [roots, checkedRoots, List.flatMap_append, ctors]

namespace TypeContext

variable {context : TypeContext} {cls : ClassDef} {core : CoreClass}

theorem forall₂_of_rel {arguments : List Param} {ret : SourceTy} {body? : Option Expr}
    {routine? : Option Routine}
    (related : Option.Rel (ChecksRoutine context arguments ret) body? routine?) :
    List.Forall₂ (Expr.ChecksSomewhere context) body?.toList
      (routine?.toList.map Routine.body) := by
  cases related with
  | none => exact .nil
  | some holds => exact .cons ⟨_, holds.checked⟩ .nil

/-- The expressions of a checked class are what those of the class were checked as. -/
theorem ChecksClass.roots (checked : ChecksClass context cls core) :
    List.Forall₂ (Expr.ChecksSomewhere context) cls.checkedRoots core.roots := by
  have methods : List.Forall₂ (Expr.ChecksSomewhere context) (cls.methods.filterMap MethodDef.body)
      ((core.methods.filterMap CoreMethod.routine).map Routine.body) := by
    rw [List.filterMap_eq_flatMap_toList, List.filterMap_eq_flatMap_toList, List.map_flatMap]
    exact forall₂_flatMap checked.methods fun _ _ _ holds => forall₂_of_rel holds.routine
  have ctors : List.Forall₂ (Expr.ChecksSomewhere context)
      (cls.allCtors.flatMap fun ctor => ctor.baseArgs ++ [ctor.body])
      (core.ctors.flatMap fun ctor => ctor.routine.roots) :=
    forall₂_flatMap checked.ctors fun _ _ _ holds =>
      List.rel_append (holds.baseArgs.imp fun _ _ holds => ⟨_, holds⟩)
        (.cons ⟨_, holds.checked⟩ .nil)
  have properties : List.Forall₂ (Expr.ChecksSomewhere context)
      (cls.properties.flatMap fun property => property.getter.toList ++ property.setter.toList)
      (core.properties.flatMap fun property =>
        (property.getter.toList ++ property.setter.toList).map Routine.body) := by
    refine forall₂_flatMap checked.properties fun _ _ _ holds => ?_
    rw [List.map_append]
    exact List.rel_append (forall₂_of_rel holds.getter) (forall₂_of_rel holds.setter)
  exact List.rel_append (List.rel_append methods ctors) properties

/-- The nodes of a checked class are what the nodes of the class were checked as. -/
theorem ChecksClass.nodes (checked : ChecksClass context cls core) :
    List.Forall₂ (Expr.ChecksSomewhere context) (cls.checkedRoots.flatMap Expr.preorder)
      (Core.preorderAll core.roots) := by
  rw [Core.preorderAll_eq_flatMap]
  refine forall₂_flatMap checked.roots fun _ _ _ holds => ?_
  obtain ⟨_, holds⟩ := holds
  exact holds.nodes

/-- Checking a class keeps the types that it is compiled to. -/
theorem ChecksClass.typeNames (checked : ChecksClass context cls core) :
    core.typeNames = cls.typeNames := by
  have names : (Core.preorderAll core.roots).filterMap (fun node =>
        (node.closure? cls.name).map Closure.typeName) =
      (cls.checkedRoots.flatMap Expr.preorder).filterMap (Expr.closureName? cls.name) :=
    filterMap_eq_of_forall₂ checked.nodes fun _ _ holds => holds.closureName? cls.name
  rw [List.filterMap_eq_flatMap_toList _ (cls.checkedRoots.flatMap _),
    cls.flatMap_checkedRoots _ rfl, ← List.filterMap_eq_flatMap_toList, List.filterMap_flatMap,
    Core.preorderAll_eq_flatMap, List.filterMap_flatMap] at names
  rw [CoreClass.typeNames, ClassDef.typeNames, checked.name]
  exact congrArg _ names

end TypeContext

theorem Module.Accepted.typeNames {module : Module} {image : Image} {context : TypeContext}
    {program : Program} (accepted : module.Accepted image context program) :
    program.flatMap CoreClass.typeNames = module.typeNames :=
  flatMap_eq_of_forall₂ accepted.classes fun _ _ _ holds => holds.typeNames

/-! ## Completed types -/

/-- The type that a task completes. -/
def Task.completed? : Task → Option Name
  | complete name _ => some name
  | _ => none

theorem Task.eq_complete (completes : task.completed? = some name) :
    ∃ supertypes, task = .complete name supertypes := by
  cases task with
  | complete _ supertypes =>
      cases completes
      exact ⟨supertypes, rfl⟩
  | _ => cases completes

theorem Task.mem_outputs_of_completed? (completes : task.completed? = some name) :
    .completed name ∈ task.outputs := by
  cases task with
  | complete => simpa [Task.completed?, Task.outputs, eq_comm] using completes
  | _ => cases completes

theorem Task.completed?_of_mem_outputs (made : .completed name ∈ task.outputs) :
    task.completed? = some name := by
  cases task with
  | complete => simpa [Task.completed?, Task.outputs, eq_comm] using made
  | _ => simp [Task.outputs] at made

theorem Core.completed_liftedTasks (host : Name) (core : Core) :
    (core.liftedTasks host).filterMap Task.completed? =
      ((core.closure? host).map Closure.typeName).toList := by
  have ofClosure : ∀ closure : Closure, (closure.tasks host).filterMap Task.completed? =
      [closure.typeName] := by
    intro closure
    have fields : closure.fieldKeys.filterMap (Task.completed? ∘ fun key =>
        .declareField key .publicInstance) = [] := List.filterMap_eq_nil_iff.mpr fun _ _ => rfl
    simp only [Closure.tasks, List.cons_append, List.filterMap_cons, List.filterMap_append,
      List.filterMap_map, fields]
    rfl
  have ofBlock : ∀ block : Block, (block.tasks host).filterMap Task.completed? = [] :=
    fun _ => rfl
  unfold Core.liftedTasks
  rw [List.filterMap_append, List.filterMap_flatMap, List.filterMap_flatMap]
  cases core.closure? host <;> cases core.block? host <;> simp [ofClosure, ofBlock]

/-- Building a class completes the types that it is compiled to. -/
theorem CoreClass.completed_tasks (core : CoreClass) :
    (core.tasks.filterMap Task.completed?).Perm core.typeNames := by
  have methods : ∀ method : CoreMethod,
      (method.tasks core.name).filterMap Task.completed? = [] := by
    intro method
    cases isRoutine : method.routine <;> simp [CoreMethod.tasks, isRoutine, Task.completed?]
  have ctors : ∀ ctor : CoreCtor, (ctor.tasks core.name).filterMap Task.completed? = [] :=
    fun _ => rfl
  have properties : ∀ property : CoreProperty,
      (property.tasks core.name).filterMap Task.completed? = [] := by
    intro property
    cases isGetter : property.getter <;> cases isSetter : property.setter <;>
      simp [CoreProperty.tasks, CoreProperty.accessorTask?, CoreProperty.getterKey?,
        CoreProperty.setterKey?, isGetter, isSetter, Task.completed?]
  have fields : core.fields.filterMap (Task.completed? ∘ fun field =>
      .declareField (field.key core.name) field.attrs) = [] :=
    List.filterMap_eq_nil_iff.mpr fun _ _ => rfl
  have none : ∀ {α : Type} (items : List α), items.flatMap (fun _ => ([] : List Name)) = [] :=
    fun items => List.flatMap_eq_nil_iff.mpr fun _ _ => rfl
  have lifted : ∀ root : Core, root.preorder.flatMap (fun node =>
      ((node.closure? core.name).map Closure.typeName).toList) = root.closureNames core.name :=
    fun _ => (List.filterMap_eq_flatMap_toList ..).symm
  have whole : core.tasks.filterMap Task.completed? =
      core.roots.flatMap (Core.closureNames core.name) ++ [core.name] := by
    unfold CoreClass.tasks
    simp only [List.cons_append, List.filterMap_cons, List.filterMap_append,
      List.filterMap_flatMap, methods, ctors, properties, Core.completed_liftedTasks,
      List.filterMap_map, fields, none, Core.preorderAll_eq_flatMap, List.flatMap_assoc, lifted]
    rfl
  rw [whole]
  exact List.perm_append_singleton _ _

theorem Program.completed_tasks (program : Program) :
    (program.tasks.filterMap Task.completed?).Perm (program.flatMap CoreClass.typeNames) := by
  unfold Program.tasks
  rw [List.filterMap_flatMap]
  exact List.Perm.flatMap_left _ fun core _ => core.completed_tasks

/-- No type is completed twice. -/
theorem Schedule.Valid.typeNames_nodup {program : Program} {tailCalls : Bool}
    (valid : Schedule.Valid (program.steps tailCalls)) :
    (program.flatMap CoreClass.typeNames).Nodup := by
  rw [← program.completed_tasks.nodup_iff, List.Nodup, List.pairwise_filterMap]
  have disjoint : program.tasks.Pairwise fun first second =>
      Schedule.Disjoint (first.step tailCalls) (second.step tailCalls) :=
    List.pairwise_map.mp valid.disjoint
  refine disjoint.imp fun {first second} apart name completes other alsoCompletes => ?_
  rintro rfl
  exact apart (.completed name)
    (Task.mem_step_outputs.mpr (Task.mem_outputs_of_completed? completes))
    (Task.mem_step_outputs.mpr (Task.mem_outputs_of_completed? alsoCompletes))

end ClassForge
