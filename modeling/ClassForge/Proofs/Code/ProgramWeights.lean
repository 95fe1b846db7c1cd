import ClassForge.Proofs.Build.Dependencies
import ClassForge.Proofs.Code.BalancedBodies

/-!
# Weights throughout a program

The tasks of an accepted program declare every method that its code calls, with what the
method returns.  So every node of a program that mentions `Void` for results only, and binds
names to values only, fits what the tasks declare; and code that is generated during a build
is right about the members whose handles it finds.
-/

namespace ClassForge

/-! ## What tasks declare -/

/-- A task declares a method that returns a type. -/
def Task.Declares (key : MethodKey) (ret : SourceTy) : Task → Prop
  | declareMethod method _ type => method = key ∧ type = ret
  | declareProperty property =>
      key ∈ property.getterKey? ∧ ret = property.key.type ∨
        key ∈ property.setterKey? ∧ ret = .void
  | _ => False

/-- Some task of a program declares a method that returns a type. -/
def Program.Returns (program : Program) (key : MethodKey) (ret : SourceTy) : Prop :=
  ∃ task ∈ program.tasks, task.Declares key ret

/-- The keys of declared methods agree with how they are declared. -/
def Task.Keyed : Task → Prop
  | declareMethod key attrs _ => attrs.isStatic = !key.isInstance
  | declareProperty property => property.key.indexParams = []
  | _ => True

theorem Task.Declares.mem_outputs {task : Task} {key : MethodKey} {ret : SourceTy}
    (declares : task.Declares key ret) : .method key ∈ task.outputs := by
  cases task with
  | declareMethod =>
      obtain ⟨rfl, -⟩ := declares
      exact List.mem_singleton_self _
  | declareProperty property =>
      refine List.mem_cons_of_mem _ (List.mem_map_of_mem (List.mem_append.mpr ?_))
      rcases declares with ⟨isGetter, -⟩ | ⟨isSetter, -⟩
      · exact .inl (Option.mem_toList.mpr isGetter)
      · exact .inr (Option.mem_toList.mpr isSetter)
  | _ => cases declares

section

variable {module : Module} {image : Image} {context : TypeContext} {program : Program}

/-- The methods that are declared in a module are declared by tasks. -/
theorem Module.Accepted.returns (accepted : module.Accepted image context program)
    {key : MethodKey} {ret : SourceTy} (returns : context.symbols.Returns key ret) :
    program.Returns key ret := by
  obtain ⟨attrs, entry⟩ := returns
  obtain ⟨cls, isClass, declared⟩ := accepted.mem_entries entry
  obtain ⟨core, isCore, checked⟩ := exists_related_right accepted.classes isClass
  have ofTask : ∀ {task}, core.Plans task → task.Declares key ret → program.Returns key ret :=
    fun isPlanned declares => ⟨_, CoreClass.mem_program_tasks isCore isPlanned, declares⟩
  rcases ClassDef.mem_declarations.mp declared with ⟨⟨⟩, -⟩ | ⟨_, -, ⟨⟩, -⟩ |
    ⟨method, isMethod, same, isDecl⟩ | ⟨_, -, ⟨⟩, -⟩ | ⟨property, isProperty, ofProperty⟩
  · cases same
    cases isDecl
    obtain ⟨method, isMethod, holds⟩ := exists_related_right checked.methods isMethod
    exact ofTask (.method isMethod) ⟨holds.key, holds.returns⟩
  · obtain ⟨accessed, isAccessed, holds⟩ := exists_related_right checked.properties isProperty
    rcases ClassDef.mem_ofProperty.mp ofProperty with ⟨⟨⟩, -⟩ | ⟨getter, isGetter, same, isDecl⟩ |
      ⟨setter, isSetter, same, isDecl⟩
    · cases same
      cases isDecl
      refine ofTask (.property isAccessed) (.inl ⟨?_, ?_⟩)
      · rwa [getterKey?_eq holds]
      · rw [holds.key]
        rfl
    · cases same
      cases isDecl
      refine ofTask (.property isAccessed) (.inr ⟨?_, rfl⟩)
      rwa [setterKey?_eq holds]

/-- The blocks of a program are declared by tasks. -/
theorem CoreClass.returns_block {cls : CoreClass} {node : Core} {block : Block}
    (isClass : cls ∈ program)
    (isNode : node ∈ Core.preorderAll cls.roots)
    (isBlock : node.block? cls.name = some block) : program.Returns block.key block.ret :=
  ⟨_, CoreClass.mem_program_tasks isClass (.block isNode isBlock), rfl, rfl⟩

/-- The keys of the methods that tasks declare say whether these take a receiver, and
accessors take no more than what they read or write. -/
theorem Module.Accepted.keyed (accepted : module.Accepted image context program) {task : Task}
    (isTask : task ∈ program.tasks) : task.Keyed := by
  obtain ⟨cls, -, core, isCore, checked, isPlanned⟩ := accepted.exists_class isTask
  cases isPlanned with
  | @method method isMethod =>
      obtain ⟨definition, -, holds⟩ := exists_related_left checked.methods isMethod
      change method.attrs.isStatic = !method.key.isInstance
      rw [holds.key, holds.attrs]
      unfold ClassDef.methodAttrs MethodDef.key
      split <;> simp
  | property isProperty =>
      obtain ⟨definition, -, holds⟩ := exists_related_left checked.properties isProperty
      exact congrArg PropertyKey.indexParams holds.key
  | closure _ _ isTask => cases isTask <;> trivial
  | _ => trivial

/-! ## Nodes of a program -/

theorem MemberUse.Leaves.imp {returns other : MethodKey → SourceTy → Prop} {use : MemberUse}
    {operands result : Nat} (leaves : use.Leaves returns operands result)
    (implies : ∀ key ret, returns key ret → other key ret) :
    use.Leaves other operands result := by
  cases use with
  | call | write =>
      obtain ⟨count, weight, isKnown⟩ := leaves
      exact ⟨count, weight, isKnown.imp implies⟩
  | _ => exact leaves

theorem Core.Fits.imp {returns other : MethodKey → SourceTy → Prop} {core : Core}
    (fits : core.Fits returns) (implies : ∀ key ret, returns key ret → other key ret) :
    core.Fits other := by
  refine ⟨fits.operands, fits.branches, ?_⟩
  have leaves := fits.leaves
  cases core with
  | member => exact MemberUse.Leaves.imp leaves implies
  | _ => exact leaves

/-- No variable that `let`, `let*` or `lambda` binds in a program is of type `Void`. -/
def Program.BindsValues (program : Program) : Prop :=
  ∀ cls ∈ program, ∀ root ∈ cls.roots, root.BindsValues

instance (program : Program) : Decidable program.BindsValues :=
  inferInstanceAs (Decidable (∀ _ ∈ _, ∀ _ ∈ _, ∀ _ ∈ _, ∀ _ ∈ _, _ = false))

/-- The arguments and the expressions of a member mention `Void` for results only. -/
theorem Module.VoidOnlyReturned.code {cls : ClassDef} (returned : module.VoidOnlyReturned)
    (isClass : cls ∈ module.classes) {code : MemberCode} (isCode : code ∈ cls.code) :
    (∀ argument ∈ code.arguments, argument.type.isVoidFree = true) ∧
      ∀ root ∈ code.roots, ∀ node ∈ root.preorder, node.VoidOnlyReturned := by
  obtain ⟨values, -, nodes⟩ := returned cls isClass
  have arguments : ∀ {isStatic params}, (∀ param ∈ params, param.type.isVoidFree = true) →
      ∀ argument ∈ cls.arguments isStatic params, argument.type.isVoidFree = true := by
    intro isStatic params areFree argument isArgument
    unfold ClassDef.arguments at isArgument
    split at isArgument
    · exact areFree argument isArgument
    · rcases List.mem_cons.mp isArgument with rfl | isParam
      · rfl
      · exact areFree argument isParam
  have inRoots : ∀ root ∈ cls.roots, ∀ node ∈ root.preorder, node.VoidOnlyReturned := by
    intro root isRoot node isNode
    obtain ⟨valueTypes, resultTypes⟩ := nodes node (List.mem_flatMap.mpr ⟨root, isRoot, isNode⟩)
    exact ⟨valueTypes, resultTypes⟩
  have ofBody : ∀ {args : List Param} {body : Option Expr},
      code ∈ body.toList.map (MemberCode.ofBody args) →
      (∀ argument ∈ args, argument.type.isVoidFree = true) →
      (∀ root ∈ body, root ∈ cls.roots) →
      (∀ argument ∈ code.arguments, argument.type.isVoidFree = true) ∧
        ∀ root ∈ code.roots, ∀ node ∈ root.preorder, node.VoidOnlyReturned := by
    intro args body present areFree isRoot
    obtain ⟨root, found, rfl⟩ := List.mem_map.mp present
    refine ⟨areFree, fun other isOther => inRoots other ?_⟩
    rw [List.mem_singleton.mp isOther]
    exact isRoot root (Option.mem_toList.mp found)
  have mentioned : ∀ {params : List Param}, (∀ param ∈ params, param.type ∈ cls.valueTypes) →
      ∀ param ∈ params, param.type.isVoidFree = true :=
    fun listed param isParam => values _ (listed param isParam)
  simp only [ClassDef.code, List.mem_append, List.mem_flatMap] at isCode
  rcases isCode with (⟨method, isMethod, present⟩ | present) | ⟨property, isProperty, present⟩
  · refine ofBody present (arguments (mentioned fun param isParam => ?_)) fun root isRoot => ?_
    · simp only [ClassDef.valueTypes, List.mem_append, List.mem_flatMap]
      exact .inl (.inl (.inr ⟨method, isMethod, List.mem_map_of_mem isParam⟩))
    · exact List.mem_append_left _ (List.mem_append_left _
        (List.mem_filterMap.mpr ⟨method, isMethod, isRoot⟩))
  · obtain ⟨ctor, isCtor, rfl⟩ := List.mem_map.mp present
    unfold ClassDef.allCtors at isCtor
    split at isCtor
    · obtain rfl := List.mem_singleton.mp isCtor
      refine ⟨@arguments false [] (List.forall_mem_nil _), fun root isRoot node isNode => ?_⟩
      rw [List.mem_singleton.mp isRoot] at isNode
      rw [List.mem_singleton.mp isNode]
      exact ⟨List.forall_mem_nil _, List.forall_mem_nil _⟩
    · refine ⟨@arguments false ctor.params (mentioned fun param isParam => ?_),
        fun root isRoot => inRoots root ?_⟩
      · simp only [ClassDef.valueTypes, List.mem_append, List.mem_flatMap]
        exact .inl (.inr ⟨ctor, isCtor, List.mem_map_of_mem isParam⟩)
      · exact List.mem_append_left _ (List.mem_append_right _
          (List.mem_flatMap.mpr ⟨ctor, isCtor, isRoot⟩))
  · have isFree : property.type.isVoidFree = true :=
      values _ (List.mem_append_right _ (List.mem_map_of_mem isProperty))
    have accessor : ∀ root ∈ property.getter.toList ++ property.setter.toList, root ∈ cls.roots :=
      fun root isRoot =>
        List.mem_append_right _ (List.mem_flatMap.mpr ⟨property, isProperty, isRoot⟩)
    rcases present with present | present
    · exact ofBody present (arguments (List.forall_mem_nil _)) fun root isRoot =>
        accessor root (List.mem_append_left _ (Option.mem_toList.mpr isRoot))
    · refine ofBody present (arguments fun param isParam => ?_) fun root isRoot =>
        accessor root (List.mem_append_right _ (Option.mem_toList.mpr isRoot))
      rw [List.mem_singleton.mp isParam]
      exact isFree

theorem Scope.exists_of_get?_ofParams {arguments : List Param} {name : Name} {type : SourceTy}
    (found : (Scope.ofParams arguments).get? name = some type) :
    ∃ argument ∈ arguments, argument.type = type := by
  have scope : Scope.ofParams arguments = Scope.empty.declare
      (arguments.map fun param => ⟨param.name, param.type, .empty⟩) := by
    simp [Scope.ofParams, Scope.declare, Function.comp_def]
  rw [scope] at found
  rcases Scope.exists_of_get?_declare found with ⟨⟨⟩⟩ | ⟨bound, isBound, rfl⟩
  obtain ⟨argument, isArgument, rfl⟩ := List.mem_map.mp isBound
  exact ⟨argument, isArgument, rfl⟩

/-- Every node of an accepted program fits what its tasks declare, if `Void` is mentioned for
results only and names are bound to values only. -/
theorem Module.Accepted.fits (accepted : module.Accepted image context program)
    (built : image.Built) (returned : module.VoidOnlyReturned) (binds : program.BindsValues)
    {cls : CoreClass} (isCore : cls ∈ program) {node : Core}
    (isNode : node ∈ Core.preorderAll cls.roots) : node.Fits program.Returns := by
  obtain ⟨source, isClass, checked⟩ := exists_related_left accepted.classes isCore
  rw [Core.preorderAll_eq_flatMap] at isNode
  obtain ⟨root, isRoot, inRoot⟩ := List.mem_flatMap.mp isNode
  obtain ⟨code, isCode, expr, isExpr, rootChecked⟩ := checked.exists_code isRoot
  obtain ⟨arguments, nodes⟩ := returned.code isClass isCode
  have voidFree : context.VoidFree :=
    ⟨accepted.voidFree returned, accepted.image ▸ built⟩
  have start : Checkpoint.Accepted context ⟨.ofParams code.arguments, expr, root⟩ := rootChecked
  have free : Checkpoint.VoidFree ⟨.ofParams code.arguments, expr, root⟩ := by
    refine ⟨fun name type found => ?_, nodes expr isExpr, binds cls isCore root isRoot⟩
    obtain ⟨argument, isArgument, rfl⟩ := Scope.exists_of_get?_ofParams found
    exact arguments argument isArgument
  exact (free.fits voidFree start inRoot).imp fun _ _ => accepted.returns

/-! ## Generating code during a build -/

open Schedule

variable {tailCalls : Bool} {done : List (Step Image)} {state : BuildState Image}

/-- A key that is resolved was made by a task that is realized. -/
theorem Module.Accepted.exists_realized (accepted : module.Accepted image context program)
    (built : image.Built)
    (valid : Valid (program.steps tailCalls))
    {target : Image}
    (runs : Runs (program.steps tailCalls) (.initial target) done state)
    {key : Key} {resolved : Resolved} (found : state.resolution.get? key = some resolved) :
    ∃ task ∈ program.tasks, key ∈ task.outputs ∧ task.Realized state := by
  obtain ⟨step, isDone, made⟩ :=
    ((accepted.consistent built valid runs).present key).mp (Option.isSome_of_eq_some found)
  obtain ⟨task, isTask, rfl, realized⟩ := runs.realized.2 step isDone
  exact ⟨task, isTask, Task.mem_step_outputs.mp made, realized⟩

theorem BuildState.HoldsMethod.calls {key : MethodKey} {attrs : MethodAttrs}
    {params : List SourceTy} {ret : SourceTy} {handle : MethodHandle}
    (holds : state.HoldsMethod key attrs params ret)
    (found : state.resolution.method key = .ok handle) :
    state.target.Calls (params.length + (!attrs.isStatic).toNat) ret.weight handle := by
  obtain ⟨owner, info, other, method, -, -, -, isHandle, isMethod, -, rfl, areParams, isRet⟩ :=
    holds
  obtain rfl := Except.ok.inj (isHandle.symm.trans found)
  refine ⟨method, isMethod, ?_, Ty.weight_of_isVoid_eq (Ty.isVoid_of_resolve isRet)⟩
  rw [Ty.length_of_resolveList areParams]

/-- Code that is generated during a build is right about the members that it names. -/
theorem Module.Accepted.sound (accepted : module.Accepted image context program)
    (built : image.Built)
    (valid : Valid (program.steps tailCalls))
    (runs : Runs (program.steps tailCalls) (.initial image) done state) (host : Name) :
    LowerContext.Sound ⟨state.target, state.resolution, host, tailCalls⟩ program.Returns := by
  have isBuilt : state.target.Built := runs.realized.1.built built
  refine ⟨isBuilt, ?_, ?_⟩
  · rintro key handle found ret ⟨task, isTask, declares⟩
    obtain ⟨other, isOther, made, realized⟩ :=
      accepted.exists_realized built valid runs (Resolution.method_eq_ok.mp found)
    obtain rfl := valid.task_eq isTask isOther declares.mem_outputs made
    have keyed := accepted.keyed isTask
    cases task with
    | declareMethod method attrs type =>
        obtain ⟨rfl, rfl⟩ := declares
        have calls := BuildState.HoldsMethod.calls realized found
        rwa [show attrs.isStatic = !method.isInstance from keyed, Bool.not_not] at calls
    | declareProperty property =>
        have noParams : property.key.indexParams = [] := keyed
        obtain ⟨-, getter, setter⟩ := realized
        rcases declares with ⟨isKey, rfl⟩ | ⟨isKey, rfl⟩
        · have calls := (getter key isKey).calls found
          obtain ⟨_, -, rfl⟩ := Option.map_eq_some_iff.mp isKey
          simpa [PropertyKey.getter, noParams, MethodAttrs.generated] using calls
        · have calls := (setter key isKey).calls found
          obtain ⟨_, -, rfl⟩ := Option.map_eq_some_iff.mp isKey
          simpa [PropertyKey.setter, noParams, MethodAttrs.generated] using calls
    | _ => cases declares
  · intro key handle found
    obtain ⟨task, isTask, made, realized⟩ :=
      accepted.exists_realized built valid runs (Resolution.ctor_eq_ok.mp found)
    have isCtor : task = .declareCtor key := by
      cases task <;> simp_all [Task.outputs]
    subst isCtor
    obtain ⟨owner, info, other, ctor, -, -, -, isHandle, isCtor, areParams⟩ := realized
    obtain rfl := Except.ok.inj (isHandle.symm.trans found)
    exact ⟨ctor, isCtor, Ty.length_of_resolveList areParams⟩

/-- The code of every node of a program raises the depth of the stack by what its type stands
for, when it is generated during a build. -/
theorem Module.Accepted.raises (accepted : module.Accepted image context program)
    (built : image.Built) (returned : module.VoidOnlyReturned) (binds : program.BindsValues)
    (valid : Valid (program.steps tailCalls))
    (runs : Runs (program.steps tailCalls) (.initial image) done state)
    {cls : CoreClass} (isCore : cls ∈ program) {node : Core}
    (isNode : node ∈ Core.preorderAll cls.roots) (result : Nat) :
    node.Raises ⟨state.target, state.resolution, cls.name, tailCalls⟩ result := by
  obtain ⟨source, isClass, checked⟩ := exists_related_left accepted.classes isCore
  have inside := checked.preorder_subset isNode
  refine Core.raises (accepted.sound built valid runs cls.name) node
    (fun inner isInner => accepted.fits built returned binds isCore (inside isInner))
    fun inner isInner block isBlock => ?_
  exact CoreClass.returns_block isCore (inside isInner) isBlock

end

end ClassForge
