import ClassForge.Proofs.Code.ProgramWeights
import ClassForge.Proofs.Typing.DeclarationOrder

/-!
# A compiled module keeps the stack balanced

Bodies come into the target of a build in two ways only: a method or a constructor is defined
with code that was generated from the build so far.  All of this code is balanced, and it
stays balanced while the target grows.  The main statement is `Module.compile_balanced`.
-/

namespace ClassForge

variable {attrs : MethodAttrs} {params : List RunTy} {body : Body}

/-! ## Where code comes from -/

/-- All code in an image was there before. -/
structure Image.KeepsCode (before after : Image) : Prop where
  methods : ∀ handle info body, after.method? handle = some info →
    info.implementation = .code body →
      ∃ earlier, before.method? handle = some earlier ∧ earlier.implementation = .code body
  ctors : ∀ handle info body, after.ctor? handle = some info →
    info.implementation = .code body →
      ∃ earlier, before.ctor? handle = some earlier ∧ earlier.implementation = .code body

namespace Image

variable {handle : TypeHandle}

section

variable {before middle after : Image}

theorem KeepsCode.of_eq (methods : after.methods = before.methods)
    (ctors : after.ctors = before.ctors) : before.KeepsCode after where
  methods handle info body found isCode := ⟨info, by rwa [method?, ← methods], isCode⟩
  ctors handle info body found isCode := ⟨info, by rwa [ctor?, ← ctors], isCode⟩

theorem KeepsCode.refl (image : Image) : image.KeepsCode image :=
  .of_eq rfl rfl

theorem KeepsCode.trans (first : before.KeepsCode middle) (second : middle.KeepsCode after) :
    before.KeepsCode after := by
  constructor
  · intro handle info body found isCode
    obtain ⟨between, isBetween, same⟩ := second.methods handle info body found isCode
    exact first.methods handle between body isBetween same
  · intro handle info body found isCode
    obtain ⟨between, isBetween, same⟩ := second.ctors handle info body found isCode
    exact first.ctors handle between body isBetween same

end

variable {image extended : Image} {owner : TypeHandle} {name : Name}

theorem declareType_keepsCode {attrs : TypeAttrs} {base : Option RunTy} {interfaces : List RunTy}
    (done : image.declareType name attrs base interfaces = .ok (handle, extended)) :
    image.KeepsCode extended := by
  obtain ⟨_, _, -, -, -, -, rfl⟩ := declareType_shape done
  exact .of_eq rfl rfl

theorem declareField_keepsCode {type : RunTy} {attrs : FieldAttrs} {handle : FieldHandle}
    (done : image.declareField owner name type attrs = .ok (handle, extended)) :
    image.KeepsCode extended := by
  obtain ⟨_, -, -, -, -, rfl⟩ := declareField_shape done
  exact .of_eq rfl rfl

theorem declareMethod_keepsCode {ret : RunTy} {handle : MethodHandle}
    (done : image.declareMethod owner name attrs params ret = .ok (handle, extended)) :
    image.KeepsCode extended := by
  obtain ⟨_, -, -, -, -, rfl⟩ := declareMethod_shape done
  refine ⟨fun handle info body found isCode => ⟨info, getElem?_of_push found ?_, isCode⟩,
    fun handle info body found isCode => ⟨info, found, isCode⟩⟩
  rintro rfl
  cases isCode

theorem declareCtor_keepsCode {handle : CtorHandle}
    (done : image.declareCtor owner params = .ok (handle, extended)) :
    image.KeepsCode extended := by
  obtain ⟨_, -, -, -, -, rfl⟩ := declareCtor_shape done
  refine ⟨fun handle info body found isCode => ⟨info, found, isCode⟩,
    fun handle info body found isCode => ⟨info, getElem?_of_push found ?_, isCode⟩⟩
  rintro rfl
  cases isCode

theorem declareProperty_keepsCode {type : RunTy} {getter setter : Option MethodHandle}
    {handle : PropertyHandle}
    (done : image.declareProperty owner name type getter setter = .ok (handle, extended)) :
    image.KeepsCode extended := by
  obtain ⟨_, -, -, -, -, rfl⟩ := declareProperty_shape done
  exact .of_eq rfl rfl

theorem sealType_keepsCode {realized : RealizedType}
    (done : image.sealType handle = .ok (realized, extended)) : image.KeepsCode extended := by
  obtain ⟨_, _, _, -, -, -, -, -, -, rfl⟩ := sealType_shape done
  exact .of_eq rfl rfl

end Image

theorem Task.accessor_keepsCode {accessor? : Option MethodKey} {owner : TypeHandle} {ret : RunTy}
    {handle? : Option MethodHandle}
    {state after : BuildState Image}
    (ran : (accessor?.mapM fun key => addMethod key owner attrs params ret).run state =
      .ok handle? after) : state.target.KeepsCode after.target := by
  rcases Build.optionMapM_eq_ok ran with ⟨-, -, rfl⟩ | ⟨key, handle, -, -, added⟩
  · exact .refl _
  · obtain ⟨target, resolution, declared, -, rfl⟩ := addMethod_ok added
    exact Image.declareMethod_keepsCode declared

/-- Tasks that define nothing add no code. -/
theorem Task.Carries.keepsCode {task : Task} {tailCalls : Bool} {state after : BuildState Image}
    (carried : task.Carries tailCalls state after)
    (noMethod : ∀ host key source, task ≠ .defineMethod host key source)
    (noCtor : ∀ host key source, task ≠ .defineCtor host key source) :
    state.target.KeepsCode after.target := by
  cases carried with
  | declareType _ _ declared _ => exact Image.declareType_keepsCode declared
  | declareField _ _ declared _ => exact Image.declareField_keepsCode declared
  | declareMethod _ _ _ declared =>
      obtain ⟨target, resolution, isDeclared, -, rfl⟩ := addMethod_ok declared
      exact Image.declareMethod_keepsCode isDeclared
  | declareCtor _ _ declared _ => exact Image.declareCtor_keepsCode declared
  | declareProperty _ _ getterAdded setterAdded declared _ =>
      exact (accessor_keepsCode getterAdded).trans
        ((accessor_keepsCode setterAdded).trans (Image.declareProperty_keepsCode declared))
  | defineMethod => exact (noMethod _ _ _ rfl).elim
  | defineCtor => exact (noCtor _ _ _ rfl).elim
  | complete _ completed _ => exact Image.sealType_keepsCode completed

/-! ## Balanced images -/

/-- All code that an image has more than another one is balanced. -/
structure Image.BalancedBeyond (base image : Image) : Prop where
  methods : ∀ handle info body, base.method? handle = none → image.method? handle = some info →
    info.implementation = .code body → ∃ depth, body.Balanced image info.ret.weight depth
  ctors : ∀ handle info body, base.ctor? handle = none → image.ctor? handle = some info →
    info.implementation = .code body → ∃ depth, body.Balanced image 0 depth

namespace Image

variable {base image extended : Image}
variable {depth : Nat → Nat}

theorem BalancedBeyond.keep (balanced : base.BalancedBeyond image)
    (growth : image.Extends extended) (keeps : image.KeepsCode extended) :
    base.BalancedBeyond extended := by
  constructor
  · intro handle info body isNew found isCode
    obtain ⟨earlier, isEarlier, wasCode⟩ := keeps.methods handle info body found isCode
    obtain ⟨later, isLater, grows⟩ := growth.methods _ earlier isEarlier
    obtain rfl := Option.some.inj (isLater.symm.trans found)
    obtain ⟨depth, agrees⟩ := balanced.methods handle earlier body isNew isEarlier wasCode
    rw [grows.ret]
    exact ⟨depth, agrees.of_extends growth⟩
  · intro handle info body isNew found isCode
    obtain ⟨earlier, isEarlier, wasCode⟩ := keeps.ctors handle info body found isCode
    obtain ⟨depth, agrees⟩ := balanced.ctors handle earlier body isNew isEarlier wasCode
    exact ⟨depth, agrees.of_extends growth⟩

/-- Defining a method with balanced code. -/
theorem BalancedBeyond.defineMethod (balanced : base.BalancedBeyond image) {handle : MethodHandle}
    {takes gives : Nat} (calls : image.Calls takes gives handle)
    (agrees : body.Balanced image gives depth)
    (done : image.defineMethod handle body = .ok extended) : base.BalancedBeyond extended := by
  have growth := defineMethod_extends done
  obtain ⟨defined, isDefined, -, weight⟩ := calls
  obtain ⟨_, _, -, -, -, rfl⟩ := defineMethod_shape done
  constructor
  · intro other info code isNew found isCode
    have found : (image.methods.modify handle.index _)[other.index]? = some info := found
    rw [Array.getElem?_modify] at found
    split at found
    · rename_i same
      have isDefined : image.methods[other.index]? = some defined := same ▸ isDefined
      rw [isDefined] at found
      cases found
      cases isCode
      exact ⟨depth, weight ▸ agrees.of_extends growth⟩
    · obtain ⟨depth, agrees⟩ := balanced.methods other info code isNew found isCode
      exact ⟨depth, agrees.of_extends growth⟩
  · intro other info code isNew found isCode
    obtain ⟨depth, agrees⟩ := balanced.ctors other info code isNew found isCode
    exact ⟨depth, agrees.of_extends growth⟩

theorem BalancedBeyond.defineCtor (balanced : base.BalancedBeyond image) {handle : CtorHandle}
    (agrees : body.Balanced image 0 depth) (done : image.defineCtor handle body = .ok extended)
    : base.BalancedBeyond extended := by
  have growth := defineCtor_extends done
  obtain ⟨_, _, -, -, -, rfl⟩ := defineCtor_shape done
  constructor
  · intro other info code isNew found isCode
    obtain ⟨depth, agrees⟩ := balanced.methods other info code isNew found isCode
    exact ⟨depth, agrees.of_extends growth⟩
  · intro other info code isNew found isCode
    have found : (image.ctors.modify handle.index _)[other.index]? = some info := found
    rw [Array.getElem?_modify] at found
    split at found
    · obtain ⟨earlier, -, rfl⟩ := Option.map_eq_some_iff.mp found
      cases isCode
      exact ⟨depth, agrees.of_extends growth⟩
    · obtain ⟨depth, agrees⟩ := balanced.ctors other info code isNew found isCode
      exact ⟨depth, agrees.of_extends growth⟩

end Image

/-! ## What tasks define -/

open Schedule

section

variable {module : Module} {image : Image} {context : TypeContext} {program : Program}
variable {tailCalls : Bool} {done : List (Step Image)} {state : BuildState Image}
variable {host : Name}

/-- The code of a result has a value, or the result is `Void`. -/
theorem TypeContext.ChecksRoutine.isVoid {arguments : List Param} {ret : SourceTy} {body : Expr}
    {routine : Routine} (checked : context.ChecksRoutine arguments ret body routine) :
    routine.ret.isVoid = false → routine.body.type.isVoid = false := by
  intro isValue
  rw [checked.returns] at isValue
  exact TypeContext.isVoid_of_isAssignable (checked.result.resolve_left (by simp [isValue])) isValue

/-- The body of a function has a value, or the function returns none. -/
theorem Core.Fits.closure {returns : MethodKey → SourceTy → Prop} {host : Name} {node : Core}
    {closure : Closure} (fits : node.Fits returns) (isClosure : node.closure? host = some closure) :
    closure.ret.isVoid = false → closure.body.type.isVoid = false := by
  have leaves := fits.leaves
  cases node with
  | lambda =>
      cases isClosure
      exact id
  | loop =>
      cases isClosure
      exact leaves.2.2
  | _ => cases isClosure

theorem Core.mem_parts_of_closure? {node : Core} {closure : Closure}
    (isClosure : node.closure? host = some closure) : closure.body ∈ node.parts := by
  cases node <;> cases isClosure
  · exact List.mem_append_right _ (List.mem_singleton_self _)
  · exact List.mem_singleton_self _

/-- The base of a class is a type of values. -/
theorem Module.VoidOnlyReturned.baseType {cls : ClassDef} (returned : module.VoidOnlyReturned)
    (isClass : cls ∈ module.classes) : cls.baseType.isVoidFree = true := by
  cases base : cls.base with
  | none =>
      rw [ClassDef.baseType, base]
      rfl
  | some type =>
      have mentioned : type ∈ cls.valueTypes := by simp [ClassDef.valueTypes, base]
      simpa [ClassDef.baseType, base] using (returned cls isClass).1 type mentioned

variable (accepted : module.Accepted image context program) (built : image.Built)
variable (returned : module.VoidOnlyReturned) (binds : program.BindsValues)
variable (valid : Valid (program.steps tailCalls))
variable (runs : Runs (program.steps tailCalls) (.initial image) done state)
include accepted built returned binds valid runs

/-- The code of a method that a task defines is balanced, for the result that the method is
declared with. -/
theorem Module.Accepted.defineMethod_balanced {key : MethodKey} {source : MethodSource}
    (isTask : .defineMethod host key source ∈ program.tasks)
    (generated : source.code ⟨state.target, state.resolution, host, tailCalls⟩ = .ok body) :
    ∃ ret, program.Returns key ret ∧ ∃ depth, body.Balanced state.target ret.weight depth := by
  obtain ⟨cls, -, core, isCore, checked, isPlanned⟩ := accepted.exists_class isTask
  have ofTask : ∀ {task : Task} {ret : SourceTy}, core.Plans task → task.Declares key ret →
      program.Returns key ret :=
    fun isPlanned declares => ⟨_, CoreClass.mem_program_tasks isCore isPlanned, declares⟩
  have raises : ∀ {node : Core}, node ∈ Core.preorderAll core.roots → ∀ result,
      node.Raises ⟨state.target, state.resolution, core.name, tailCalls⟩ result :=
    accepted.raises built returned binds valid runs isCore
  have raisesRoot : ∀ {root : Core}, root ∈ core.roots → ∀ result,
      root.Raises ⟨state.target, state.resolution, core.name, tailCalls⟩ result :=
    fun isRoot => raises (Core.preorder_subset_preorderAll isRoot (Core.mem_preorder_self _))
  have fits : ∀ {node : Core}, node ∈ Core.preorderAll core.roots → node.Fits program.Returns :=
    accepted.fits built returned binds isCore
  cases isPlanned with
  | methodCode isMethod isRoutine =>
      obtain ⟨definition, -, holds⟩ := exists_related_left checked.methods isMethod
      obtain ⟨expr, checks⟩ := TypeContext.exists_of_rel_some holds.routine isRoutine
      exact ⟨_, ofTask (.method isMethod) ⟨rfl, holds.returns.trans checks.returns.symm⟩,
        Routine.code_balanced (raisesRoot (CoreClass.mem_roots_of_method isMethod isRoutine) _)
          checks.isVoid generated⟩
  | getterCode isProperty isKey isRoutine =>
      obtain ⟨definition, -, holds⟩ := exists_related_left checked.properties isProperty
      obtain ⟨expr, checks⟩ := TypeContext.exists_of_rel_some holds.getter isRoutine
      refine ⟨_, ofTask (.property isProperty) (.inl ⟨isKey, ?_⟩), Routine.code_balanced
        (raisesRoot (CoreClass.mem_roots_of_accessor isProperty (.inl isRoutine)) _) checks.isVoid
        generated⟩
      rw [checks.returns, holds.key]
      rfl
  | setterCode isProperty isKey isRoutine =>
      obtain ⟨definition, -, holds⟩ := exists_related_left checked.properties isProperty
      obtain ⟨expr, checks⟩ := TypeContext.exists_of_rel_some holds.setter isRoutine
      exact ⟨_, ofTask (.property isProperty) (.inr ⟨isKey, checks.returns⟩), Routine.code_balanced
        (raisesRoot (CoreClass.mem_roots_of_accessor isProperty (.inr isRoutine)) _) checks.isVoid
        generated⟩
  | closure isNode isClosure isTask =>
      cases isTask
      have inside := checked.preorder_subset isNode (Core.mem_preorder_of_mem_parts
        (Core.mem_parts_of_closure? isClosure) (Core.mem_preorder_self _))
      exact ⟨_, ofTask (.closure isNode isClosure .invoke) ⟨rfl, rfl⟩, Closure.invokeCode_balanced
        (raises inside _) ((fits isNode).closure isClosure) generated⟩
  | blockCode isNode isBlock =>
      obtain ⟨rfl, -⟩ := core_of_block? isBlock
      refine ⟨_, CoreClass.returns_block isCore isNode isBlock, Block.code_balanced isBlock
        (fun part isPart => raises (checked.preorder_subset isNode
          (Core.mem_preorder_of_mem_parts isPart (Core.mem_preorder_self _))) _)
        (fits isNode).branches generated⟩

/-- So is the code of a constructor, which leaves nothing. -/
theorem Module.Accepted.defineCtor_balanced {key : CtorKey} {source : CtorSource}
    (isTask : .defineCtor host key source ∈ program.tasks)
    (generated : source.code ⟨state.target, state.resolution, host, tailCalls⟩ = .ok body) :
    ∃ depth, body.Balanced state.target 0 depth := by
  obtain ⟨cls, isClass, core, isCore, checked, isPlanned⟩ := accepted.exists_class isTask
  have sound := accepted.sound built valid runs core.name
  have voidFree : context.VoidFree := ⟨accepted.voidFree returned, accepted.image ▸ built⟩
  cases isPlanned with
  | @ctorCode ctor isCtor =>
      obtain ⟨definition, -, holds⟩ := exists_related_left checked.ctors isCtor
      have raises : ∀ {root : Core}, root ∈ ctor.routine.roots →
          root.Raises ⟨state.target, state.resolution, core.name, tailCalls⟩ 0 := fun isRoot =>
        accepted.raises built returned binds valid runs isCore (Core.preorder_subset_preorderAll
          (CoreClass.mem_roots_of_ctor isCtor isRoot) (Core.mem_preorder_self _)) 0
      refine CtorRoutine.code_balanced sound (raises (List.mem_append_right _ List.mem_cons_self))
        (fun base isBase => ?_) generated
      have selected := holds.base base isBase
      have params := voidFree.ctorCandidates (returned.baseType isClass)
        (TypeContext.mem_of_select selected)
      have values := TypeContext.isVoid_of_select selected params
      refine ⟨?_, fun arg isArg => (raises (List.mem_append_left _ isArg)).pushes
        (values _ (List.mem_map_of_mem isArg))⟩
      rw [(TypeContext.select_takes selected).1, List.length_map]
  | closure _ _ isTask =>
      cases isTask
      exact Closure.ctorCode_balanced generated

/-! ## Whole builds -/

/-- Carrying out a task keeps all code that was added balanced. -/
theorem Module.Accepted.action_balanced {task : Task} {after : BuildState Image}
    (isTask : task ∈ program.tasks) (balanced : image.BalancedBeyond state.target)
    (ran : (task.action tailCalls).run state = .ok () after) :
    image.BalancedBeyond after.target := by
  have growth := (Task.action_moves ran).1.extends'
  have other : (∀ host key source, task ≠ .defineMethod host key source) →
      (∀ host key source, task ≠ .defineCtor host key source) →
      image.BalancedBeyond after.target := fun noMethod noCtor =>
    balanced.keep growth.target ((Task.carried ran).keepsCode noMethod noCtor)
  cases Task.carried ran with
  | @defineMethod host _ _ _ _ _ generated isMethod defined =>
      obtain ⟨ret, declared, depth, agrees⟩ :=
        accepted.defineMethod_balanced built returned binds valid runs isTask generated
      exact balanced.defineMethod
        ((accepted.sound built valid runs host).method isMethod ret declared) agrees
        defined
  | defineCtor generated isCtor defined =>
      obtain ⟨depth, agrees⟩ :=
        accepted.defineCtor_balanced built returned binds valid runs isTask generated
      exact balanced.defineCtor agrees defined
  | _ => exact other (by simp) (by simp)

end

/-- Wherever a build has got to, all code that it has added is balanced. -/
theorem Module.Accepted.balancedBeyond {module : Module} {image : Image} {context : TypeContext}
    {program : Program} {tailCalls : Bool} {done : List (Step Image)} {state : BuildState Image}
    (accepted : module.Accepted image context program) (built : image.Built)
    (returned : module.VoidOnlyReturned) (binds : program.BindsValues)
    (valid : Valid (program.steps tailCalls))
    (runs : Runs (program.steps tailCalls) (.initial image) done state) :
    image.BalancedBeyond state.target := by
  induction runs with
  | start => exact ⟨fun _ _ _ isNew found => (by cases isNew.symm.trans found),
      fun _ _ _ isNew found => (by cases isNew.symm.trans found)⟩
  | step runs turn ran ih =>
      obtain ⟨task, isTask, rfl⟩ := Program.mem_steps.mp turn.member
      exact accepted.action_balanced built returned binds valid runs isTask ih
        (runStep_eq_ok ran).1

/-- Compiling a module that mentions `Void` for results only, and binds names to values only,
touches no code that was there, and adds balanced code only: there are depths for the
positions of every new body that agree with every way that control can go.  Wherever the
build has got to, the code of every expression raises the depth by one if the expression has
a value, and leaves it as it is otherwise. -/
theorem Module.compile_balanced {module : Module} {image after : Image} {program : Program}
    {options : CompileOptions} {compiled : CompiledModule} (built : image.Built)
    (returned : module.VoidOnlyReturned) (checked : module.check image = .ok program)
    (binds : program.BindsValues)
    (done : module.compile options image = (.ok compiled, after)) :
    image.Unchanged after ∧ image.BalancedBeyond after ∧
    ∀ order state, Runs (program.steps options.tailCalls) (.initial image) order state →
      ∀ cls ∈ program, ∀ node ∈ Core.preorderAll cls.roots, ∀ result,
        node.Raises ⟨state.target, state.resolution, cls.name, options.tailCalls⟩ result := by
  obtain ⟨context, accepted⟩ := Module.accepted_of_check checked
  rw [Module.compile_of_check checked] at done
  obtain ⟨state, -, rfl, valid, ⟨order, runs, -⟩, moves, -⟩ := Program.build_realized done
  refine ⟨(moves.beyond (BuildState.beyond_initial image)).unchanged,
    accepted.balancedBeyond built returned binds valid runs,
    fun order state runs cls isCore node isNode result => ?_⟩
  exact accepted.raises built returned binds valid runs isCore isNode result

theorem Module.counter_compile_balanced :
    Image.library.Built ∧ Module.counter.VoidOnlyReturned ∧ ∃ program compiled after,
      Module.counter.check .library = .ok program ∧ program.BindsValues ∧
      Module.counter.compile {} .library = (.ok compiled, after) ∧
      ∃ handle info body depth, Image.library.method? handle = none ∧
        after.method? handle = some info ∧ info.implementation = .code body ∧
        body.Balanced after 1 depth := by
  have returned : Module.counter.VoidOnlyReturned := by decide +kernel
  obtain ⟨program, checked⟩ := exists_ok_of_isOk Module.counter_isOk
  have binds : (Module.counter.check .library).toOption.all
      (fun program => decide program.BindsValues) = true := by decide +kernel
  rw [checked] at binds
  have evaluates : Image.library.method? ⟨56⟩ = none ∧
      ((Module.counter.compile {} .library).2.method? ⟨56⟩).any
        (fun info => info.ret.weight == 1 && info.implementation.body?.isSome) = true := by
    decide +kernel
  obtain ⟨isNew, isNext⟩ := evaluates
  obtain ⟨compiled, done⟩ := Module.counter_compiles
  obtain ⟨-, balanced, -⟩ :=
    Module.compile_balanced .library returned checked (of_decide_eq_true binds) done
  obtain ⟨info, isInfo, isNext⟩ := (Option.any_eq_true _ _).mp isNext
  obtain ⟨givesOne, hasBody⟩ := Bool.and_eq_true_iff.mp isNext
  obtain ⟨body, isBody⟩ := Option.isSome_iff_exists.mp hasBody
  have isCode : info.implementation = .code body := by
    cases code : info.implementation <;> rw [code] at isBody <;> cases isBody
    rfl
  obtain ⟨depth, agrees⟩ := balanced.methods _ info body isNew isInfo isCode
  rw [beq_iff_eq.mp givesOne] at agrees
  exact ⟨.library, returned, program, compiled, _, checked, of_decide_eq_true binds, done, _, info,
    body, depth, isNew, isInfo, isCode, agrees⟩

end ClassForge
