import ClassForge.Proofs.Build.DefinedMethods
import ClassForge.Proofs.Image.FieldLayout
import ClassForge.Proofs.Simulation.SimulatedExpressions

/-!
# Functions of compiled modules

A build that came to its end has made a class for every lambda and every loop of its program.  The
class has a field of its own for each captured variable, and the code of its constructor and of its
method was generated during the build.
-/

namespace ClassForge

open Schedule

/-- The variables that a function captures are told apart by their names. -/
theorem Expr.Checks.captures_apart {context : TypeContext} {types : Scope SourceTy} {expr : Expr}
    {node : Core} {host : Name} {closure : Closure} (checked : expr.Checks context types node)
    (isClosure : node.closure? host = some closure) :
    ∀ capture ∈ closure.captures, ∀ other ∈ closure.captures, capture.name = other.name →
      capture = other := by
  obtain ⟨scope, bound⟩ : ∃ scope : Scope SourceTy, ∀ capture ∈ closure.captures,
      scope.get? capture.name = some capture.type := by
    cases checked.elaborates with
    | lambda _ crossing =>
        cases isClosure
        exact ⟨_, captured_of_crosses crossing⟩
    | loop _ _ _ _ crossing =>
        cases isClosure
        exact ⟨_, captured_of_crosses crossing⟩
    | operation _ _ _ acts => cases acts <;> cases isClosure
    | _ => cases isClosure
  rintro ⟨name, type⟩ isCapture ⟨other, otherType⟩ isOther same
  obtain rfl : name = other := same
  have isType := bound _ isCapture
  have isOtherType := bound _ isOther
  cases isType.symm.trans isOtherType
  rfl

/-- A module that has been built into an image, with the state that the build came to. -/
structure Module.Linked (module : Module) (image : Image) (context : TypeContext)
    (program : Program) (tailCalls : Bool) (state : BuildState Image) : Prop where
  built : image.Built
  accepted : module.Accepted image context program
  finished : program.Finished image state
  runs : ∃ order, Runs (program.steps tailCalls) (.initial image) order state ∧
    order.Perm (program.steps tailCalls)

namespace Module.Linked

variable {module : Module} {image : Image} {context : TypeContext} {program : Program}
variable {tailCalls : Bool} {state : BuildState Image}
variable (linked : module.Linked image context program tailCalls state)

include linked in
/-- A step of every task was taken. -/
theorem exists_runs {task : Task} (isTask : task ∈ program.tasks) :
    ∃ order, Runs (program.steps tailCalls) (.initial image) order state ∧
      task.step tailCalls ∈ order := by
  obtain ⟨order, runs, perm⟩ := linked.runs
  exact ⟨order, runs, perm.mem_iff.mpr (Program.mem_steps.mpr ⟨task, isTask, rfl⟩)⟩

/-- What the code of a class is linked against in the end. -/
def linkage (host : Name) : Linkage where
  typing := context
  image := state.target
  resolution := state.resolution
  host
  cell := (state.target.generic? Platform.cell 1).getD ⟨0⟩
  built := linked.finished.built linked.built
  isCell := by
    obtain ⟨cell, isCell⟩ := (linked.finished.built linked.built).exists_cell
    have isCell : state.target.generic? Platform.cell 1 = some cell := isCell
    rw [Image.IsCell, isCell, Option.getD_some]

/-- Code is generated against what there is at some point of the build. -/
theorem admits (host : Name) {before : BuildState Image} (moves : Build.Moves (.initial image) before)
    (growth : before.Extends state) :
    (linked.linkage host).Admits ⟨before.target, before.resolution, host, tailCalls⟩ :=
  ⟨moves.built linked.built, growth.resolution, rfl⟩

/-! ## Classes of functions -/

section Functions

variable {cls : CoreClass} (isClass : cls ∈ program) {node : Core}
variable (isNode : node ∈ Core.preorderAll cls.roots) {closure : Closure}
variable (isClosure : node.closure? cls.name = some closure)
include linked isClass isNode isClosure

/-- What a task of the class does is done. -/
theorem realized_of_closure {task : Task} (isTask : closure.Plans cls.name task)
    (adds : task.outputs ≠ []) : task.Realized state :=
  linked.finished.realized task
    (CoreClass.mem_program_tasks isClass (.closure isNode isClosure isTask)) adds

/-- There is a class behind a function. -/
theorem exists_class : ∃ owner info, state.resolution.type closure.typeName = .ok owner ∧
    state.target.type? owner = some info ∧ info.isComplete = true ∧
      info.attrs.isValueType = false ∧ info.origin = .declared := by
  obtain ⟨realized, info, -, isOwner, -, isInfo, -, isDeclared, complete⟩ :=
    linked.finished.completes
      (CoreClass.mem_program_tasks isClass (.closure isNode isClosure .completion))
  obtain ⟨_, _, sameOwner, sameInfo, -, isAttrs, -⟩ :
      state.HoldsType closure.typeName .sealedClass (TypeAttrs.sealedClass.above none []) :=
    linked.realized_of_closure isClass isNode isClosure .type (by simp [Task.outputs])
  cases sameOwner.symm.trans isOwner
  cases sameInfo.symm.trans isInfo
  exact ⟨_, _, isOwner, isInfo, complete, isAttrs ▸ rfl, isDeclared⟩

/-- The class has a field for each captured variable. -/
theorem exists_field {owner : TypeHandle} (isOwner : state.resolution.type closure.typeName = .ok owner)
    {capture : Param} (isCapture : capture ∈ closure.captures) :
    ∃ handle field, state.resolution.field (closure.fieldKey capture) = .ok handle ∧
      state.target.field? handle = some field ∧ field.name = capture.name ∧
      (handle, field) ∈ state.target.instanceFields owner := by
  obtain ⟨other, info, handle, field, sameOwner, isInfo, listed, isHandle, isField, isName, isAttrs,
      -⟩ : state.HoldsField (closure.fieldKey capture) .publicInstance :=
    linked.realized_of_closure isClass isNode isClosure (.field (List.mem_map_of_mem isCapture))
      (by simp [Task.outputs])
  cases sameOwner.symm.trans isOwner
  refine ⟨handle, field, isHandle, isField, isName, ?_⟩
  rw [(linked.finished.built linked.built).rooted.instanceFields_eq isInfo]
  exact List.mem_append_left _ (Image.mem_ownFields.mpr ⟨listed, isField, isAttrs ▸ rfl⟩)

/-- The class of every function is made. -/
theorem exists_layout : Nonempty (closure.Layout (linked.linkage cls.name)) := by
  obtain ⟨source, -, checked⟩ := exists_related_left linked.accepted.classes isClass
  obtain ⟨types, expr, nodeChecked⟩ := checked.exists_checks_node isNode
  have built := linked.finished.built linked.built
  have isTask : ∀ {task}, closure.Plans cls.name task → task ∈ program.tasks :=
    fun isPlanned => CoreClass.mem_program_tasks isClass (.closure isNode isClosure isPlanned)
  obtain ⟨owner, info, isOwner, isInfo, complete, isClass', isDeclared⟩ :=
    linked.exists_class isClass isNode isClosure
  have laidOut := built.laidOut.instances owner info isInfo complete
  -- The constructor.
  obtain ⟨order, runs, isDone⟩ := linked.exists_runs (isTask .ctorCode)
  obtain ⟨before, ctor, ctorInfo, ctorBody, moves, growth, ctorCode, isCtor, isCtorInfo, ctorIsCode⟩ :=
    runs.ctor_defined isDone
  obtain ⟨_, _, _, entry, sameOwner, sameInfo, listed, sameCtor, isEntry, areParams⟩ :
      state.HoldsCtor closure.ctorKey :=
    linked.realized_of_closure isClass isNode isClosure .ctor (by simp [Task.outputs])
  cases sameOwner.symm.trans isOwner
  cases sameInfo.symm.trans isInfo
  cases sameCtor.symm.trans isCtor
  cases isEntry.symm.trans isCtorInfo
  obtain ⟨_, isOwned, ctorOwner⟩ := built.owned.exists_ctor isInfo listed
  cases isOwned.symm.trans isCtorInfo
  -- The method.
  obtain ⟨order, runs, isDone⟩ := linked.exists_runs (isTask .invokeCode)
  obtain ⟨between, invoke, invokeInfo, invokeBody, moves', growth', invokeCode, isInvoke,
    isInvokeInfo, invokeIsCode⟩ := runs.method_defined isDone
  obtain ⟨_, _, _, method, -, -, -, sameInvoke, isMethod, -, isAttrs, -⟩ :
      state.HoldsMethod closure.invokeKey .publicInstance closure.invokeKey.params closure.ret :=
    linked.realized_of_closure isClass isNode isClosure .invoke (by simp [Task.outputs])
  cases sameInvoke.symm.trans isInvoke
  cases isMethod.symm.trans isInvokeInfo
  refine ⟨{
    owner, info, ctor, ctorInfo, ctorBody, invoke, invokeInfo, invokeBody
    isOwner := isInfo
    complete
    isClass := isClass'
    isDeclared
    isCtor
    isCtorInfo
    ctorOwner
    ctorCount := ?_
    ctorIsCode
    ctorCode := ⟨_, linked.admits cls.name moves growth, ctorCode⟩
    isInvoke
    isInvokeInfo
    isInstance := isAttrs ▸ rfl
    invokeIsCode
    invokeCode := ⟨_, linked.admits cls.name moves' growth', invokeCode⟩
    field := fun capture isCapture => ?_
    apart := fun capture isCapture other isOther handle otherHandle field otherField isHandle
      isOtherHandle isField isOtherField same => ?_ }⟩
  · rw [Ty.length_of_resolveList areParams]
    exact List.length_map ..
  · obtain ⟨handle, field, isHandle, isField, -, isOwn⟩ :=
      linked.exists_field isClass isNode isClosure isOwner isCapture
    exact ⟨handle, field, isHandle, isField, laidOut.lt isOwn⟩
  · obtain ⟨_, _, found, isFound, isName, isOwn⟩ :=
      linked.exists_field isClass isNode isClosure isOwner isCapture
    obtain ⟨_, _, otherFound, isOtherFound, isOtherName, isOtherOwn⟩ :=
      linked.exists_field isClass isNode isClosure isOwner isOther
    cases found.symm.trans isHandle
    cases otherFound.symm.trans isOtherHandle
    cases isFound.symm.trans isField
    cases isOtherFound.symm.trans isOtherField
    -- One slot is that of one field, which has one name.
    cases laidOut.injective isOwn isOtherOwn same
    exact nodeChecked.captures_apart isClosure capture isCapture other isOther
      (isName.symm.trans isOtherName)

end Functions

/-- Every function in the code of a class has a class. -/
theorem furnishes {cls : CoreClass} (isClass : cls ∈ program) {root : Core}
    (isRoot : root ∈ cls.roots) : (linked.linkage cls.name).Furnishes root :=
  fun _ isNode _ isClosure => linked.exists_layout isClass
    (Core.preorder_subset_preorderAll isRoot isNode) isClosure

end Module.Linked

/-- A module that compiles is built into the image. -/
theorem Module.linked_of_compile {module : Module} {image after : Image} {options : CompileOptions}
    {compiled : CompiledModule} (built : image.Built)
    (done : module.compile options image = (.ok compiled, after)) :
    ∃ context program state, module.check image = .ok program ∧
      module.Linked image context program options.tailCalls state ∧
      compiled = .ofResolution options.name state.resolution ∧ after = state.target := by
  cases checked : module.check image with
  | error diagnostic =>
      unfold Module.compile at done
      rw [checked] at done
      cases done
  | ok program =>
      obtain ⟨context, state, accepted, -, runs, finished, isCompiled, isAfter⟩ :=
        Module.runs_of_check built checked done
      exact ⟨context, program, state, rfl, ⟨built, accepted, finished, runs⟩, isCompiled, isAfter⟩

end ClassForge
