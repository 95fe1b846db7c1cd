import ClassForge.Proofs.Build.DefinedMethods
import ClassForge.Proofs.Code.MadeFunctions
import ClassForge.Proofs.Try.TryRuns

/-!
# Compiled `try` expressions

The code of a `try` expression calls a method whose arguments are the cells of the captured
variables.  The code of this method consists of that of the parts of the expression, which know the
variables around the expression by these cells only.
-/

namespace ClassForge

variable {captures : List Param} {env : Scope Binding}

/-! ## Parts -/

/-- The parts of a `try` expression: its body, its handlers with what they bind, and the final
part. -/
structure TryParts (α β : Type) where
  guarded : α
  clauses : List (β × α)
  final : Option α

/-- The parts of an expression if it is a `try` expression. -/
def Expr.tryParts? : Expr → Option (TryParts Expr Param)
  | tryCatch _ body catches => some ⟨body, catches, none⟩
  | tryFinally _ body catches final => some ⟨body, catches, some final⟩
  | _ => none

/-- The checked parts of a `try` expression. -/
def Core.tryParts? : Core → Option (TryParts Core CatchBinder)
  | tryCatch _ _ body catches => some ⟨body, catches, none⟩
  | tryFinally _ _ body catches final => some ⟨body, catches, some final⟩
  | _ => none

/-- The parts of a `try` expression are checked one by one, and the handlers stay in their order. -/
structure TryParts.ChecksAs (context : TypeContext) (types : Scope SourceTy)
    (source : TryParts Expr Param) (parts : TryParts Core CatchBinder) : Prop where
  guarded : source.guarded.Checks context types parts.guarded
  clauses : List.Forall₂ (Expr.ChecksHandler context types parts.guarded.type) source.clauses
    parts.clauses
  final : Option.Rel (Expr.Checks context types) source.final parts.final

theorem Expr.Checks.tryParts {context : TypeContext} {types : Scope SourceTy} {expr : Expr}
    {core : Core} (checks : expr.Checks context types core) {source : TryParts Expr Param}
    (isTry : expr.tryParts? = some source) :
    ∃ parts, core.tryParts? = some parts ∧ source.ChecksAs context types parts := by
  cases expr with
  | tryCatch =>
      cases isTry
      cases checks.elaborates with
      | tryCatch body clauses => exact ⟨_, rfl, body, clauses, .none⟩
      | operation isOperation => cases isOperation
  | tryFinally =>
      cases isTry
      cases checks.elaborates with
      | tryFinally body clauses final => exact ⟨_, rfl, body, clauses, .some final⟩
      | operation isOperation => cases isOperation
  | _ => cases isTry

namespace Core

variable {core : Core} {parts : TryParts Core CatchBinder}

theorem mem_parts_of_tryParts? (isTry : core.tryParts? = some parts) :
    parts.guarded ∈ core.parts ∧ (∀ clause ∈ parts.clauses, clause.2 ∈ core.parts) ∧
      ∀ final ∈ parts.final, final ∈ core.parts := by
  cases core with
  | tryCatch =>
      cases isTry
      exact ⟨List.mem_cons_self, fun clause isClause =>
        List.mem_cons_of_mem _ (List.mem_map_of_mem isClause), nofun⟩
  | tryFinally =>
      cases isTry
      refine ⟨List.mem_append_left _ List.mem_cons_self, fun clause isClause =>
        List.mem_append_left _ (List.mem_cons_of_mem _ (List.mem_map_of_mem isClause)), ?_⟩
      rintro _ ⟨⟩
      exact List.mem_append_right _ List.mem_cons_self
  | _ => cases isTry

theorem exists_block_of_tryParts? (isTry : core.tryParts? = some parts) (host : Name) :
    ∃ block, core.block? host = some block := by
  cases core with
  | tryCatch | tryFinally => exact ⟨_, rfl⟩
  | _ => cases isTry

/-- The code of a `try` expression pushes the captured cells and calls its method. -/
theorem lower_of_tryParts? (isTry : core.tryParts? = some parts) (context : LowerContext)
    (scope : Scope Binding) (tail : Bool) :
    core.lower context scope tail =
      context.lowerBlockCall (core.block? context.host) core.captures (pure ()) scope := by
  cases core with
  | tryCatch | tryFinally => rfl
  | _ => cases isTry

end Core

/-- The code of the method behind a `try` expression. -/
theorem Block.code_eq_ok {block : Block} {parts : TryParts Core CatchBinder}
    {context : LowerContext} {body : Body} (isTry : block.core.tryParts? = some parts)
    (generated : block.code context = .ok body) : ∃ scope emitter,
      LowerContext.bindCells block.captures 0 .empty = .ok scope ∧
        (context.lowerTry parts.guarded parts.clauses parts.final scope).Writes {} () emitter ∧
          emitter.finish = .ok body := by
  unfold Block.code at generated
  obtain ⟨⟨_, emitter⟩, written, finished⟩ := bind_eq_ok.mp generated
  dsimp only at finished
  split at finished
  · rename_i isBody
    cases finished
    obtain ⟨scope, isScope, written⟩ := Lower.writes_lift_bind.mp written
    refine ⟨scope, emitter, isScope, ?_, isBody⟩
    cases core : block.core with
    | tryCatch | tryFinally =>
        rw [core] at isTry written
        cases isTry
        exact written
    | _ => rw [core] at isTry; cases isTry
  · cases finished

/-! ## Variables -/

/-- Every name in the scope of a block stands for a cell that is an argument. -/
theorem LowerContext.bindCells_boxed {first : Nat} {scope : Scope Binding}
    (done : bindCells captures first env = .ok scope) {name : Name} {binding : Binding}
    (found : scope.get? name = some binding) :
    env.get? name = some binding ∨ ∃ index capture, captures[index]? = some capture ∧
      capture.name = name ∧ binding = ⟨capture.type, .argument (first + index), true⟩ := by
  induction captures generalizing first env with
  | nil =>
      cases done
      exact .inl found
  | cons capture captures ih =>
      obtain ⟨slot, isSlot, done⟩ := bind_eq_ok.mp done
      obtain rfl := argSlot_eq_ok isSlot
      rcases ih done with isOuter | ⟨index, other, isOther, isName, rfl⟩
      · rw [Scope.get?_bind] at isOuter
        split at isOuter
        · next same =>
            cases isOuter
            exact .inr ⟨0, capture, rfl, same.symm, rfl⟩
        · exact .inl isOuter
      · refine .inr ⟨index + 1, other, isOther, isName, ?_⟩
        rw [Nat.add_assoc, Nat.add_comm 1 index]

/-- Only variables in cells are captured. -/
theorem Scope.boxed_of_fetchCells {before after : Emitter}
    (written : (env.fetchCells captures).Writes before () after) {capture : Param}
    (isCapture : capture ∈ captures) :
    ∃ binding, env.get? capture.name = some binding ∧ binding.boxed = true := by
  induction captures generalizing before with
  | nil => cases isCapture
  | cons other captures ih =>
      obtain ⟨binding, middle, found, boxed, -, rest⟩ := Situation.writes_fetchCells_cons written
      rcases List.mem_cons.mp isCapture with rfl | isLater
      · exact ⟨binding, found, boxed⟩
      · exact ih rest isLater

/-! ## Methods -/

/-- The method behind a `try` expression of a class. -/
structure TryMethod (image : Image) (resolution : Resolution) (host : Name) (node : Core)
    (parts : TryParts Core CatchBinder) where
  block : Block
  method : MethodHandle
  info : MethodInfo
  body : Body
  /-- What the code was generated from. -/
  context : LowerContext
  /-- The variables that the parts know. -/
  scope : Scope Binding
  layout : TryLayout
  isBlock : node.block? host = some block
  isMethod : resolution.method block.key = .ok method
  isInfo : image.method? method = some info
  isStatic : info.attrs.isStatic = true
  isCode : info.implementation = .code body
  isHost : context.host = host
  within : context.resolution.Within resolution
  binds : LowerContext.bindCells block.captures 0 .empty = .ok scope
  fits : layout.Fits body
  renders : layout.Renders context scope parts.guarded parts.clauses parts.final body

namespace TryMethod

variable {image : Image} {resolution : Resolution} {host : Name} {node : Core}
variable {parts : TryParts Core CatchBinder} (made : TryMethod image resolution host node parts)

/-- Some code pushes the cells of the variables that a method shares, and calls it. -/
def CalledFrom (env : Scope Binding) (before after : Emitter) : Prop :=
  ∃ middle, (env.fetchCells made.block.captures).Writes before () middle ∧
    after = middle.emit (.call made.method false) ∧
      ∀ capture ∈ made.block.captures, ∃ binding, env.get? capture.name = some binding ∧
        binding.boxed = true

theorem calledFrom (isTry : node.tryParts? = some parts) {calling : LowerContext}
    (isHost : calling.host = host) (within : calling.resolution.Within resolution) {tail : Bool}
    {before after : Emitter} (written : (node.lower calling env tail).Writes before () after) :
    made.CalledFrom env before after := by
  rw [Core.lower_of_tryParts? isTry, isHost, made.isBlock,
    ← (core_of_block? made.isBlock).2] at written
  obtain ⟨_, _, fetches, rest⟩ := Lower.writes_bind.mp written
  obtain ⟨_, middle, nothing, calls⟩ := Lower.writes_bind.mp rest
  obtain ⟨-, rfl⟩ := Lower.writes_pure.mp nothing
  obtain ⟨method, isMethod, calls⟩ := Lower.writes_lift_bind.mp calls
  obtain rfl := Lower.writes_emit.mp calls
  obtain rfl : method = made.method :=
    Except.ok.inj ((within.method isMethod).symm.trans made.isMethod)
  exact ⟨middle, fetches, rfl, fun capture isCapture =>
    Scope.boxed_of_fetchCells fetches isCapture⟩

/-- A call of the method is an activation of the block, with the arguments of the call. -/
theorem exists_start {later : Image} (growth : image.Extends later) (limit : Nat)
    (levels : List Level) (room : Nat) (store : Store) (cells : List Value) :
    ∃ start : TryStart later, start.layout = made.layout ∧ start.limit = limit ∧
      start.seat = ⟨false, levels, room⟩ ∧ start.frame.args = cells.toArray ∧
      store.heap.Retains start.store.heap ∧
      Machine.step later limit ⟨.begin (.method ⟨made.method, cells, false⟩), levels, room, store⟩ =
        .running start.config := by
  obtain ⟨info, isInfo, isCode, sameAttrs⟩ := growth.methodCode made.isInfo made.isCode
  obtain ⟨locals, heap, -, retains, ran⟩ := Frame.run_start later made.body cells store
  have isStatic : info.attrs.isStatic = true := sameAttrs ▸ made.isStatic
  have begins := Machine.begin_methodCode isInfo isCode
    (fun isInstance => by cases isStatic.symm.trans isInstance) ran
  refine ⟨⟨limit, ⟨false, levels, room⟩, made.layout, made.body.frame cells locals,
    { store with heap }, made.fits, rfl, rfl⟩, rfl, rfl, rfl, rfl, retains, ?_⟩
  unfold Machine.step
  dsimp only
  rw [begins]
  rfl

end TryMethod

/-! ## Modules -/

/-- Every expression that a member of a class contributes is checked as one that the checked class
contributes. -/
theorem TypeContext.ChecksClass.exists_root {context : TypeContext} {cls : ClassDef}
    {core : CoreClass} (checked : context.ChecksClass cls core) {code : MemberCode}
    (isCode : code ∈ cls.code) {expr : Expr} (isRoot : expr ∈ code.roots) :
    ∃ root ∈ core.roots, expr.Checks context (.ofParams code.arguments) root := by
  have ofBody : ∀ {arguments ret body routine?},
      Option.Rel (context.ChecksRoutine arguments ret) body routine? →
      code ∈ body.toList.map (MemberCode.ofBody arguments) →
        ∃ routine, routine? = some routine ∧
          expr.Checks context (.ofParams code.arguments) routine.body := by
    intro arguments ret body routine? related isBody
    cases related with
    | none => cases isBody
    | some holds =>
        obtain rfl := List.mem_singleton.mp isBody
        obtain rfl := List.mem_singleton.mp isRoot
        exact ⟨_, rfl, holds.checked⟩
  simp only [ClassDef.code, List.mem_append, List.mem_flatMap] at isCode
  simp only [CoreClass.roots, List.mem_append, List.mem_map, List.mem_flatMap, List.mem_filterMap]
  rcases isCode with (⟨method, isMethod, isBody⟩ | isCtor) | ⟨property, isProperty, isBody⟩
  · obtain ⟨other, isOther, holds⟩ := exists_related_right checked.methods isMethod
    obtain ⟨routine, isRoutine, checks⟩ := ofBody holds.routine isBody
    exact ⟨_, .inl (.inl ⟨routine, ⟨other, isOther, isRoutine⟩, rfl⟩), checks⟩
  · obtain ⟨ctor, isSource, rfl⟩ := List.mem_map.mp isCtor
    obtain ⟨other, isOther, holds⟩ := exists_related_right checked.ctors isSource
    rcases List.mem_append.mp isRoot with isArg | isBody
    · obtain ⟨root, isCoreArg, checks⟩ := exists_related_right holds.baseArgs isArg
      exact ⟨root, .inl (.inr ⟨other, isOther, List.mem_append_left _ isCoreArg⟩), checks⟩
    · obtain rfl := List.mem_singleton.mp isBody
      exact ⟨_, .inl (.inr ⟨other, isOther, List.mem_append_right _ List.mem_cons_self⟩),
        holds.checked⟩
  · obtain ⟨other, isOther, holds⟩ := exists_related_right checked.properties isProperty
    rcases isBody with isBody | isBody
    · obtain ⟨routine, isRoutine, checks⟩ := ofBody holds.getter isBody
      exact ⟨_, .inr ⟨other, isOther, routine, .inl (Option.mem_toList.mpr isRoutine), rfl⟩, checks⟩
    · obtain ⟨routine, isRoutine, checks⟩ := ofBody holds.setter isBody
      exact ⟨_, .inr ⟨other, isOther, routine, .inr (Option.mem_toList.mpr isRoutine), rfl⟩, checks⟩

section

variable {module : Module} {image : Image} {context : TypeContext} {program : Program}

/-- What the checker comes to is code of a class. -/
theorem Module.Accepted.exists_node (accepted : module.Accepted image context program)
    {point : Checkpoint} (visits : module.Visits context point) :
    ∃ cls ∈ program, point.core ∈ Core.preorderAll cls.roots := by
  obtain ⟨code, start, ⟨⟨source, isSource, isCode⟩, isRoot, types, checks⟩, reaches⟩ := visits
  obtain ⟨cls, isClass, checked⟩ := exists_related_right accepted.classes isSource
  obtain ⟨root, isCoreRoot, rootChecks⟩ := checked.exists_root isCode isRoot
  have checks : start.expr.Checks context (.ofParams code.arguments) start.core := types ▸ checks
  obtain rfl : start.core = root := Except.ok.inj (checks.symm.trans rootChecks)
  exact ⟨cls, isClass, Core.preorder_subset_preorderAll isCoreRoot
    (reaches.preorder_subset point.core.mem_preorder_self)⟩

/-- The parts of an expression of a class lead only to themselves and to their ends. -/
theorem Module.Accepted.parts_isConfined (accepted : module.Accepted image context program)
    {cls : CoreClass} (isClass : cls ∈ program) {node : Core}
    (isNode : node ∈ Core.preorderAll cls.roots) {part : Core} (isPart : part ∈ node.parts)
    (lowering : LowerContext) (least : Nat) : part.IsConfined lowering least := by
  obtain ⟨source, -, checked⟩ := exists_related_left accepted.classes isClass
  exact part.isConfined fun inner isInner => accepted.operates isClass
    (checked.preorder_subset isNode (Core.mem_preorder_of_mem_parts isPart isInner))

/-- A build makes the method behind every `try` expression. -/
theorem Module.Accepted.exists_tryMethod (accepted : module.Accepted image context program)
    {options : CompileOptions} {compiled : CompiledModule} {after : Image}
    (done : program.build options image = (.ok compiled, after)) :
    ∃ state : BuildState Image,
      compiled = .ofResolution options.name state.resolution ∧ after = state.target ∧
      ∀ cls ∈ program, ∀ node ∈ Core.preorderAll cls.roots, ∀ parts,
        node.tryParts? = some parts →
          Nonempty (TryMethod state.target state.resolution cls.name node parts) := by
  obtain ⟨state, isCompiled, isTarget, -, ⟨order, runs, perm⟩, -, realized⟩ :=
    Program.build_realized done
  refine ⟨state, isCompiled, isTarget, fun cls isClass node isNode parts isTry => ?_⟩
  obtain ⟨block, isBlock⟩ := Core.exists_block_of_tryParts? isTry cls.name
  obtain ⟨rfl, -⟩ := core_of_block? isBlock
  obtain ⟨before, method, info, body, -, growth, generated, isMethod, isInfo, isCode⟩ :=
    runs.method_defined (perm.mem_iff.mpr (Program.mem_steps.mpr
      ⟨_, CoreClass.mem_program_tasks isClass (.blockCode isNode isBlock), rfl⟩))
  obtain ⟨-, -, handle, declared, -, -, -, isHandle, isDeclared, -, isStatic, -⟩ :=
    realized _ (CoreClass.mem_program_tasks isClass (.block isNode isBlock)) (by simp [Task.outputs])
  obtain rfl : handle = method := Except.ok.inj (isHandle.symm.trans isMethod)
  obtain rfl : declared = info := Option.some.inj (isDeclared.symm.trans isInfo)
  obtain ⟨scope, emitter, binds, written, finished⟩ := Block.code_eq_ok isTry generated
  obtain ⟨isGuarded, areClauses, isFinal⟩ := Core.mem_parts_of_tryParts? isTry
  have confined : ∀ part ∈ block.core.parts, ∀ least,
      part.IsConfined ⟨before.target, before.resolution, cls.name, options.tailCalls⟩ least :=
    fun part isPart => accepted.parts_isConfined isClass isNode isPart _
  have spares : ∀ least, scope.Spares least := by
    intro least name binding found
    rcases LowerContext.bindCells_boxed binds found with outer | ⟨index, capture, -, -, rfl⟩
    · cases outer
    · exact .inl rfl
  obtain ⟨layout, fits, renders⟩ := LowerContext.lowerTry_layout spares (confined _ isGuarded)
    (fun clause isClause => confined _ (areClauses clause isClause))
    (fun final isLast => confined _ (isFinal final isLast)) written finished
  exact ⟨⟨block, handle, declared, body, _, scope, layout, isBlock, isMethod, isInfo,
    isStatic ▸ rfl, isCode, rfl, growth.resolution, binds, fits, renders⟩⟩

/-- How the `try` expressions of a compiled module are evaluated.  The code of one calls a method
with the cells of the variables that it captures, and its parts, whose handlers are in the order of
the source, know the variables by these cells.  A call of the method is an activation of a block:

* wherever the run has got to, the stage is decided by the parts that have begun, and the arguments
  are still the cells;
* what the block delivers is described by `TryStart.Delivers`, and by then the body has begun once,
  then at most one handler, and then the final part once, if there is one;
* every run that goes beyond the block, or ends without a failure, has gone through all of this. -/
theorem Module.try_evaluates {module : Module} {image after : Image} {options : CompileOptions}
    {compiled : CompiledModule} (done : module.compile options image = (.ok compiled, after)) :
    ∃ context program, ∃ state : BuildState Image, module.Accepted image context program ∧
      compiled = .ofResolution options.name state.resolution ∧ after = state.target ∧
      ∀ point, module.Visits context point → ∀ source, point.expr.tryParts? = some source →
        ∃ cls ∈ program, ∃ parts, source.ChecksAs context point.types parts ∧
        ∃ made : TryMethod after state.resolution cls.name point.core parts,
          (∀ calling env tail before last, calling.host = cls.name →
            calling.resolution.Within state.resolution →
            (point.core.lower calling env tail).Writes before () last →
              made.CalledFrom env before last) ∧
          (∀ name binding, made.scope.get? name = some binding → ∃ index capture,
            made.block.captures[index]? = some capture ∧ capture.name = name ∧
              binding = ⟨capture.type, .argument index, true⟩) ∧
          ∀ later, after.Extends later → ∀ limit levels room store cells,
            ∃ start : TryStart later, start.layout = made.layout ∧
              Machine.step later limit
                ⟨.begin (.method ⟨made.method, cells, false⟩), levels, room, store⟩ =
                  .running start.config ∧
              start.limit = limit ∧ start.seat = ⟨false, levels, room⟩ ∧
              store.heap.Retains start.store.heap ∧
              (∀ begun config, start.Evaluates begun config →
                (∃ place, start.Stage begun place config) ∧
                  ∀ frame, start.seat.Active config frame → frame.args = cells.toArray) ∧
              (∀ begun result frame store, start.Delivers begun result frame store →
                ∃ caught : Option Extent,
                  begun = start.layout.guarded :: caught.toList ++ start.layout.final.toList) ∧
              (∀ config, Machine.Reaches later limit start.config config →
                (∃ begun, start.Evaluates begun config) ∨ start.Passed config) ∧
              ∀ outcome last, Machine.Ends later limit start.config outcome last →
                (∀ error, outcome ≠ .error error) → ∃ config, start.Passed config ∧
                  Machine.step later limit config = .finished outcome last := by
  obtain ⟨program, checked⟩ : ∃ program, module.check image = .ok program := by
    unfold Module.compile at done
    split at done
    · exact ⟨_, ‹_›⟩
    · cases done
  obtain ⟨context, accepted⟩ := Module.accepted_of_check checked
  rw [Module.compile_of_check checked] at done
  obtain ⟨state, isCompiled, rfl, methods⟩ := accepted.exists_tryMethod done
  refine ⟨context, program, state, accepted, isCompiled, rfl,
    fun point visits source isTry => ?_⟩
  obtain ⟨cls, isClass, isNode⟩ := accepted.exists_node visits
  have checks : point.Accepted context := by
    obtain ⟨code, first, starts, reaches⟩ := visits
    exact reaches.accepted starts.2.2.2
  obtain ⟨parts, isCoreTry, checked⟩ := Expr.Checks.tryParts checks isTry
  obtain ⟨made⟩ := methods cls isClass point.core isNode parts isCoreTry
  refine ⟨cls, isClass, parts, checked, made,
    fun calling env tail before last isHost within written =>
      made.calledFrom isCoreTry isHost within written, fun name binding found => ?_,
    fun later growth limit levels room store cells => ?_⟩
  · rcases LowerContext.bindCells_boxed made.binds found with outer | ⟨index, capture, rest⟩
    · cases outer
    · rw [Nat.zero_add] at rest
      exact ⟨index, capture, rest⟩
  · obtain ⟨start, isLayout, rfl, isSeat, areArgs, retains, isStart⟩ :=
      made.exists_start growth limit levels room store cells
    refine ⟨start, isLayout, isStart, rfl, isSeat, retains, fun begun config run => ?_,
      fun _ _ _ _ delivers => delivers.begun_eq, fun config reaches =>
        TryStart.evaluates_of_reaches reaches, fun outcome last ends noError =>
          TryStart.passed_of_ends ends noError⟩
    obtain ⟨place, stage⟩ := TryStart.stage_of_evaluates run
    exact ⟨⟨place, stage⟩, fun frame active => (stage.args active).trans areArgs⟩

end

open Schedule

/-- A division whose failure is caught, and which is counted. -/
def Expr.guardedDivision : Expr :=
  .tryFinally 0
    (.binary (.op .div) (.literal (.int32 100)) (.var "n"))
    [(⟨"error", .exception⟩, .literal (.int32 0))]
    (.set "n" (.binary (.op .add) (.var "n") (.literal (.int32 1))))

/-- A class whose method guards a division. -/
def Module.guarded : Module where
  classes := [
    { name := "Guard"
      attrs := .publicClass
      base := none
      interfaces := []
      fields := []
      methods := [
        { name := "divide"
          attrs := .publicStatic
          params := [⟨"n", .prim .int32⟩]
          ret := .prim .int32
          body := some .guardedDivision }]
      ctors := []
      properties := [] }]

theorem Module.guarded_try_evaluates :
    ∃ compiled after context program, ∃ state : BuildState Image,
      Module.guarded.compile {} .library = (.ok compiled, after) ∧
      Module.guarded.Accepted .library context program ∧
      ∃ point, Module.guarded.Visits context point ∧ point.expr = .guardedDivision ∧
        ∃ cls ∈ program, ∃ parts,
        ∃ made : TryMethod after state.resolution cls.name point.core parts,
          parts.clauses.length = 1 ∧ parts.final.isSome = true ∧
            ∃ start : TryStart after, start.layout = made.layout ∧
              Machine.step after 10 ⟨.begin (.method ⟨made.method, [.ref ⟨0⟩], false⟩), [], 9,
                ⟨.empty, #[], ""⟩⟩ = .running start.config := by
  have compiles : (Module.guarded.compile {} .library).1.isOk = true := by
    decide +kernel
  obtain ⟨compiled, done⟩ := Module.exists_compile_eq compiles
  obtain ⟨context, program, state, accepted, -, -, evaluates⟩ := Module.try_evaluates done
  obtain ⟨cls, isClass, checked⟩ := exists_related_right accepted.classes List.mem_cons_self
  obtain ⟨core, -, checks⟩ := checked.exists_root
    (show MemberCode.ofBody [⟨"n", .prim .int32⟩] .guardedDivision ∈ ClassDef.code _ from
      List.mem_cons_self) List.mem_cons_self
  have isAccepted : Checkpoint.Accepted context
      ⟨.ofParams [⟨"n", .prim .int32⟩], .guardedDivision, core⟩ := checks
  have visits : Module.guarded.Visits context
      ⟨.ofParams [⟨"n", .prim .int32⟩], .guardedDivision, core⟩ :=
    ⟨.ofBody [⟨"n", .prim .int32⟩] .guardedDivision, _,
      ⟨⟨_, List.mem_cons_self, List.mem_cons_self⟩, List.mem_cons_self, rfl, isAccepted⟩, .refl⟩
  obtain ⟨cls, isClass, parts, isChecked, made, -, -, starts⟩ := evaluates _ visits _ rfl
  obtain ⟨start, isLayout, isStart, -⟩ :=
    starts _ (.refl _) 10 [] 9 ⟨.empty, #[], ""⟩ [.ref ⟨0⟩]
  refine ⟨compiled, _, context, program, state, done, accepted, _, visits, rfl, cls, isClass, parts,
    made, isChecked.clauses.length_eq.symm, ?_, start, isLayout, isStart⟩
  have related := isChecked.final
  cases isFinal : parts.final with
  | none =>
      rw [isFinal] at related
      cases related
  | some final => rfl

end ClassForge
