import ClassForge.Proofs.Build.MethodBuilds
import ClassForge.Proofs.Simulation.EnteredMethods
import ClassForge.Proofs.Simulation.LinkedFunctions

/-!
# Compiled methods mean what their source means

A static method with an elementary body is compiled, and a host that calls it by its name gets what
the body evaluates to, or learns that there is no room for another level.
-/

namespace ClassForge

open Schedule

/-! ## Variables that hold values -/

namespace Core

/-- The variables of a loop. -/
def loopVars : Core → List Binder
  | loop _ _ vars _ _ _ => vars.map (·.1)
  | _ => []

theorem holdsValues_iff (core : Core) : core.HoldsValues ↔
    ∀ node ∈ core.preorder, ∀ binder ∈ node.binders ++ node.loopVars, binder.type.isVoid = false := by
  constructor
  · intro holds node isNode
    refine List.forall_mem_append.mpr ⟨holds.binders node isNode, ?_⟩
    cases node with
    | loop =>
        exact List.forall_mem_map.mpr (holds.loops _ _ _ _ _ _ isNode)
    | _ => exact nofun
  · intro holds
    refine ⟨fun node isNode => (List.forall_mem_append.mp (holds node isNode)).1, ?_⟩
    intro id function vars ret captures body isNode var isVar
    exact (List.forall_mem_append.mp (holds _ isNode)).2 _ (List.mem_map_of_mem isVar)

instance (core : Core) : Decidable core.HoldsValues :=
  decidable_of_iff' _ core.holdsValues_iff

end Core

/-! ## Methods by name -/

section Names

variable {machine : Machine} {typeName name : Name} {owner : TypeHandle} {info : TypeInfo}
variable {handle : MethodHandle} {method : MethodInfo} {args : List Value}

/-- The only method of a name in a complete type is found by the name. -/
theorem Machine.findStatic_eq_ok (isType : machine.image.typeNamed? typeName = some owner)
    (isInfo : machine.image.type? owner = some info) (complete : info.isComplete = true)
    (listed : handle ∈ info.methods) (isMethod : machine.image.method? handle = some method)
    (isStatic : method.attrs.isStatic = true) (fits : machine.argsFit args method.params = true)
    (alone : ∀ other ∈ info.methods, ∀ candidate, machine.image.method? other = some candidate →
      candidate.name = method.name → other = handle) :
    machine.findStatic typeName method.name args = .ok handle := by
  have isComplete : machine.completeType typeName = .ok (owner, info) := by
    simp [completeType, isType, isInfo, complete]
  unfold findStatic
  rw [isComplete]
  dsimp only [bind, Except.bind]
  have isCandidate : (handle, method) ∈ machine.image.methodsOf info :=
    List.mem_filterMap.mpr ⟨handle, listed, by rw [isMethod]; rfl⟩
  cases found : (machine.image.methodsOf info).find? fun entry =>
      entry.2.attrs.isStatic && entry.2.name == method.name && machine.argsFit args entry.2.params with
  | none =>
      have refused := List.find?_eq_none.mp found _ isCandidate
      simp [isStatic, fits] at refused
  | some entry =>
      obtain ⟨other, candidate⟩ := entry
      obtain ⟨isOther, same⟩ := List.mem_filterMap.mp (List.mem_of_find?_eq_some found)
      have accepted := List.find?_some found
      obtain ⟨_, isCandidate, ⟨⟩⟩ := Option.map_eq_some_iff.mp same.2
      simp only [Bool.and_eq_true, beq_iff_eq] at accepted
      rw [alone other same.1 candidate isCandidate accepted.1.2]
      rfl

/-- Numbers can be passed for parameters that are numbers. -/
theorem Machine.argsFit_numbers (machine : Machine) {values : List Int32} {params : List RunTy}
    (count : values.length = params.length) (areNumbers : ∀ param ∈ params, param = .int32) :
    machine.argsFit (values.map .int32) params = true := by
  rw [argsFit, List.length_map, count, beq_self_eq_true, Bool.true_and, List.all_eq_true]
  rintro ⟨value, param⟩ isPair
  obtain ⟨isValue, isParam⟩ := List.of_mem_zip isPair
  obtain ⟨number, -, rfl⟩ := List.mem_map.mp isValue
  obtain rfl := areNumbers param isParam
  rfl

end Names

/-- A module compiles only into an image in which the names of its types are free. -/
theorem Module.free_of_compile {module : Module} {image after : Image} {options : CompileOptions}
    {compiled : CompiledModule} (built : image.Built)
    (done : module.compile options image = (.ok compiled, after)) :
    ∀ name ∈ module.typeNames, image.typeNamed? name = none := by
  intro name isName
  obtain ⟨context, program, state, -, linked, -, rfl⟩ := Module.linked_of_compile built done
  rw [← linked.accepted.typeNames, ← program.completed_tasks.mem_iff] at isName
  obtain ⟨task, isTask, completes⟩ := List.mem_filterMap.mp isName
  obtain ⟨supertypes, rfl⟩ := Task.eq_complete completes
  obtain ⟨realized, info, -, isHandle, -, isInfo, isTypeName, isDeclared, -⟩ :=
    linked.finished.completes isTask
  have late := (linked.finished.moves.beyond (BuildState.beyond_initial image)).types name _ isHandle
  cases early : image.typeNamed? name with
  | none => rfl
  | some handle =>
      -- The name would lead to a type from before.
      have leads := (linked.finished.built linked.built).named _ info isInfo isDeclared
      rw [isTypeName, linked.finished.moves.extends'.target.typeNamed? early] at leads
      obtain ⟨index, isIndex, rfl⟩ := Option.map_eq_some_iff.mp early
      rw [← Option.some.inj leads] at late
      exact absurd (Array.findIdx?_eq_some_iff_getElem.mp isIndex).1 (Nat.not_lt.mpr late)

/-! ## Calls of compiled methods -/

/-- The type of a blueprint has no other methods. -/
theorem Program.Planned.eq_handle {program : Program} {host : Name} {plans : List Blueprint}
    {plan : Blueprint} {base : Image} {tailCalls : Bool} {tasks : List Task}
    {state : BuildState Image} {owner : TypeHandle} {info : TypeInfo} {handle other : MethodHandle}
    (planned : program.Planned host plans) (isPlan : plan ∈ plans)
    (underway : program.Underway base tailCalls tasks state) (built : base.Built)
    (isOwner : state.resolution.type plan.name = .ok owner)
    (isInfo : state.target.type? owner = some info)
    (isHandle : state.resolution.method plan.method = .ok handle) (listed : other ∈ info.methods) :
    other = handle := by
  obtain ⟨_, sameInfo, -, late, -⟩ := underway.exists_info isOwner
  cases sameInfo.symm.trans isInfo
  obtain ⟨entry, -, rfl, made⟩ := underway.exists_method built isInfo late listed
  obtain ⟨key, _, _, isDone, -, isEntryOwner, isOther⟩ := made.declared
  obtain rfl := planned.eq_method isPlan (underway.member _ isDone)
    (underway.name_eq isEntryOwner isOwner)
  exact Except.ok.inj (isOther.symm.trans isHandle)

section Methods

variable {owner : Name} {attrs : TypeAttrs} {method : MethodDef} {body : Expr} {image : Image}
variable {context : TypeContext} {program : Program} {state : BuildState Image} {tailCalls : Bool}

/-- A static method with numbers for parameters answers a call by its name with what its body
evaluates to. -/
theorem MethodDef.Standalone.answers (standalone : method.Standalone owner attrs body image)
    (linked : (Module.ofMethod owner attrs method).Linked image context program tailCalls state)
    (isStatic : method.attrs.isStatic = true) (returns : method.ret.isVoid = false)
    (areNumbers : ∀ param ∈ method.params, param.type = .int32)
    (values : ∀ cls ∈ program, ∀ root ∈ cls.roots, root.HoldsValues) {machine : Machine}
    (sameImage : machine.image = state.target) {args : List Int32}
    (count : args.length = method.params.length) {fuel : Nat} {datum : Datum} {data : List Datum}
    {value : Value}
    (evaluated : (body.evalBody fuel (method.params.map Param.name) (args.map .number)).run [] =
      some (datum, data)) (isValue : datum.value? = some value) :
    ∃ enough answer later, (answer = .ok value ∨ answer = .error (.stackOverflow machine.maxDepth)) ∧
      ∀ fuel, enough ≤ fuel →
        machine.invokeStatic fuel owner method.name (args.map .int32) = some (answer, later) := by
  obtain ⟨routine, ctor, isMethod⟩ := linked.accepted.isMethod standalone.isBody
  have planned := isMethod.planned linked.built standalone linked.accepted
  have isPlan : Blueprint.ofMethod owner attrs method routine ctor ∈
      Blueprint.allOfMethod owner attrs method routine ctor := List.mem_cons_self
  have isTask : ∀ {task}, task ∈ (Blueprint.ofMethod owner attrs method routine ctor).tasks owner →
      task ∈ program.tasks := fun isTask => planned.mem_tasks.mpr ⟨_, isPlan, isTask⟩
  have built := linked.finished.built linked.built
  -- The class is there, under its name.
  obtain ⟨handle, info, -, isOwner, -, isInfo, isTypeName, isDeclared, complete⟩ :=
    linked.finished.completes (isTask (Blueprint.mem_tasks.mpr .completed))
  -- So is the method, with the code that was generated for it.
  obtain ⟨order, runs, isDone⟩ :=
    linked.exists_runs (isTask (Blueprint.mem_tasks.mpr .methodCode))
  obtain ⟨before, found, entry, code, moves, growth, generated, isFound, isEntry, isCode⟩ :=
    runs.method_defined isDone
  obtain ⟨_, _, _, _, sameOwner, sameInfo, listed, sameFound, sameEntry, isName, isAttrs, areParams,
      -⟩ : state.HoldsMethod (method.key owner) method.attrs (method.key owner).params method.ret :=
    linked.finished.realized _ (isTask (Blueprint.mem_tasks.mpr .method))
      (by simp [Task.outputs])
  cases sameOwner.symm.trans isOwner
  cases sameInfo.symm.trans isInfo
  cases sameFound.symm.trans isFound
  cases sameEntry.symm.trans isEntry
  obtain ⟨tasks, -, underway⟩ := runs.underway linked.built fun _ isTask => planned.plain isTask
  have isType : machine.image.typeNamed? owner = some handle.handle := by
    have isTypeName : info.name = owner := isTypeName
    rw [sameImage, ← isTypeName]
    exact built.named handle.handle info isInfo isDeclared
  have fits : machine.argsFit (args.map .int32) entry.params = true := by
    have related := Ty.resolveList_eq_ok.mp areParams
    refine machine.argsFit_numbers ?_ fun param isParam => ?_
    · rw [count, ← related.length_eq]
      exact (List.length_map _).symm
    · obtain ⟨type, isType, resolved⟩ := exists_related_left related isParam
      obtain ⟨source, isSource, rfl⟩ := List.mem_map.mp isType
      rw [areNumbers source isSource] at resolved
      exact (Except.ok.inj resolved).symm
  have isStaticEntry : entry.attrs.isStatic = true := isAttrs ▸ isStatic
  have located : machine.findStatic owner method.name (args.map .int32) = .ok found := by
    have isName : entry.name = method.name := isName
    rw [← isName]
    refine Machine.findStatic_eq_ok isType (sameImage ▸ isInfo) complete listed (sameImage ▸ isEntry)
      isStaticEntry fits fun other isListed _ _ _ => ?_
    exact planned.eq_handle isPlan underway linked.built isOwner isInfo isFound isListed
  have arguments : (ClassDef.ofMethod owner attrs method).arguments method.attrs.isStatic
      method.params = method.params := by
    rw [ClassDef.arguments, if_pos isStatic]
  have checked := isMethod.checked
  rw [arguments] at checked
  have supported : routine.body.Supported (linked.linkage owner) := by
    obtain ⟨cls, isClass, rfl, isRoot⟩ := isMethod.exists_root
    exact ⟨linked.furnishes isClass isRoot, values cls isClass _ isRoot⟩
  unfold Machine.invokeStatic
  rw [located]
  exact Linkage.answers_static sameImage isEntry isStaticEntry isCode
    (linked.admits owner moves growth) generated checked supported returns count areNumbers evaluated
    isValue

/-- A module with one static method, whose body has no objects and is annotated with types that
exist, compiles into an image in which the names of its types are free, unless the method has 65536
parameters and variables or more.  A host that calls the method with numbers then gets what the body
evaluates to, or learns that there is no room for another level. -/
theorem Module.compiled_method_answers (built : image.Built) (isStatic : method.attrs.isStatic = true)
    (isBody : method.body = some body) (areNumbers : ∀ param ∈ method.params, param.type = .int32)
    (isRet : method.ret = .int32 ∨ method.ret = .bool) (elementary : body.Elementary image [owner])
    (free : ∀ name ∈ (Module.ofMethod owner attrs method).typeNames, image.typeNamed? name = none)
    (checked : (Module.ofMethod owner attrs method).check image = .ok program)
    (values : ∀ cls ∈ program, ∀ root ∈ cls.roots, root.HoldsValues) (options : CompileOptions) :
    (∀ diagnostic after,
      (Module.ofMethod owner attrs method).compile options image = (.error diagnostic, after) →
        65536 ≤ method.params.length + body.boundNames.length ∧
          (diagnostic = .target .tooManyLocals ∨ ∃ index : Nat,
            diagnostic = .internal ("argument index " ++ toString index ++ " out of range"))) ∧
    ∀ compiled after,
      (Module.ofMethod owner attrs method).compile options image = (.ok compiled, after) →
        ∀ machine : Machine, machine.image = after →
        ∀ args : List Int32, args.length = method.params.length →
        ∀ fuel datum data value,
          (body.evalBody fuel (method.params.map Param.name) (args.map .number)).run [] =
              some (datum, data) → datum.value? = some value →
            ∃ enough answer later,
              (answer = .ok value ∨ answer = .error (.stackOverflow machine.maxDepth)) ∧
                ∀ fuel, enough ≤ fuel →
                  machine.invokeStatic fuel owner method.name (args.map .int32) =
                    some (answer, later) := by
  have arguments : (ClassDef.ofMethod owner attrs method).arguments method.attrs.isStatic
      method.params = method.params := by
    rw [ClassDef.arguments, if_pos isStatic]
  have standalone : method.Standalone owner attrs body image := {
    isBody, elementary, free
    arguments := by
      rw [arguments]
      exact fun param isParam => areNumbers param isParam ▸ built.knows_prim .int32
    ret := by
      rcases isRet with isRet | isRet <;> rw [isRet] <;> exact built.knows_prim _ }
  refine ⟨fun diagnostic after failed => ?_, fun compiled after done machine sameImage args count
    fuel datum data value evaluated isValue => ?_⟩
  · have faults := standalone.compile_fault built checked (congrArg Prod.fst failed)
    rwa [MethodDef.variableCount, arguments] at faults
  · obtain ⟨context, other, state, sameProgram, linked, -, rfl⟩ := Module.linked_of_compile built done
    cases checked.symm.trans sameProgram
    have returns : method.ret.isVoid = false := by
      rcases isRet with isRet | isRet <;> rw [isRet] <;> rfl
    exact standalone.answers linked isStatic returns areNumbers values sameImage count evaluated
      isValue

end Methods

/-- A method that adds three to its parameter, through a function that writes to a variable around
it. -/
def MethodDef.addThree : MethodDef where
  name := "addThree"
  attrs := .publicStatic
  params := [⟨"x", .int32⟩]
  ret := .int32
  body := some (.letPar [("n", .var "x")]
    (.invoke
      (.lambda 0 [⟨"y", .int32⟩]
        (.seq [.set "n" (.binary (.op .add) (.var "n") (.var "y")), .var "n"]))
      [.literal (.int32 3)]))

/-- The method that adds three compiles, and adds three. -/
theorem Module.add_three_answers :
    ∃ program compiled after, (Module.ofMethod "Main" .publicClass .addThree).check Image.library =
        .ok program ∧
      (Module.ofMethod "Main" .publicClass .addThree).compile {} Image.library =
        (.ok compiled, after) ∧
      ∃ enough answer later, (answer = .ok (.int32 7) ∨ answer = .error (.stackOverflow 100)) ∧
        ∀ fuel, enough ≤ fuel →
          (Machine.start after 100).invokeStatic fuel "Main" "addThree" [.int32 4] =
            some (answer, later) := by
  obtain ⟨program, checked, values⟩ : ∃ program : Program,
      (Module.ofMethod "Main" .publicClass .addThree).check Image.library = .ok program ∧
        decide (∀ cls ∈ program, ∀ root ∈ cls.roots, root.HoldsValues) = true :=
    exists_ok_of_any (by decide +kernel)
  have answers := Module.compiled_method_answers .library rfl rfl (by decide +kernel) (.inl rfl)
    (by decide +kernel) (by decide +kernel) checked (of_decide_eq_true values) {}
  cases compiles : (Module.ofMethod "Main" .publicClass .addThree).compile {} Image.library with
  | mk outcome after =>
      cases outcome with
      | error diagnostic =>
          have many := (answers.1 diagnostic after compiles).1
          exact absurd many (by decide +kernel)
      | ok compiled =>
          exact ⟨program, compiled, after, checked, rfl, answers.2 compiled after compiles
            (.start after 100) rfl [4] rfl 10 (.number 7) _ (.int32 7) rfl rfl⟩

/-- A method that returns five, after it has made a function of a type that does not exist. -/
def MethodDef.unknownParameter : MethodDef where
  name := "unknownParameter"
  attrs := .publicStatic
  params := []
  ret := .int32
  body := some (.seq [.lambda 0 [⟨"x", .declared "Nope"⟩] (.var "x"), .literal (.int32 5)])

/-- A method that is accepted and has a value does not compile if it mentions a type that does not
exist, or if its class has the name of a type of the platform. -/
theorem Module.accepted_method_not_compiled :
    ((∀ body ∈ MethodDef.unknownParameter.body, ∀ node ∈ body.preorder, node.isElementary = true) ∧
      (∃ program, (Module.ofMethod "Main" .publicClass .unknownParameter).check Image.library =
        .ok program ∧ ∀ cls ∈ program, ∀ root ∈ cls.roots, root.HoldsValues) ∧
      (∃ body data, MethodDef.unknownParameter.body = some body ∧
        (body.evalBody 2 [] []).run [] = some (.number 5, data)) ∧
      ∀ tailCalls : Bool, ((Module.ofMethod "Main" .publicClass .unknownParameter).compile
        { tailCalls } Image.library).1.isOk = false) ∧
    ((Module.ofMethod "Exception" .publicClass .addThree).check Image.library).isOk = true ∧
      ∀ tailCalls : Bool, ((Module.ofMethod "Exception" .publicClass .addThree).compile
        { tailCalls } Image.library).1.isOk = false := by
  refine ⟨⟨by decide +kernel, ?_, ⟨_, _, rfl, rfl⟩, by decide +kernel⟩, by decide +kernel,
    fun tailCalls => ?_⟩
  · obtain ⟨program, checked, values⟩ : ∃ program : Program,
        (Module.ofMethod "Main" .publicClass .unknownParameter).check Image.library = .ok program ∧
          decide (∀ cls ∈ program, ∀ root ∈ cls.roots, root.HoldsValues) = true :=
      exists_ok_of_any (by decide +kernel)
    exact ⟨program, checked, of_decide_eq_true values⟩
  · cases compiles : (Module.ofMethod "Exception" .publicClass .addThree).compile { tailCalls }
        Image.library with
    | mk outcome after =>
        cases outcome with
        | error diagnostic => rfl
        | ok compiled =>
            have free := Module.free_of_compile .library compiles "Exception" (by decide +kernel)
            exact absurd free (by decide +kernel)

end ClassForge
