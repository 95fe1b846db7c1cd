import ClassForge.Proofs.Simulation.SimulatedExpressions

/-!
# Methods that are called from outside

A host that calls a static method begins with no levels that wait.  The method runs its body, and
the host gets the value of the body, or learns that there is no room for another level.
-/

namespace ClassForge

open Machine

/-! ## Runs that end -/

/-- Enough fuel lets a run go on to its end. -/
theorem Machine.Ends.exists_run {image : Image} {limit : Nat} {config : Config} {outcome : Outcome}
    {store : Store} (ends : Ends image limit config outcome store) :
    ∃ enough, ∀ fuel, enough ≤ fuel → run image limit fuel config = some (outcome, store) := by
  obtain ⟨last, reaches, isLast⟩ := ends
  induction reaches using Relation.ReflTransGen.head_induction_on with
  | refl =>
      refine ⟨1, fun fuel isEnough => ?_⟩
      obtain ⟨spare, rfl⟩ := Nat.exists_eq_add_of_le' isEnough
      rw [run, isLast]
  | head isNext _ ih =>
      obtain ⟨enough, goesOn⟩ := ih
      refine ⟨enough + 1, fun fuel isEnough => ?_⟩
      obtain ⟨spare, rfl⟩ := Nat.exists_eq_add_of_le' isEnough
      rw [← Nat.add_assoc, run, isNext]
      exact goesOn _ (Nat.le_add_left _ _)

/-- A request that arrives at a value, whatever the room, is answered with it or cut off. -/
theorem Machine.exists_answer {machine : Machine} {request : Request} {store : Store} {value : Value}
    (arrives : ∀ room, Arrives machine.image machine.maxDepth ⟨.begin request, [], room, store⟩
      fun config => ∃ later, config = ⟨.deliver value, [], room, later⟩) :
    ∃ enough answer later, (answer = .ok value ∨ answer = .error (.stackOverflow machine.maxDepth)) ∧
      ∀ fuel, enough ≤ fuel → machine.perform fuel request store = some (answer, later) := by
  have ofEnds : ∀ {room : Nat} {outcome : Outcome} {last : Store}, machine.maxDepth = room + 1 →
      Ends machine.image machine.maxDepth ⟨.begin request, [], room, store⟩ outcome last →
        ∃ enough, ∀ fuel, enough ≤ fuel → machine.perform fuel request store =
          some (Outcome.answer machine.image last outcome, { machine with store := last }) := by
    intro room outcome last isLimit ends
    obtain ⟨enough, runs⟩ := ends.exists_run
    refine ⟨enough, fun fuel isEnough => ?_⟩
    have opens : enter machine.maxDepth request [] machine.maxDepth store =
        .running ⟨.begin request, [], room, store⟩ := by
      generalize machine.maxDepth = limit at isLimit
      subst isLimit
      rfl
    unfold perform
    rw [opens]
    dsimp only
    rw [runs fuel isEnough]
    rfl
  cases isLimit : machine.maxDepth with
  | zero =>
      refine ⟨0, .error (.stackOverflow 0), { machine with store }, .inr rfl, fun fuel _ => ?_⟩
      unfold perform
      rw [isLimit]
      rfl
  | succ room =>
      rw [← isLimit]
      rcases arrives room with ⟨_, reaches, later, rfl⟩ | ⟨later, cut⟩
      · obtain ⟨enough, performs⟩ := ofEnds isLimit ⟨_, reaches, rfl⟩
        exact ⟨enough, .ok value, _, .inl rfl, performs⟩
      · obtain ⟨enough, performs⟩ := ofEnds isLimit cut
        exact ⟨enough, .error _, _, .inr rfl, performs⟩

/-! ## Static methods -/

/-- What a method with some parameters evaluates to. -/
def Expr.evalBody (fuel : Nat) (params : List Name) (body : Expr) (args : List Datum) :
    Evaluation Datum := do
  let env ← evalParams params args .empty
  eval fuel body env

/-- The value of the machine that stands for a number or a truth value. -/
def Datum.value? : Datum → Option Value
  | number value => some (.int32 value)
  | truth value => some (.ofBool value)
  | _ => none

theorem Represents.eq_of_value? {linkage : Linkage} {world : World} {heap : Heap} {type : SourceTy}
    {datum : Datum} {value other : Value} (represents : Represents linkage world heap type datum value)
    (isValue : datum.value? = some other) : value = other := by
  cases represents with
  | number | truth => exact Option.some.inj isValue
  | function => cases isValue

/-- Numbers represent themselves. -/
theorem RepresentsAll.numbers (linkage : Linkage) (world : World) (heap : Heap) {types : List SourceTy}
    {args : List Int32} (count : args.length = types.length) (areNumbers : ∀ type ∈ types, type = .int32) :
    RepresentsAll linkage world heap types (args.map .number) (args.map .int32) := by
  induction types generalizing args with
  | nil =>
      obtain rfl := List.length_eq_zero_iff.mp count
      exact .nil
  | cons type types ih =>
      obtain ⟨rfl, rest⟩ := List.forall_mem_cons.mp areNumbers
      cases args with
      | nil => cases count
      | cons arg args => exact .cons (.number arg) (ih (Nat.succ.inj count) rest)

theorem Scope.ofParams_eq_bindAll (uses : Usage) (arguments : List Param) :
    (Scope.ofParams arguments : Scope SourceTy) =
      Scope.empty.bindAll ((bindersOf uses arguments).map fun param => (param.name, param.type)) := by
  simp [Scope.ofParams, bindersOf, Function.comp_def]

section Methods

variable {linkage : Linkage} {limit fuel : Nat} {handle : MethodHandle} {info : MethodInfo}
variable {body : Body} {context : LowerContext} {routine : Routine} {expr : Expr}
variable {arguments : List Param} {ret : SourceTy} {memory : Memory} {args data : List Datum}
variable {values : List Value} {datum : Datum} {post : Config → Prop}

/-- A static method that is begun runs its body. -/
theorem Linkage.arrives_static (isMethod : linkage.image.method? handle = some info)
    (isStatic : info.attrs.isStatic = true) (isCode : info.implementation = .code body)
    (admits : linkage.Admits context) (code : routine.code context = .ok body)
    (checked : linkage.typing.ChecksRoutine arguments ret expr routine)
    (supported : routine.body.Supported linkage)
    (isValue : ∀ argument ∈ arguments, argument.type.isVoid = false) (fits : memory.Fits linkage)
    (areArgs : RepresentsAll linkage memory.world memory.store.heap (arguments.map Param.type) args
      values)
    (evaluated : (expr.evalBody fuel (arguments.map Param.name) args).run memory.data =
      some (datum, data)) {levels : List Level} {room : Nat}
    (rest : ∀ value later, memory.Yields linkage ret datum data value later →
      Arrives linkage.image limit ⟨.deliver value, levels, room, later.store⟩ post) :
    Arrives linkage.image limit
      ⟨.begin (.method ⟨handle, values, false⟩), levels, room, memory.store⟩ post := by
  obtain ⟨inner, between, binds, evaluatedBody⟩ := Evaluation.run_bind_eq_some.mp evaluated
  obtain ⟨emitter, written, placed, unpinned⟩ := Lower.assemble_eq_ok code
    ((context.bindParams_adds _ _ _).bind fun _ => context.lowerResult_adds _ _ _)
  obtain ⟨locals, heap, count, retains, ran⟩ := Frame.run_start linkage.image body values memory.store
  refine Seat.arrives_begin (Machine.begin_methodCode isMethod isCode
    (fun isInstance => by cases isStatic.symm.trans isInstance) ran) ?_
  let now : Situation := ⟨body.frame values locals, memory.withStore { memory.store with heap },
    fun _ => none⟩
  have advances : memory.Advances linkage (fun _ => none) now.memory :=
    Memory.advances_withStore retains _
  have ready : now.Ready linkage context ⟨false, levels, room⟩ .empty .empty .empty {} := {
    admits
    isMethod := rfl
    sound := {
      unpinned
      fits := fits.withStore retains
      carries := {
        has := nofun
        apart := nofun
        receiver := nofun
        locals := by simpa [now, Body.frame] using count }
      below := fun _ _ => rfl }
    stands := Stands.empty _ _ }
  have isParams : routine.params = bindersOf expr.usage arguments := checked.params
  have held : ∀ (index : Nat) param datum, routine.params[index]? = some param →
      args[index]? = some datum → ∃ value, now.frame.args[0 + index]? = some value ∧
        Represents linkage now.memory.world now.memory.store.heap param.type datum value := by
    intro index param datum isParam isDatum
    rw [isParams, bindersOf, List.getElem?_map, Option.map_eq_some_iff] at isParam
    obtain ⟨argument, isArgument, rfl⟩ := isParam
    have isType : (arguments.map Param.type)[index]? = some argument.type := by
      rw [List.getElem?_map, isArgument, Option.map_some]
    obtain ⟨value, isHeld, represents⟩ := areArgs.get isType isDatum
    refine ⟨value, ?_, represents.mono advances.worlds advances.heaps⟩
    simpa [now, Body.frame] using isHeld
  have names : routine.params.map Binder.name = arguments.map Param.name := by
    simp [isParams, bindersOf, Function.comp_def]
  have paramValues : ∀ param ∈ routine.params, param.type.isVoid = false := by
    rw [isParams]
    exact List.forall_mem_map.mpr isValue
  have bodyChecked : expr.Checks linkage.typing
      (Scope.empty.bindAll (routine.params.map fun param => (param.name, param.type)))
      routine.body := by
    rw [isParams, ← Scope.ofParams_eq_bindAll]
    exact checked.checked
  change Arrives _ _ (now.config ⟨false, levels, room⟩ (Emitter.position {}) []) post
  refine now.arrives_routine (Expr.simulated linkage limit fuel bodyChecked supported)
    (checked.returns ▸ checked.result) ready (fun _ _ => rfl) paramValues held (names ▸ binds)
    evaluatedBody written placed fun value final isEnd => rest value final ?_
  exact {
    fits := isEnd.fits
    advances := advances.andThen isEnd.advances
    data := isEnd.data
    represents := checked.returns ▸ isEnd.represents }

end Methods

/-- A host that calls a static method with numbers gets what the body evaluates to, if that is a
number or a truth value, or learns that there is no room. -/
theorem Linkage.answers_static {linkage : Linkage} {fuel : Nat} {handle : MethodHandle}
    {info : MethodInfo} {body : Body} {context : LowerContext} {routine : Routine} {expr : Expr}
    {arguments : List Param} {ret : SourceTy} {args : List Int32} {datum : Datum} {data : List Datum}
    {value : Value} {machine : Machine} (sameImage : machine.image = linkage.image)
    (isMethod : linkage.image.method? handle = some info) (isStatic : info.attrs.isStatic = true)
    (isCode : info.implementation = .code body) (admits : linkage.Admits context)
    (code : routine.code context = .ok body)
    (checked : linkage.typing.ChecksRoutine arguments ret expr routine)
    (supported : routine.body.Supported linkage) (returns : ret.isVoid = false)
    (count : args.length = arguments.length)
    (areNumbers : ∀ argument ∈ arguments, argument.type = .int32)
    (evaluated : (expr.evalBody fuel (arguments.map Param.name) (args.map .number)).run [] =
      some (datum, data)) (isValue : datum.value? = some value) :
    ∃ enough answer later, (answer = .ok value ∨ answer = .error (.stackOverflow machine.maxDepth)) ∧
      ∀ fuel, enough ≤ fuel → machine.perform fuel
        (.method { method := handle, args := args.map .int32, isVirtual := false }) machine.store =
          some (answer, later) := by
  refine Machine.exists_answer fun room => ?_
  rw [sameImage]
  have fits : (Memory.mk [] [] machine.store).Fits linkage := ⟨rfl, nofun, nofun, nofun⟩
  have areArgs : RepresentsAll linkage [] machine.store.heap (arguments.map Param.type)
      (args.map .number) (args.map .int32) := by
    refine .numbers _ _ _ (count.trans (List.length_map _).symm) ?_
    exact List.forall_mem_map.mpr areNumbers
  refine Linkage.arrives_static isMethod isStatic isCode admits code checked supported
    (fun argument isArgument => areNumbers argument isArgument ▸ rfl) fits areArgs evaluated
    fun result later yields => .here ⟨later.store, ?_⟩
  rw [(yields.represents returns).eq_of_value? isValue]

end ClassForge
