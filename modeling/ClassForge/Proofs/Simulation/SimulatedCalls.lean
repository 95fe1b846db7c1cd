import ClassForge.Proofs.Simulation.SimulatedNodes

/-!
# Calls that simulate

The call of a function starts a frame of the code behind it.  That code simulates the body of the
function, with the cells in the fields of the receiver as the variables around it and the arguments
as its parameters.
-/

namespace ClassForge

open Machine

variable {linkage : Linkage} {types : Scope SourceTy} {env : Scope Location}
    {context : LowerContext} {ret : SourceTy} {datum : Datum} {post : Config → Prop}
    {meaning : Scope Location → Evaluation Datum}

/-! ## Frames of functions -/

/-- Code of another frame has ended with a value. -/
structure Memory.Yields (linkage : Linkage) (memory : Memory) (type : SourceTy) (datum : Datum)
    (data : List Datum) (value : Value) (later : Memory) : Prop where
  fits : later.Fits linkage
  advances : memory.Advances linkage (fun _ => none) later
  data : later.data = data
  represents : type.isVoid = false →
    Represents linkage later.world later.store.heap type datum value

namespace Closure

variable {linkage : Linkage} {closure : Closure} {image : Image} {receiver : Value}
variable {fields : Array Value}

/-- The code of a function knows no variable when it begins. -/
theorem contents_ne_located (place : Place) (location : Location) :
    contents image receiver fields place ≠ some (.located location) := by
  intro known
  unfold contents at known
  split at known
  · cases known
  · obtain ⟨_, -, same⟩ := Option.map_eq_some_iff.mp known
    cases same
  · cases known

theorem contents_argument {slot : Nat} (isParam : 1 ≤ slot) :
    contents image receiver fields (.argument slot) = none := by
  unfold contents
  split
  · next same => cases same; cases isParam
  · next same => cases same
  · rfl

theorem contents_below (count : Nat) : (contents image receiver fields).Below count :=
  fun _ _ => rfl

end Closure

theorem LowerContext.lowerResult_adds (context : LowerContext) (body : Core) (ret : SourceTy)
    (bindings : Scope Binding) : (context.lowerResult body ret bindings).Adds :=
  (Lower.Adds.compositional context).lowerResult (body.lower_adds _) ret

/-- The result of a function is what its body gives, if it has one. -/
theorem Lower.arrives_lowerResult {limit : Nat} {bindings : Scope Binding} {seat : Seat}
    {before after : Emitter} {now : Situation} {body : Core} {data : List Datum}
    (simulates : body.Simulates linkage limit types meaning)
    (fits : ret.isVoid = true ∨ linkage.typing.isAssignable body.type ret = true)
    (ready : now.Ready linkage context seat types env bindings before)
    (written : (context.lowerResult body ret bindings).Writes before () after)
    (placed : after.PlacedIn now.frame.body)
    (evaluated : (meaning env).run now.memory.data = some (datum, data))
    (ends : ∀ value memory, now.Ends linkage ret datum data value memory →
      Arrives linkage.image limit ⟨.deliver value, seat.levels, seat.room, memory.store⟩ post) :
    Arrives linkage.image limit (now.config seat before.position []) post := by
  have unpinned := ready.sound.unpinned
  -- The frame ends with the value on top of the stack.
  have delivers : ∀ (last : Emitter), (last.emit .ret).PlacedIn now.frame.body →
      ∀ later stack, now.Resumes linkage later data →
      (ret.isVoid = false → Represents linkage later.memory.world later.memory.store.heap ret datum
        (stack.head?.getD .null)) →
      Arrives linkage.image limit (later.config seat last.position stack) post := by
    intro last isPlaced later stack resumes represents
    refine Seat.arrives_ret (resumes.body ▸ isPlaced.last) (resumes.body ▸ unpinned) ?_
    exact ends _ later.memory ⟨resumes.fits, resumes.advances, resumes.data, represents⟩
  -- A call in tail position has the type of the result.
  have endsBody : (context.tailCalls && decide (body.type = ret)) = true → ∀ value memory,
      now.Ends linkage body.type datum data value memory →
        Arrives linkage.image limit ⟨.deliver value, seat.levels, seat.room, memory.store⟩ post := by
    intro isTail value memory isEnd
    have same : body.type = ret := of_decide_eq_true (Bool.and_eq_true_iff.mp isTail).2
    exact ends value memory (same ▸ isEnd)
  obtain ⟨_, first, writtenBody, written⟩ := Lower.writes_bind.mp written
  split at written
  · next isVoid =>
      obtain ⟨_, last, drops, returns⟩ := Lower.writes_bind.mp written
      obtain rfl := Lower.writes_emit.mp returns
      have isPlaced := placed.before_emit.of_precedes (Lower.Adds.popValue _ _ _ _ drops)
      refine simulates ready writtenBody isPlaced evaluated (fun later values resumes pushed => ?_)
        endsBody
      refine pushed.arrives_popValue drops (resumes.body ▸ placed.before_emit) ?_
      exact delivers last placed later [] resumes fun isValue => by simp [isVoid] at isValue
  · next isValue =>
      obtain rfl := Lower.writes_emit.mp written
      have isValue := Bool.eq_false_iff.mpr isValue
      have assignable := fits.resolve_left (by simp [isValue])
      refine simulates ready writtenBody placed.before_emit evaluated
        (fun later values resumes pushed => ?_) endsBody
      obtain ⟨value, rfl, represents⟩ :=
        pushed.exists_value (TypeContext.isVoid_of_isAssignable assignable isValue)
      exact delivers first placed later [value] resumes fun _ => represents.assign assignable

/-- Code binds its parameters to the arguments of the frame and gives the result of its body. -/
theorem Situation.arrives_routine {limit : Nat} {inner : Scope Location} {outer : Scope Binding}
    {seat : Seat} {before after : Emitter} {now : Situation} {params : List Binder} {first : Nat}
    {body : Core} {args between data : List Datum}
    (simulates : body.Simulates linkage limit
      (types.bindAll (params.map fun param => (param.name, param.type))) meaning)
    (fits : ret.isVoid = true ∨ linkage.typing.isAssignable body.type ret = true)
    (ready : now.Ready linkage context seat types env outer before)
    (free : ∀ slot, first ≤ slot → now.contents (.argument slot) = none)
    (paramValues : ∀ param ∈ params, param.type.isVoid = false)
    (held : ∀ index param datum, params[index]? = some param → args[index]? = some datum →
      ∃ value, now.frame.args[first + index]? = some value ∧
        Represents linkage now.memory.world now.memory.store.heap param.type datum value)
    (binds : (Expr.evalParams (params.map Binder.name) args env).run now.memory.data =
      some (inner, between)) (evaluated : (meaning inner).run between = some (datum, data))
    (written : (do
      let scope ← context.bindParams params first outer
      context.lowerResult body ret scope).Writes before () after)
    (placed : after.PlacedIn now.frame.body)
    (ends : ∀ value memory, now.Ends linkage ret datum data value memory →
      Arrives linkage.image limit ⟨.deliver value, seat.levels, seat.room, memory.store⟩ post) :
    Arrives linkage.image limit (now.config seat before.position []) post := by
  obtain ⟨bindings, middle, bindsParams, writtenBody⟩ := Lower.writes_bind.mp written
  refine now.arrives_bindParams ready.admits ready.sound ready.stands free paramValues held binds
    bindsParams (placed.of_precedes (context.lowerResult_adds _ _ _ _ _ _ writtenBody))
    fun later leads below isData standsInner => ?_
  have isReady : later.Ready linkage context seat
      (types.bindAll (params.map fun param => (param.name, param.type))) inner bindings middle :=
    ⟨ready.admits, ready.isMethod, leads.sound ready.sound.unpinned below, standsInner⟩
  exact Lower.arrives_lowerResult simulates fits isReady writtenBody (leads.body ▸ placed)
    (isData ▸ evaluated) fun value final isEnd => ends value final (leads.ends isEnd)

/-! ## Functions run -/

section Functions

variable {linkage : Linkage} {limit fuel : Nat} {closure : Closure} {types : Scope SourceTy}
variable {params : List Name} {body : Expr} {returns : Bool} {env : Scope Location}
variable {object : ObjRef} {cells : Param → ObjRef} {memory : Memory} {args data : List Datum}
variable {values : List Value} {datum : Datum} {handle : MethodHandle} {post : Config → Prop}

/-- The call of a function runs its body. -/
theorem Closure.StandsAt.arrives_begin {levels : List Level} {room : Nat}
    (stands : closure.StandsAt linkage memory.world memory.store.heap env object cells)
    (renders : closure.Renders linkage types params body returns)
    (simulated : Expr.Simulated linkage limit fuel) (fits : memory.Fits linkage)
    (invokes : linkage.Invokes closure.paramTypes closure.ret handle)
    (areArgs : RepresentsAll linkage memory.world memory.store.heap closure.paramTypes args values)
    (evaluated : (Expr.evalCall (Expr.eval fuel) (.function params body returns env) args).run
      memory.data = some (datum, data))
    (rest : ∀ value later, memory.Yields linkage closure.ret datum data value later →
      Arrives linkage.image limit ⟨.deliver value, levels, room, later.store⟩ post) :
    Arrives linkage.image limit
      ⟨.begin (.method ⟨handle, .ref object :: values, true⟩), levels, room, memory.store⟩ post := by
  obtain ⟨inner, between, binds, evaluated⟩ := Evaluation.run_bind_eq_some.mp evaluated
  obtain ⟨result, last, evaluatedBody, done⟩ := Evaluation.run_bind_eq_some.mp evaluated
  obtain ⟨rfl, rfl⟩ := Evaluation.run_pure_eq_some.mp done
  refine stands.made.arrives_begin invokes fun layout target fields locals heap retains count isTarget
    holds => ?_
  obtain ⟨context, admits, code⟩ := layout.invokeCode
  obtain ⟨emitter, written, placed, unpinned⟩ := Lower.assemble_eq_ok code
    ((Lower.Adds.lift _).bind fun _ => (context.bindParams_adds _ _ _).bind fun _ =>
      context.lowerResult_adds _ _ _)
  obtain ⟨outer, areFields, written⟩ := Lower.writes_lift_bind.mp written
  let now : Situation := ⟨layout.invokeBody.frame (.ref target :: values) locals,
    memory.withStore { memory.store with heap }, Closure.contents linkage.image (.ref target) fields⟩
  have advances : memory.Advances linkage (fun _ => none) now.memory :=
    Memory.advances_withStore retains _
  have ready : now.Ready linkage context ⟨false, levels, room⟩ types env outer {} := {
    admits
    isMethod := rfl
    sound := {
      unpinned
      fits := fits.withStore retains
      carries := layout.carries_start count isTarget
      below := Closure.contents_below _ }
    stands := Closure.stands_bindFields admits renders.captured stands.captured holds
      (Stands.empty types env) areFields }
  have held : ∀ (index : Nat) param datum, closure.params[index]? = some param →
      args[index]? = some datum → ∃ value, now.frame.args[1 + index]? = some value ∧
        Represents linkage now.memory.world now.memory.store.heap param.type datum value := by
    intro index param datum isParam isDatum
    have isType : closure.paramTypes[index]? = some param.type := by
      rw [Closure.paramTypes, List.getElem?_map, isParam, Option.map_some]
    obtain ⟨value, isHeld, represents⟩ := areArgs.get isType isDatum
    refine ⟨value, ?_, represents.mono advances.worlds advances.heaps⟩
    simpa [now, Body.frame, Nat.add_comm 1 index] using isHeld
  change Arrives _ _ (now.config ⟨false, levels, room⟩ (Emitter.position {}) []) post
  refine now.arrives_routine (simulated renders.checked ⟨renders.furnished, renders.values⟩)
    renders.result ready (fun slot isParam => Closure.contents_argument isParam) renders.paramValues
    held (renders.params ▸ binds) evaluatedBody written placed fun value final isEnd =>
      rest value final ?_
  exact {
    fits := isEnd.fits
    advances := advances.trans isEnd.advances fun place location known =>
      (Closure.contents_ne_located place location known).elim
    data := isEnd.data
    represents := fun isValue => by
      rw [if_pos (renders.returns isValue)]
      exact isEnd.represents isValue }

/-! ## Callers -/

variable {context : LowerContext} {seat : Seat} {names : Scope SourceTy} {outer : Scope Location}
variable {bindings : Scope Binding} {before after : Emitter} {now : Situation} {tail : Bool}
variable {type ret : SourceTy} {paramTypes : List SourceTy} {function : Datum} {value : Value}
variable {stack : List Value}

/-- The frame goes on when a function that it has called is done. -/
theorem Situation.Ready.resumes (ready : now.Ready linkage context seat names outer bindings before)
    {later : Memory} (yields : now.memory.Yields linkage ret datum data value later) :
    now.Resumes linkage (now.withMemory later) data where
  body := rfl
  fits := yields.fits
  carries := ready.sound.carries.mono yields.advances
  advances := yields.advances.weaken _
  keeps _ _ := id
  fresh _ _ := .inl
  same := rfl
  data := yields.data

/-- A function that is on the stack below its arguments is called. -/
theorem Situation.arrives_invoke
    (ready : now.Ready linkage context seat names outer bindings before)
    (simulated : Expr.Simulated linkage limit fuel)
    (signature : type.signature? = some (paramTypes, ret))
    (represents : Represents linkage now.memory.world now.memory.store.heap type function value)
    (areArgs : RepresentsAll linkage now.memory.world now.memory.store.heap paramTypes args values)
    (evaluated : (Expr.evalCall (Expr.eval fuel) function args).run now.memory.data =
      some (datum, data))
    (written : (do
      let invoke ← context.delegateInvoke type
      Lower.emitCall invoke true tail).Writes before () after)
    (placed : after.PlacedIn now.frame.body)
    (falls : ∀ later values, now.Resumes linkage later data →
      Pushed linkage later.memory ret datum values →
        Arrives linkage.image limit (later.config seat after.position (values ++ stack)) post)
    (ends : tail = true → ∀ value memory, now.Ends linkage ret datum data value memory →
      Arrives linkage.image limit ⟨.deliver value, seat.levels, seat.room, memory.store⟩ post) :
    Arrives linkage.image limit
      (now.config seat before.position (values.reverse ++ value :: stack)) post := by
  cases represents with
  | number => cases evaluated
  | truth => cases evaluated
  | @function closure types params body returns env object cells _ renders stands typed =>
      rcases typed with rfl | ⟨builtin, rfl⟩
      · obtain ⟨rfl, rfl⟩ := Prod.mk.inj (Option.some.inj
          ((Ty.signature?_delegate _ _).symm.trans signature))
        obtain ⟨handle, middle, found, calls⟩ := Lower.writes_bind.mp written
        obtain ⟨rfl, invokes⟩ := ready.admits.writes_delegateInvoke found
        have isCalled := invokes
        obtain ⟨_, _, family, result, -, -, -, isMethod, isResult⟩ := isCalled
        have count : (Image.invokeInfo family closure.paramTypes.length result).params.length =
            values.length := List.length_replicate.trans areArgs.length.symm
        have onReturn : (Image.invokeInfo family closure.paramTypes.length result).onReturn =
            if closure.ret.isVoid then .drop else .push := by
          rw [← isResult]
          rfl
        have calls := Lower.writes_emit_bind.mp calls
        rw [if_pos rfl] at calls
        cases tail with
        | true =>
            obtain rfl := Lower.writes_emit.mp calls
            refine Seat.arrives_tailCallVirtual placed.before_emit.last isMethod rfl count areArgs.own
              ready.sound.unpinned ready.isMethod ?_
            exact stands.arrives_begin renders simulated ready.sound.fits invokes areArgs evaluated
              fun value later yields => ends rfl value later ⟨yields.fits, yields.advances.weaken _,
                yields.data, yields.represents⟩
        | false =>
            obtain ⟨-, rfl⟩ := Lower.writes_pure.mp calls
            refine Seat.arrives_callVirtual placed.last isMethod rfl count areArgs.own
              fun room isRoom => ?_
            refine stands.arrives_begin renders simulated ready.sound.fits invokes areArgs evaluated
              fun value later yields => ?_
            refine Seat.arrives_deliver isRoom ?_
            rw [← Emitter.position_emit, onReturn]
            have resumes := ready.resumes yields
            cases isVoid : closure.ret.isVoid with
            | true => exact falls (now.withMemory later) [] resumes (.nothing isVoid)
            | false =>
                exact falls (now.withMemory later) [value] resumes
                  (.value isVoid (yields.represents isVoid))
      · cases signature

end Functions

/-! ## Nodes -/

/-- A function takes no arguments of type `Void`. -/
theorem Represents.values_of_signature {world : World} {heap : Heap} {type : SourceTy}
    {params : List SourceTy} {value : Value}
    (represents : Represents linkage world heap type datum value)
    (signature : type.signature? = some (params, ret)) :
    ∀ param ∈ params, param.isVoid = false := by
  cases represents with
  | number => cases signature
  | truth => cases signature
  | @function closure types names body returns env object cells _ renders stands typed =>
      rcases typed with rfl | ⟨builtin, rfl⟩
      · obtain ⟨rfl, -⟩ := Prod.mk.inj (Option.some.inj
          ((Ty.signature?_delegate _ _).symm.trans signature))
        exact List.forall_mem_map.mpr renders.paramValues
      · cases signature

namespace Core

variable {linkage : Linkage} {limit : Nat} {types : Scope SourceTy}
variable {eval : Expr → Scope Location → Evaluation Datum}

/-- Operands leave their values, one on top of the other. -/
theorem arrives_lowerAll {context : LowerContext} {seat : Seat} {env : Scope Location}
    {bindings : Scope Binding} {before after : Emitter} {now : Situation} {args data : List Datum}
    {stack : List Value} {post : Config → Prop} {items : List Expr} {cores : List Core}
    (simulate : List.Forall₂ (fun item core =>
      Simulates linkage limit types core (eval item)) items cores)
    (values : ∀ core ∈ cores, (type core).isVoid = false)
    (ready : now.Ready linkage context seat types env bindings before)
    (written : (lowerAll context cores bindings).Writes before () after)
    (placed : after.PlacedIn now.frame.body)
    (evaluated : (Expr.evalAll eval items env).run now.memory.data = some (args, data))
    (rest : ∀ later values, now.Resumes linkage later data →
      RepresentsAll linkage later.memory.world later.memory.store.heap (cores.map type) args values →
        Arrives linkage.image limit (later.config seat after.position (values.reverse ++ stack)) post) :
    Arrives linkage.image limit (now.config seat before.position stack) post := by
  induction simulate generalizing now before args stack with
  | nil =>
      obtain ⟨rfl, rfl⟩ := Evaluation.run_pure_eq_some.mp evaluated
      obtain ⟨-, rfl⟩ := Lower.writes_pure.mp written
      exact rest now [] ⟨ready.sound.leads, rfl, rfl⟩ .nil
  | @cons item core items cores first others ih =>
      obtain ⟨datum, between, evaluatedFirst, evaluated⟩ := Evaluation.run_bind_eq_some.mp evaluated
      obtain ⟨more, last, evaluatedRest, done⟩ := Evaluation.run_bind_eq_some.mp evaluated
      obtain ⟨rfl, rfl⟩ := Evaluation.run_pure_eq_some.mp done
      obtain ⟨_, middle, writtenFirst, writtenRest⟩ := Lower.writes_bind.mp written
      have adds : (lowerAll context cores bindings).Adds :=
        lowerAll_adds _
      refine first.operand (values core List.mem_cons_self) ready writtenFirst
        (placed.of_precedes (adds _ _ _ writtenRest)) evaluatedFirst
        fun later value resumes represents => ?_
      refine ih (List.forall_mem_cons.mp values).2
        (ready.resume resumes (core.lower_adds _ _ _ _ _ writtenFirst).locals) writtenRest
        (resumes.body ▸ placed) (resumes.data ▸ evaluatedRest) fun final pushed further all => ?_
      have arrives := rest final (value :: pushed) (resumes.trans further)
        (.cons (represents.mono further.advances.worlds further.advances.heaps) all)
      simpa using arrives

theorem simulates_invoke {fuel : Nat} {function : Core} {expr : Expr} {items : List Expr}
    {cores : List Core} {params : List SourceTy} {ret : SourceTy}
    (simulated : Expr.Simulated linkage limit fuel)
    (signature : function.type.signature? = some (params, ret))
    (assignable : List.Forall₂ (fun (core : Core) param =>
      linkage.typing.isAssignable core.type param = true) cores params)
    (functionSimulates : function.Simulates linkage limit types (expr.eval fuel))
    (simulate : List.Forall₂ (fun item core =>
      Simulates linkage limit types core (Expr.eval fuel item)) items cores) :
    (invoke ret function cores).Simulates linkage limit types (fun env => do
      let function ← expr.eval fuel env
      let args ← Expr.evalAll (Expr.eval fuel) items env
      Expr.evalCall (Expr.eval fuel) function args) := by
  intro context seat tail env bindings before after now datum data stack post ready written placed
    evaluated falls ends
  obtain ⟨called, between, evaluatedFunction, evaluated⟩ := Evaluation.run_bind_eq_some.mp evaluated
  obtain ⟨args, middle, evaluatedArgs, evaluatedCall⟩ := Evaluation.run_bind_eq_some.mp evaluated
  obtain ⟨_, first, writtenFunction, written⟩ := Lower.writes_bind.mp written
  obtain ⟨_, second, writtenArgs, calls⟩ := Lower.writes_bind.mp written
  have isValue : function.type.isVoid = false := by
    cases isVoid : function.type.isVoid with
    | false => rfl
    | true =>
        rw [Ty.isVoid_iff.mp isVoid] at signature
        cases signature
  have addsCall : (do
      let invoke ← context.delegateInvoke function.type
      Lower.emitCall invoke true tail).Adds :=
    (context.delegateInvoke_adds _).bind fun _ => .emitCall _ _ _
  have adds : (lowerAll context cores bindings).Adds :=
    lowerAll_adds _
  have placedArgs := placed.of_precedes (addsCall _ _ _ calls)
  have placedFunction := placedArgs.of_precedes (adds _ _ _ writtenArgs)
  refine functionSimulates.operand isValue ready writtenFunction placedFunction evaluatedFunction
    fun later value resumes represents => ?_
  have isReady : later.Ready linkage context seat types env bindings first :=
    ready.resume resumes (function.lower_adds _ _ _ _ _ writtenFunction).locals
  have values : ∀ core ∈ cores, (type core).isVoid = false := by
    intro core isCore
    obtain ⟨param, isParam, fits⟩ := exists_related_right assignable isCore
    exact TypeContext.isVoid_of_isAssignable fits
      (represents.values_of_signature signature param isParam)
  refine arrives_lowerAll simulate values isReady writtenArgs (resumes.body ▸ placedArgs)
    (resumes.data ▸ evaluatedArgs) fun final pushed further all => ?_
  have total := resumes.trans further
  have isFinal : final.Ready linkage context seat types env bindings second :=
    isReady.resume further (adds _ _ _ writtenArgs).locals
  exact Situation.arrives_invoke isFinal simulated signature
    (represents.mono further.advances.worlds further.advances.heaps) (all.assign assignable)
    (total.data ▸ evaluatedCall) calls (total.body ▸ placed)
    (fun last values more => falls last values (total.trans more))
    fun isTail value memory isEnd => ends isTail value memory (total.toLeads.ends isEnd)

end Core

end ClassForge
