import ClassForge.Proofs.Simulation.SimulatedOperators

/-!
# Nodes that simulate

The code of a node simulates the node when the code of its parts does.
-/

namespace ClassForge

open Machine

/-- A variable is not of type `Void`. -/
theorem Binding.KeptAt.isValue {linkage : Linkage} {memory : Memory} {contents : Contents}
    {binding : Binding} {location : Location}
    (kept : binding.KeptAt memory.world contents location) (fits : memory.Fits linkage) :
    binding.type.isVoid = false := by
  cases isBoxed : binding.boxed with
  | true =>
      obtain ⟨cell, isStored, -⟩ := kept.boxed isBoxed
      exact fits.values _ (List.mem_of_getElem? isStored)
  | false => exact fits.values _ (List.mem_of_getElem? (kept.unboxed isBoxed).1)

/-- What an expression leaves is dropped. -/
theorem Pushed.arrives_popValue {linkage : Linkage} {limit : Nat} {seat : Seat} {now : Situation}
    {type : SourceTy} {datum : Datum} {before after : Emitter} {values stack : List Value}
    {post : Config → Prop} (pushed : Pushed linkage now.memory type datum values)
    (drops : (Lower.popValue type).Writes before () after) (placed : after.PlacedIn now.frame.body)
    (rest : Arrives linkage.image limit (now.config seat after.position stack) post) :
    Arrives linkage.image limit (now.config seat before.position (values ++ stack)) post := by
  unfold Lower.popValue at drops
  cases pushed with
  | nothing isVoid =>
      rw [if_pos isVoid] at drops
      obtain ⟨-, rfl⟩ := Lower.writes_pure.mp drops
      exact rest
  | value isValue _ =>
      rw [if_neg (Bool.eq_false_iff.mp isValue)] at drops
      obtain rfl := Lower.writes_emit.mp drops
      refine Seat.arrives_pop placed.last ?_
      rw [← Emitter.position_emit]
      exact rest

namespace Core

variable {linkage : Linkage} {limit : Nat} {types : Scope SourceTy}
variable {meaning : Scope Location → Evaluation Datum}
    {eval : Expr → Scope Location → Evaluation Datum} {items : List Expr} {cores : List Core}
    {post : Config → Prop} {connective : Connective}

section Parts

variable {context : LowerContext} {seat : Seat} {env : Scope Location} {bindings : Scope Binding}
variable {before after : Emitter} {now : Situation} {datum : Datum} {data : List Datum}
variable {stack : List Value} {post : Config → Prop} {core : Core}
variable {meaning : Scope Location → Evaluation Datum}

variable (simulates : core.Simulates linkage limit types meaning)
include simulates

/-- An operand leaves its value. -/
theorem Simulates.operand
    (isValue : core.type.isVoid = false)
    (ready : now.Ready linkage context seat types env bindings before)
    (written : (core.lower context bindings false).Writes before () after)
    (placed : after.PlacedIn now.frame.body)
    (evaluated : (meaning env).run now.memory.data = some (datum, data))
    (rest : ∀ later value, now.Resumes linkage later data →
      Represents linkage later.memory.world later.memory.store.heap core.type datum value →
        Arrives linkage.image limit (later.config seat after.position (value :: stack)) post) :
    Arrives linkage.image limit (now.config seat before.position stack) post := by
  refine simulates ready written placed evaluated (fun later values resumes pushed => ?_) nofun
  obtain ⟨value, rfl, represents⟩ := pushed.exists_value isValue
  exact rest later value resumes represents

/-- A condition leaves a truth value. -/
theorem Simulates.test
    (isTruth : core.type = .bool) (ready : now.Ready linkage context seat types env bindings before)
    (written : (core.lower context bindings false).Writes before () after)
    (placed : after.PlacedIn now.frame.body)
    (evaluated : (meaning env).run now.memory.data = some (datum, data)) {holds : Bool}
    (decides : datum.truth? = some holds)
    (rest : ∀ later, now.Resumes linkage later data →
      Arrives linkage.image limit (later.config seat after.position (.ofBool holds :: stack)) post) :
    Arrives linkage.image limit (now.config seat before.position stack) post := by
  refine simulates.operand (isTruth ▸ rfl) ready written placed evaluated
    fun later value resumes represents => ?_
  rw [isTruth] at represents
  cases represents with
  | truth truth =>
      cases decides
      exact rest later resumes
  | function => cases decides

/-- What a part leaves is dropped. -/
theorem Simulates.dropped
    (ready : now.Ready linkage context seat types env bindings before) {middle : Emitter}
    (written : (core.lower context bindings false).Writes before () middle)
    (drops : (Lower.popValue core.type).Writes middle () after)
    (placed : after.PlacedIn now.frame.body)
    (evaluated : (meaning env).run now.memory.data = some (datum, data))
    (rest : ∀ later, now.Resumes linkage later data →
      Arrives linkage.image limit (later.config seat after.position stack) post) :
    Arrives linkage.image limit (now.config seat before.position stack) post := by
  have isPart := placed.of_precedes (Lower.Adds.popValue _ _ _ _ drops)
  refine simulates ready written isPart evaluated (fun later values resumes pushed => ?_) nofun
  exact pushed.arrives_popValue drops (resumes.body ▸ placed) (rest later resumes)

/-- A part simulates after other code of the same expression, too. -/
theorem Simulates.next
    (ready : now.Ready linkage context seat types env bindings before) {later : Situation}
    {middle : Emitter} {between : List Datum} {tail : Bool}
    (resumes : now.Resumes linkage later between) (grows : before.locals.size ≤ middle.locals.size)
    (written : (core.lower context bindings tail).Writes middle () after)
    (placed : after.PlacedIn now.frame.body)
    (evaluated : (meaning env).run between = some (datum, data))
    (falls : ∀ final values, now.Resumes linkage final data →
      Pushed linkage final.memory core.type datum values →
        Arrives linkage.image limit (final.config seat after.position (values ++ stack)) post)
    (ends : tail = true → ∀ value memory, now.Ends linkage core.type datum data value memory →
      Arrives linkage.image limit ⟨.deliver value, seat.levels, seat.room, memory.store⟩ post) :
    Arrives linkage.image limit (later.config seat middle.position stack) post :=
  simulates (ready.resume resumes grows) written (resumes.body ▸ placed) (resumes.data ▸ evaluated)
    (fun final values further => falls final values (resumes.trans further))
    fun isTail value memory isEnd => ends isTail value memory (resumes.toLeads.ends isEnd)

end Parts

/-! ## Leaves -/

theorem simulates_number (value : Int32) :
    (literal (.int32 value)).Simulates linkage limit types fun _ => return .number value := by
  intro context seat tail env bindings before after now datum data stack post ready written placed
    evaluated falls _
  obtain ⟨rfl, rfl⟩ := Evaluation.run_pure_eq_some.mp evaluated
  obtain rfl := Lower.writes_emitAll_nil.mp (Lower.writes_emitAll_cons.mp written)
  refine Seat.arrives_const placed.last ?_
  rw [← Emitter.position_emit]
  exact falls now _ ⟨ready.sound.leads, rfl, rfl⟩ (.value rfl (.number value))

theorem simulates_truth (value : Bool) :
    (literal (.bool value)).Simulates linkage limit types fun _ => return .truth value := by
  intro context seat tail env bindings before after now datum data stack post ready written placed
    evaluated falls _
  obtain ⟨rfl, rfl⟩ := Evaluation.run_pure_eq_some.mp evaluated
  obtain rfl := Lower.writes_emitAll_nil.mp (Lower.writes_emitAll_cons.mp written)
  refine Seat.arrives_const placed.last ?_
  rw [← Emitter.position_emit]
  exact falls now _ ⟨ready.sound.leads, rfl, rfl⟩ (.value rfl (.truth value))

theorem simulates_var {name : Name} {type : SourceTy} (bound : types.get? name = some type) :
    (var name type).Simulates linkage limit types fun env =>
      Evaluation.locate env name >>= Evaluation.read := by
  intro context seat tail env bindings before after now datum data stack post ready written placed
    evaluated falls _
  obtain ⟨location, middle, locates, reads⟩ := Evaluation.run_bind_eq_some.mp evaluated
  obtain ⟨located, rfl⟩ := Evaluation.run_lift_eq_some.mp locates
  obtain ⟨held, rfl⟩ := Evaluation.run_read_eq_some.mp reads
  obtain ⟨binding, found, fetches⟩ := Lower.writes_lift_bind.mp written
  obtain ⟨typed, other, otherLocated, kept⟩ := ready.stands name binding (Scope.lookup_eq_ok.mp found)
  cases located.symm.trans otherLocated
  cases bound.symm.trans typed
  refine Situation.arrives_fetch ready.admits ready.sound.fits ready.sound.carries kept held fetches
    placed fun value represents => ?_
  exact falls now _ ⟨ready.sound.leads, rfl, rfl⟩ (.value (kept.isValue ready.sound.fits) represents)

/-! ## Operators -/

theorem simulates_unary {op : UnaryOp} {operand : Core} {type : SourceTy} {action : Action}
    (means : Operators.unary op operand.type = .ok (type, action))
    (simulates : operand.Simulates linkage limit types meaning) :
    (apply type action [operand]).Simulates linkage limit types (fun env => do
      liftM (Datum.unary? op (← meaning env))) := by
  intro context seat tail env bindings before after now datum data stack post ready written placed
    evaluated falls _
  obtain ⟨content, middle, evaluatedOperand, computes⟩ := Evaluation.run_bind_eq_some.mp evaluated
  obtain ⟨isOutcome, rfl⟩ := Evaluation.run_lift_eq_some.mp computes
  obtain ⟨_, last, pushes, acts⟩ := Lower.writes_bind.mp written
  obtain ⟨_, first, writtenOperand, done⟩ := Lower.writes_bind.mp pushes
  obtain ⟨-, rfl⟩ := Lower.writes_pure.mp done
  refine simulates.operand (Operators.unary_leaves means).1 ready writtenOperand
    (placed.of_precedes (context.lowerAction_adds _ _ _ _ acts)) evaluatedOperand
    fun later value resumes represents => ?_
  refine Seat.arrives_unary means represents isOutcome acts (resumes.body ▸ placed)
    fun value isResult outcome => ?_
  exact falls later [value] resumes (.value isResult outcome)

theorem simulates_binary {op : BinaryOp} {left right : Core} {type : SourceTy} {action : Action}
    {first second : Scope Location → Evaluation Datum}
    (means : Operators.binary linkage.typing op left.type right.type = .ok (type, action))
    (leftSimulates : left.Simulates linkage limit types first)
    (rightSimulates : right.Simulates linkage limit types second) :
    (apply type action [left, right]).Simulates linkage limit types (fun env => do
      let left ← first env
      let right ← second env
      liftM (Datum.binary? op left right)) := by
  intro context seat tail env bindings before after now datum data stack post ready written placed
    evaluated falls _
  obtain ⟨leftDatum, between, evaluatedLeft, rest⟩ := Evaluation.run_bind_eq_some.mp evaluated
  obtain ⟨rightDatum, middle, evaluatedRight, computes⟩ := Evaluation.run_bind_eq_some.mp rest
  obtain ⟨isOutcome, rfl⟩ := Evaluation.run_lift_eq_some.mp computes
  obtain ⟨isLeftValue, isRightValue, -⟩ := Operators.binary_leaves means
  obtain ⟨_, last, pushes, acts⟩ := Lower.writes_bind.mp written
  obtain ⟨_, early, writtenLeft, pushes⟩ := Lower.writes_bind.mp pushes
  obtain ⟨_, late, writtenRight, done⟩ := Lower.writes_bind.mp pushes
  obtain ⟨-, rfl⟩ := Lower.writes_pure.mp done
  have placedRight := placed.of_precedes (context.lowerAction_adds _ _ _ _ acts)
  have placedLeft := placedRight.of_precedes (right.lower_adds _ _ _ _ _ writtenRight)
  refine leftSimulates.operand isLeftValue ready writtenLeft placedLeft evaluatedLeft
    fun later value resumes isLeft => ?_
  have isReady : later.Ready linkage context seat types env bindings early :=
    ready.resume resumes (left.lower_adds _ _ _ _ _ writtenLeft).locals
  refine rightSimulates.operand isRightValue isReady writtenRight (resumes.body ▸ placedRight)
    (resumes.data ▸ evaluatedRight) fun final other further isRight => ?_
  have total := resumes.trans further
  refine Seat.arrives_binary means (isLeft.mono further.advances.worlds further.advances.heaps)
    isRight isOutcome acts (total.body ▸ placed) fun value isResult outcome => ?_
  exact falls final [value] total (.value isResult outcome)

/-! ## Assignments and sequences -/

theorem simulates_set {name : Name} {type : SourceTy} {value : Core}
    (bound : types.get? name = some type)
    (assignable : linkage.typing.isAssignable value.type type = true)
    (simulates : value.Simulates linkage limit types meaning) :
    (set name value).Simulates linkage limit types fun env => do
      let datum ← meaning env
      Evaluation.write (← Evaluation.locate env name) datum
      return .nothing := by
  intro context seat tail env bindings before after now datum data stack post ready written placed
    evaluated falls _
  obtain ⟨content, middle, isContent, assigned⟩ := Evaluation.run_bind_eq_some.mp evaluated
  obtain ⟨location, same, locates, writes⟩ := Evaluation.run_bind_eq_some.mp assigned
  obtain ⟨_, last, assigns, done⟩ := Evaluation.run_bind_eq_some.mp writes
  obtain ⟨isLocated, rfl⟩ := Evaluation.run_lift_eq_some.mp locates
  obtain rfl := Evaluation.run_write_eq_some.mp assigns
  obtain ⟨rfl, rfl⟩ := Evaluation.run_pure_eq_some.mp done
  obtain ⟨binding, found, stores⟩ := Lower.writes_lift_bind.mp written
  obtain ⟨typed, other, isOther, kept⟩ := ready.stands name binding (Scope.lookup_eq_ok.mp found)
  cases isLocated.symm.trans isOther
  cases bound.symm.trans typed
  have isValue := TypeContext.isVoid_of_isAssignable assignable (kept.isValue ready.sound.fits)
  refine Situation.arrives_store ready.admits ready.sound kept (value.lower_adds _ _) stores placed
    (fun first last stack pushes isPlaced grows further => ?_) fun later resumes =>
      falls later [] resumes (.nothing rfl)
  exact simulates.operand isValue (ready.mono grows) pushes isPlaced isContent
    fun later value resumes represents => further later value resumes (represents.assign assignable)

theorem simulates_seq
    (simulate : List.Forall₂ (fun item core =>
      Simulates linkage limit types core (eval item)) items cores) :
    (seq cores).Simulates linkage limit types (Expr.evalSeq eval items) := by
  induction simulate with
  | nil =>
      intro context seat tail env bindings before after now datum data stack post ready written
        placed evaluated falls _
      obtain ⟨rfl, rfl⟩ := Evaluation.run_pure_eq_some.mp evaluated
      obtain ⟨-, rfl⟩ := Lower.writes_pure.mp written
      exact falls now [] ⟨ready.sound.leads, rfl, rfl⟩ (.nothing rfl)
  | @cons item core items cores first rest ih =>
      cases rest with
      | nil => exact first
      | @cons second next items cores _ _ =>
          intro context seat tail env bindings before after now datum data stack post ready written
            placed evaluated falls ends
          obtain ⟨_, between, discarded, evaluated⟩ := Evaluation.run_bind_eq_some.mp evaluated
          obtain ⟨_, evaluatedFirst⟩ := Evaluation.run_discard_eq_some.mp discarded
          obtain ⟨_, early, writtenFirst, written⟩ := Lower.writes_bind.mp written
          obtain ⟨_, middle, drops, writtenRest⟩ := Lower.writes_bind.mp written
          have isPlaced := placed.of_precedes ((seq (next :: cores)).lower_adds _ _ _ _ _ writtenRest)
          have grows := (core.lower_adds _ _ _ _ _ writtenFirst).locals.trans
            (Lower.Adds.popValue _ _ _ _ drops).locals
          exact first.dropped ready writtenFirst drops isPlaced evaluatedFirst fun later resumes =>
            ih.next ready resumes grows writtenRest placed evaluated falls ends

/-! ## Connectives -/

/-- The exit of a connective is taken when the operand decides. -/
theorem arrives_exit {image : Image} {seat : Seat} {frame : Frame} {position target : Nat}
    {stack : List Value} {store : Store} {label : Label} {holds : Bool}
    (isInstr : frame.body.instrs[position]? = some (connective.exit label))
    (isTarget : frame.body.target? label = some target)
    (rest : Arrives image limit (seat.config frame
      (if holds = decide (connective = .or) then target else position + 1) stack store) post) :
    Arrives image limit (seat.config frame position (.ofBool holds :: stack) store) post := by
  cases connective with
  | and =>
      refine Seat.arrives_branchFalse isInstr isTarget ?_
      rw [Value.isTruthy_ofBool]
      cases holds <;> exact rest
  | or =>
      refine Seat.arrives_branchTrue isInstr isTarget ?_
      rw [Value.isTruthy_ofBool]
      cases holds <;> exact rest

/-- The operands of a connective leave its value. -/
theorem arrives_lowerLogic {context : LowerContext} {seat : Seat} {env : Scope Location}
    {bindings : Scope Binding} {before after : Emitter} {now : Situation} {datum : Datum}
    {data : List Datum} {stack : List Value} {stop : Label}
    (simulate : List.Forall₂ (fun item core =>
      type core = .bool ∧ Simulates linkage limit types core (eval item)) items cores)
    (some : cores ≠ []) (ready : now.Ready linkage context seat types env bindings before)
    (written : (lowerLogic context cores connective stop bindings).Writes before () after)
    (placed : after.PlacedIn now.frame.body)
    (isTarget : now.frame.body.target? stop = .some after.position)
    (evaluated : (Expr.evalLogic eval connective items env).run now.memory.data =
      .some (datum, data))
    (rest : ∀ later value, now.Resumes linkage later data →
      Represents linkage later.memory.world later.memory.store.heap .bool datum value →
        Arrives linkage.image limit (later.config seat after.position (value :: stack)) post) :
    Arrives linkage.image limit (now.config seat before.position stack) post := by
  induction simulate generalizing now before with
  | nil => exact absurd rfl some
  | @cons item core items cores first others ih =>
      obtain ⟨isTruth, simulates⟩ := first
      cases others with
      | nil =>
          refine simulates.operand (isTruth ▸ rfl) ready written placed evaluated ?_
          exact fun later value resumes represents => rest later value resumes (isTruth ▸ represents)
      | @cons second next items cores _ _ =>
          obtain ⟨decided, between, evaluatedFirst, evaluated⟩ :=
            Evaluation.run_bind_eq_some.mp evaluated
          obtain ⟨holds, middle, decides, continued⟩ := Evaluation.run_bind_eq_some.mp evaluated
          obtain ⟨isDecided, rfl⟩ := Evaluation.run_lift_eq_some.mp decides
          obtain ⟨_, early, writtenFirst, written⟩ := Lower.writes_bind.mp written
          obtain ⟨_, last, emitted, writtenRest⟩ := Lower.writes_bind.mp written
          obtain rfl := Lower.writes_emitAll_nil.mp (Lower.writes_emitAll_cons.mp
            (Lower.writes_emitAll_cons.mp (Lower.writes_emitAll_cons.mp emitted)))
          have grows := (core.lower_adds _ _ _ _ _ writtenFirst).locals
          have adds : (lowerLogic context (next :: cores) connective stop bindings).Adds :=
            lowerLogic_adds _ _ _
          have isPlaced := placed.of_precedes (adds _ _ _ writtenRest)
          refine simulates.test isTruth ready writtenFirst
            isPlaced.before_emit.before_emit.before_emit evaluatedFirst isDecided
            fun later resumes => ?_
          have isBody := resumes.body
          refine Seat.arrives_dup (isBody ▸ isPlaced.before_emit.before_emit.last) ?_
          rw [← Emitter.position_emit early .dup]
          refine arrives_exit (isBody ▸ isPlaced.before_emit.last) (isBody ▸ isTarget) ?_
          split at continued
          · next isLast =>
              obtain ⟨rfl, rfl⟩ := Evaluation.run_pure_eq_some.mp continued
              rw [if_pos isLast]
              exact rest later _ resumes (.truth holds)
          · next isOpen =>
              rw [if_neg isOpen, ← Emitter.position_emit _ (connective.exit stop)]
              refine Seat.arrives_pop (isBody ▸ isPlaced.last) ?_
              rw [← Emitter.position_emit _ .pop]
              refine ih (List.cons_ne_nil _ _) (ready.resume resumes grows) writtenRest
                (isBody ▸ placed) (isBody ▸ isTarget) (resumes.data ▸ continued) ?_
              exact fun final value further => rest final value (resumes.trans further)

theorem simulates_logic
    (simulate : List.Forall₂ (fun item core =>
      type core = .bool ∧ Simulates linkage limit types core (eval item)) items cores) :
    (logic connective cores).Simulates linkage limit types
      (Expr.evalLogic eval connective items) := by
  intro context seat tail env bindings before after now datum data stack post ready written placed
    evaluated falls _
  cases simulate with
  | nil =>
      obtain ⟨rfl, rfl⟩ := Evaluation.run_pure_eq_some.mp evaluated
      obtain rfl := Lower.writes_emit.mp written
      refine Seat.arrives_const placed.last ?_
      rw [← Emitter.position_emit]
      have isUnit : FrameStep.constant (.int32 connective.unit) =
          .ofBool (decide (connective = .and)) := by
        cases connective <;> rfl
      rw [isUnit]
      exact falls now _ ⟨ready.sound.leads, rfl, rfl⟩ (.value rfl (.truth _))
  | @cons item core items cores first others =>
      have written := Lower.writes_label_bind.mp written
      obtain ⟨_, last, pushes, marks⟩ := Lower.writes_bind.mp written
      obtain ⟨isOpen, rfl⟩ := Lower.writes_mark.mp marks
      have grows := (Lower.Adds.mark _ _ _ _ marks)
      have isReady : now.Ready linkage context seat types env bindings before.withLabel :=
        ready.mono (Nat.le_refl _)
      change Arrives _ _ (now.config seat before.withLabel.position stack) post
      exact arrives_lowerLogic (.cons first others) (List.cons_ne_nil _ _) isReady pushes (placed.of_precedes grows) (placed.target isOpen)
        evaluated fun later value resumes represents =>
          falls later _ resumes (.value rfl represents)

end Core

end ClassForge
