import ClassForge.Proofs.Code.PlacedLabels
import Mathlib.Algebra.GroupWithZero.Nat

/-!
# Locals that generated code takes

A variable that a node binds takes one local slot of the body that it is lowered into, and so does
the function of a loop.  `Lower.Takes count` says of an action that it hands out no more than some
number of slots, and is refused none as long as there is room for them.  So the code of a body that
binds few variables is never refused a local.
-/

namespace ClassForge

/-! ## Variables that are bound -/

namespace Core

/-- The number of variables that a node binds, the function of a loop among them. -/
def bindings : Core → Nat
  | letPar clauses _ | letSeq clauses _ | letRec clauses _ => clauses.length
  | loop _ _ vars _ _ _ => vars.length + 1
  | lambda _ params _ _ => params.length
  | tryCatch _ _ _ catches | tryFinally _ _ _ catches _ => catches.length
  | pin _ _ arrays _ => arrays.length
  | _ => 0

/-- The number of variables that an expression binds, at all of its nodes. -/
def bindingCount (core : Core) : Nat :=
  (core.preorder.map bindings).sum

/-- The number of variables that some expressions bind. -/
def bindingCountAll (cores : List Core) : Nat :=
  (cores.map bindingCount).sum

theorem bindingCount_eq (core : Core) :
    core.bindingCount = core.bindings + bindingCountAll core.parts := by
  unfold bindingCountAll
  rw [bindingCount, preorder_eq_cons, List.map_cons, List.sum_cons, List.map_flatMap, List.flatMap,
    List.sum_flatten, List.map_map]
  rfl

@[simp]
theorem bindingCountAll_nil : bindingCountAll [] = 0 :=
  rfl

@[simp]
theorem bindingCountAll_cons (core : Core) (cores : List Core) :
    bindingCountAll (core :: cores) = core.bindingCount + bindingCountAll cores :=
  List.sum_cons

@[simp]
theorem bindingCountAll_append (first second : List Core) :
    bindingCountAll (first ++ second) = bindingCountAll first + bindingCountAll second := by
  simp [bindingCountAll]

theorem bindingCount_le_of_mem {core : Core} {cores : List Core} (isCore : core ∈ cores) :
    core.bindingCount ≤ bindingCountAll cores := by
  obtain ⟨before, after, rfl⟩ := List.append_of_mem isCore
  rw [bindingCountAll_append, bindingCountAll_cons]
  omega

/-- A node binds no more variables than the whole. -/
theorem bindingCount_le {node core : Core} (isNode : node ∈ core.preorder) :
    node.bindingCount ≤ core.bindingCount := by
  induction core using partInduction with
  | _ core ih =>
  rw [preorder_eq_cons] at isNode
  rcases List.mem_cons.mp isNode with rfl | isNode
  · exact Nat.le_refl _
  · obtain ⟨part, isPart, isNode⟩ := List.mem_flatMap.mp isNode
    rw [bindingCount_eq core]
    exact Nat.le_trans (ih part isPart isNode)
      (Nat.le_trans (bindingCount_le_of_mem isPart) (Nat.le_add_left _ _))

end Core

/-! ## Actions -/

/-- A fault that is not the refusal of one local too many. -/
def Diagnostic.GrantsLocals (diagnostic : Diagnostic) : Prop :=
  diagnostic ≠ .target .tooManyLocals

theorem Diagnostic.IsOwn.grantsLocals {diagnostic : Diagnostic} (own : diagnostic.IsOwn) :
    diagnostic.GrantsLocals :=
  own .tooManyLocals

namespace Lower

/-- An action hands out no more than some number of local slots, and is refused none where there is
room for them. -/
def Takes (count : Nat) {α : Type} (action : Lower α) : Prop :=
  ∀ before : Emitter, before.locals.size + count ≤ Emitter.maxLocals →
    Yields Diagnostic.GrantsLocals (action.run before) fun result =>
      result.2.locals.size ≤ before.locals.size + count

namespace Takes

variable {α β : Type} {count more : Nat}
variable {action : Lower α} {next : α → Lower β}

theorem mono (takes : Takes count action) (le : count ≤ more) : Takes more action :=
  fun before room => (takes before (by omega)).imp fun _ within => by omega

theorem pure (value : α) : Takes 0 (Pure.pure value : Lower α) :=
  fun _ _ => Nat.le_refl _

theorem bind (first : Takes count action) (second : ∀ value, Takes more (next value)) :
    Takes (count + more) (action >>= next) := by
  intro before room
  rw [StateT.run_bind]
  refine (first before (by omega)).bind fun result within => ?_
  exact (second result.1 result.2 (by omega)).imp fun _ inner => by omega

/-- Nothing is taken first. -/
theorem after (first : Takes 0 action) (second : ∀ value, Takes count (next value)) :
    Takes count (action >>= next) :=
  (first.bind second).mono (Nat.zero_add _).le

/-- Nothing is taken afterwards. -/
theorem andThen (first : Takes count action) (second : ∀ value, Takes 0 (next value)) :
    Takes count (action >>= next) :=
  first.bind second

theorem lift {outcome : Except Diagnostic α}
    (own : Yields Diagnostic.IsOwn outcome fun _ => True) : Takes 0 (liftM outcome : Lower α) := by
  intro before _
  cases outcome with
  | error diagnostic => exact own.grantsLocals
  | ok value => exact Nat.le_refl _

theorem throw {diagnostic : Diagnostic} (own : diagnostic.IsOwn) :
    Takes 0 (MonadExcept.throw diagnostic : Lower α) :=
  fun _ _ => own.grantsLocals

theorem emit (instr : Instr) : Takes 0 (Lower.emit instr) :=
  fun _ _ => Nat.le_refl _

theorem label : Takes 0 Lower.label :=
  fun _ _ => Nat.le_refl _

theorem mark (label : Label) : Takes 0 (Lower.mark label) := by
  intro before _
  rw [run_mark]
  split
  · exact Nat.le_refl _
  · exact nofun
  · exact nofun

theorem newLocal (type : RunTy) : Takes 1 (ofEmit (Emitter.declareLocal type false)) := by
  intro before room
  rw [run_declareLocal, if_pos (by omega)]
  exact Nat.le_of_eq (Array.size_push _)

theorem ofImage {result : Except ImageError α}
    (grants : result ≠ .error .tooManyLocals) : Takes 0 (Lower.ofImage result) := by
  intro before _
  cases result with
  | error error => exact fun same => grants (congrArg _ (Diagnostic.target.inj same))
  | ok value => exact Nat.le_refl _

/-- To look for a member is never refused for want of locals. -/
theorem resolve_ne {image : Image} {owner : RunTy} {next : TypeInfo → Except ImageError α}
    (grants : ∀ info, next info ≠ .error .tooManyLocals) :
    (image.ownerInfo owner >>= next) ≠ .error .tooManyLocals := by
  intro failed
  rcases bind_eq_error.mp failed with refused | ⟨info, -, failed⟩
  · rcases bind_eq_error.mp refused with unknown | ⟨handle, -, missing⟩
    · unfold Image.handleOf at unknown
      split at unknown <;> cases unknown
    · unfold Image.type at missing
      split at missing <;> cases missing
  · exact grants info failed

/-- What hands out no slots takes none, whatever it asks the platform for. -/
theorem slotless (context : LowerContext) : Lower.Slotless context (fun _ => True) (Takes 0) where
  pure := pure
  bind first second := first.bind second
  lift := lift
  throw := throw
  emit := emit
  method _ := (lift (Resolution.runTy_isOwn _)).bind fun _ =>
    (lift (Resolution.runTys_isOwn _)).bind fun _ => ofImage <| resolve_ne fun _ => by
      dsimp only
      split <;> exact nofun
  ctor _ := (lift (Resolution.runTy_isOwn _)).bind fun _ =>
    (lift (Resolution.runTys_isOwn _)).bind fun _ => ofImage <| resolve_ne fun _ => by
      dsimp only
      split <;> exact nofun
  field _ := (lift (Resolution.runTy_isOwn _)).bind fun _ => ofImage <| resolve_ne fun _ => by
    dsimp only
    split <;> exact nofun
  cellField _ := trivial
  cellCtor _ _ := trivial

end Takes

end Lower

/-! ## Variables -/

namespace LowerContext

open Lower

variable (context : LowerContext)

theorem declareLocal_takes (type : SourceTy) : Takes 1 (context.declareLocal type) :=
  ((Takes.slotless context).runTy type).after fun _ => .newLocal _

theorem storeTop_takes (type : SourceTy) : Takes 1 (context.storeTop type) :=
  (context.declareLocal_takes type).andThen fun _ => (Takes.emit _).after fun _ => .pure _

theorem newCell_takes (content : SourceTy) (filled : Bool) :
    Takes 1 (context.newCell content filled) :=
  ((Takes.slotless context).ctor trivial).after fun _ => (Takes.emit _).after fun _ =>
    (context.storeTop_takes _).andThen fun _ => .pure _

theorem bindTop_takes (type : SourceTy) (boxed : Bool) : Takes 1 (context.bindTop type boxed) := by
  unfold bindTop
  split
  · exact context.newCell_takes _ _
  · exact (context.storeTop_takes _).andThen fun _ => .pure _

theorem bindFresh_takes (type : SourceTy) (boxed : Bool) :
    Takes 1 (context.bindFresh type boxed) := by
  unfold bindFresh
  split
  · exact context.newCell_takes _ _
  · exact (context.declareLocal_takes _).andThen fun _ => .pure _

/-- A variable is stored in with the slots that its value takes. -/
theorem store_takes (binding : Binding) {value : Lower Unit} {count : Nat}
    (pushes : Takes count value) : Takes count (context.store binding value) := by
  have slotless := Takes.slotless context
  unfold store
  split
  · exact (slotless.load _).after fun _ => pushes.andThen fun _ =>
      (slotless.fieldOfCell _).after fun _ => .emit _
  · unfold Place.store
    split
    · exact pushes.andThen fun _ => .emit _
    · exact pushes.andThen fun _ => .emit _
    · exact (Takes.emit _).after fun _ => pushes.andThen fun _ => .emit _

/-- The function of a loop takes a slot. -/
theorem lowerLoopCall_takes (closure : Closure) (function : Binder) (slots : List Nat)
    (env : Scope Binding) (tail : Bool) :
    Takes 1 (context.lowerLoopCall closure function slots env tail) :=
  have slotless := Takes.slotless context
  (context.bindFresh_takes _ _).andThen fun _ =>
    (slotless.store _ (slotless.lowerClosure trivial _)).after fun _ =>
      (slotless.fetch _).after fun _ => (slotless.forM fun _ => .emit _).after fun _ =>
        (slotless.delegateInvoke fun _ _ => trivial).after fun _ => slotless.emitCall _ _ _

/-- A member is used with the slots that its operands take. -/
theorem lowerMember_takes (use : MemberUse) {operands : Lower Unit} {count : Nat}
    (pushes : Takes count operands) (tail : Bool) :
    Takes count (context.lowerMember use operands tail) := by
  have slotless := Takes.slotless context
  cases use with
  | loadField target | storeField target =>
      exact (slotless.targetField fun _ => trivial).after fun _ => pushes.andThen fun _ => .emit _
  | call callee | write callee =>
      exact (slotless.calleeMethod fun _ => trivial).after fun _ => pushes.andThen fun _ =>
        slotless.emitCall _ _ _
  | new callee =>
      exact (slotless.calleeCtor fun _ => trivial).after fun _ => pushes.andThen fun _ => .emit _

/-- A block is called with the slots that its arrays take. -/
theorem lowerBlockCall_takes (block : Option Block) (captures : List Param) {arrays : Lower Unit}
    {count : Nat} (pushes : Takes count arrays) (env : Scope Binding) :
    Takes count (context.lowerBlockCall block captures arrays env) := by
  have slotless := Takes.slotless context
  refine (slotless.fetchCells env _).after fun _ => pushes.andThen fun _ => ?_
  split
  · exact (Takes.lift (Resolution.lookup_isOwn _ _)).after fun _ => .emit _
  · exact .pure _

/-- Each captured parameter takes a slot. -/
theorem bindParams_takes (params : List Binder) (first : Nat) (env : Scope Binding) :
    Takes params.length (context.bindParams params first env) := by
  induction params generalizing first env with
  | nil => exact .pure _
  | cons param params ih =>
      rw [List.length_cons, Nat.add_comm]
      refine (Takes.lift (argSlot_isOwn first)).after fun slot => ?_
      dsimp only
      split
      · exact (Takes.emit _).after fun _ => (context.newCell_takes _ _).bind fun _ => ih _ _
      · exact ((Takes.pure _).after fun _ => ih _ _).mono (Nat.le_add_left _ _)

end LowerContext

/-! ## Expressions -/

namespace Core

open Lower

variable {context : LowerContext} {env : Scope Binding} {tail : Bool}

/-- The code of an expression takes a slot for each variable that it binds, at most. -/
def TakesBindings (context : LowerContext) (core : Core) : Prop :=
  ∀ env tail, Takes core.bindingCount (core.lower context env tail)

section Parts

variable {items : List Core} (each : ∀ item ∈ items, item.TakesBindings context)
include each

theorem lowerAll_takes : Takes (bindingCountAll items) (lowerAll context items env) := by
  induction items with
  | nil => exact .pure _
  | cons item items ih =>
      obtain ⟨first, rest⟩ := List.forall_mem_cons.mp each
      rw [bindingCountAll_cons]
      exact (first env false).bind fun _ => ih rest

theorem lowerSeq_takes : Takes (bindingCountAll items) (lowerSeq context items env tail) := by
  induction items with
  | nil => exact .pure _
  | cons item items ih =>
      obtain ⟨first, rest⟩ := List.forall_mem_cons.mp each
      cases items with
      | nil => exact first env tail
      | cons next items =>
          rw [bindingCountAll_cons]
          exact (first env false).bind fun _ =>
            ((Takes.slotless context).popValue _).after fun _ => ih rest

theorem lowerLogic_takes (connective : Connective) (stop : Label) :
    Takes (bindingCountAll items) (lowerLogic context items connective stop env) := by
  induction items with
  | nil => exact .pure _
  | cons item items ih =>
      obtain ⟨first, rest⟩ := List.forall_mem_cons.mp each
      cases items with
      | nil => exact first env false
      | cons next items =>
          rw [bindingCountAll_cons]
          exact (first env false).bind fun _ =>
            ((Takes.slotless context).emitAll _).after fun _ => ih rest

end Parts

theorem lowerArms_takes {arms : List (List UInt32 × Core)}
    (each : ∀ arm ∈ arms.map (·.2), arm.TakesBindings context) (labels : List Label) (stop : Label) :
    Takes (bindingCountAll (arms.map (·.2))) (lowerArms context arms labels stop env tail) := by
  induction arms generalizing labels with
  | nil =>
      unfold lowerArms
      exact .pure _
  | cons arm arms ih =>
      obtain ⟨first, rest⟩ := List.forall_mem_cons.mp each
      rw [List.map_cons, bindingCountAll_cons]
      cases labels with
      | nil => exact (Takes.pure _).mono (Nat.zero_le _)
      | cons label labels =>
          exact (Takes.mark label).after fun _ => (first env tail).bind fun _ =>
            (Takes.emit _).after fun _ => ih rest labels

section Clauses

variable {clauses : List (Binder × Core)}
variable (each : ∀ init ∈ clauses.map (·.2), init.TakesBindings context)
include each

theorem lowerNamed_takes : Takes (clauses.length + bindingCountAll (clauses.map (·.2)))
    (lowerNamed context clauses env) := by
  induction clauses with
  | nil => exact .pure _
  | cons clause clauses ih =>
      obtain ⟨first, rest⟩ := List.forall_mem_cons.mp each
      refine ((first env false).bind fun _ => (context.bindTop_takes _ _).bind fun _ =>
        (ih rest).andThen fun _ => .pure _).mono ?_
      simp only [List.length_cons, List.map_cons, bindingCountAll_cons]
      omega

theorem lowerClauses_takes : Takes (clauses.length + bindingCountAll (clauses.map (·.2)))
    (lowerClauses context clauses env) := by
  induction clauses generalizing env with
  | nil => exact .pure _
  | cons clause clauses ih =>
      obtain ⟨first, rest⟩ := List.forall_mem_cons.mp each
      refine ((first env false).bind fun _ => (context.bindTop_takes _ _).bind fun _ =>
        ih rest).mono ?_
      simp only [List.length_cons, List.map_cons, bindingCountAll_cons]
      omega

theorem lowerTemps_takes : Takes (clauses.length + bindingCountAll (clauses.map (·.2)))
    (lowerTemps context clauses env) := by
  induction clauses with
  | nil => exact .pure _
  | cons clause clauses ih =>
      obtain ⟨first, rest⟩ := List.forall_mem_cons.mp each
      refine ((first env false).bind fun _ => (context.storeTop_takes _).bind fun _ =>
        (ih rest).andThen fun _ => .pure _).mono ?_
      simp only [List.length_cons, List.map_cons, bindingCountAll_cons]
      omega

theorem lowerStores_takes :
    Takes (bindingCountAll (clauses.map (·.2))) (lowerStores context clauses env) := by
  induction clauses with
  | nil => exact .pure _
  | cons clause clauses ih =>
      obtain ⟨first, rest⟩ := List.forall_mem_cons.mp each
      rw [List.map_cons, bindingCountAll_cons]
      exact ((Takes.slotless context).lookup env _).after fun binding =>
        (context.store_takes binding (first env false)).bind fun _ => ih rest

end Clauses

/-- The recursive variables take a slot each. -/
theorem bindFreshAll_takes (clauses : List (Binder × Core)) :
    Takes clauses.length (clauses.mapM fun clause => do
      let binding ← context.bindFresh clause.1.type clause.1.captured
      return (clause.1.name, binding)) := by
  induction clauses with
  | nil => exact .pure _
  | cons clause clauses ih =>
      rw [List.mapM_cons, List.length_cons, Nat.add_comm]
      exact ((context.bindFresh_takes _ _).andThen fun _ => .pure _).bind fun _ =>
        ih.andThen fun _ => .pure _

/-- The code of a node takes the slots for the variables that are bound in it. -/
theorem lower_takes (context : LowerContext) (core : Core) : core.TakesBindings context := by
  have slotless := Takes.slotless context
  induction core using Core.partInduction with
  | step core ih =>
  intro env tail
  rw [bindingCount_eq]
  have operands : ∀ part ∈ core.operands, part.TakesBindings context :=
    fun part isOperand => ih part (core.operands_subset isOperand)
  cases core with
  | literal value => exact slotless.emitAll _
  | var name type => exact (slotless.lookup env _).after fun _ => slotless.fetch _
  | set name value =>
      refine (slotless.lookup env _).after fun _ => context.store_takes _ ?_
      exact (operands value List.mem_cons_self env false).mono (by simp [parts, inPlace])
  | seq items => exact (lowerSeq_takes ih).mono (by simp [parts, inPlace])
  | logic connective items =>
      unfold Core.lower
      split
      · exact (Takes.emit _).mono (Nat.zero_le _)
      · refine Takes.label.after fun stop => ?_
        refine ((lowerLogic_takes ih connective stop).andThen fun _ => .mark stop).mono ?_
        simp [parts, inPlace]
  | when test body =>
      refine Takes.label.after fun stop => ((operands test List.mem_cons_self env false).bind fun _ =>
        (Takes.emit _).after fun _ => (ih body (by simp [parts, inPlace]) env tail).andThen fun _ =>
          .mark stop).mono ?_
      simp [parts, inPlace]
  | cond test yes no =>
      refine Takes.label.after fun stop => ((operands test List.mem_cons_self env false).bind fun _ =>
        Takes.label.after fun otherwise => (Takes.emit _).after fun _ =>
          (ih yes (by simp [parts, inPlace]) env tail).bind fun _ => (Takes.emit _).after fun _ =>
            (Takes.mark otherwise).after fun _ =>
              (ih no (by simp [parts, inPlace]) env tail).andThen fun _ => .mark stop).mono ?_
      simp [parts, inPlace]
  | «while» test body =>
      refine Takes.label.after fun top => Takes.label.after fun stop => (Takes.mark top).after fun _ =>
        ((operands test List.mem_cons_self env false).bind fun _ => (Takes.emit _).after fun _ =>
          (ih body (by simp [parts, inPlace]) env false).andThen fun _ =>
            (slotless.popValue _).after fun _ => (Takes.emit _).after fun _ => .mark stop).mono ?_
      simp [parts, inPlace]
  | switch selector arms default =>
      have isDefault : default ∈ (Core.switch selector arms default).parts := by simp [parts, inPlace]
      have ofSelector := operands selector List.mem_cons_self env false
      have ofArms : ∀ arm ∈ arms.map (·.2), arm.TakesBindings context := fun arm isArm =>
        ih arm (branches_subset (Core.switch selector arms default) isArm)
      unfold Core.lower
      split
      · refine (ofSelector.bind fun _ => (Takes.emit _).after fun _ =>
          ih default isDefault env tail).mono ?_
        simp [parts, inPlace]
        omega
      · refine (ofSelector.bind fun _ => Takes.label.after fun otherwise => Takes.label.after fun stop =>
          (slotless.mapM fun _ => Takes.label.andThen fun _ => .pure _).after fun targets =>
            (Takes.emit _).after fun _ =>
            (Takes.emit _).after fun _ => (lowerArms_takes ofArms _ stop).bind fun _ =>
              (Takes.mark otherwise).after fun _ => (ih default isDefault env tail).andThen fun _ =>
                .mark stop).mono ?_
        simp [parts, inPlace]
  | letPar clauses body =>
      refine ((lowerNamed_takes operands).bind fun _ => ih body (by simp [parts]) _ tail).mono ?_
      simp [parts, bindings, Nat.add_assoc]
  | letSeq clauses body =>
      refine ((lowerClauses_takes operands).bind fun _ => ih body (by simp [parts]) _ tail).mono ?_
      simp [parts, bindings, Nat.add_assoc]
  | letRec clauses body =>
      refine ((bindFreshAll_takes clauses).bind fun _ => (lowerStores_takes operands).bind fun _ =>
        ih body (by simp [parts]) _ tail).mono ?_
      simp [parts, bindings]
  | loop id function vars result captures body =>
      refine ((lowerTemps_takes operands).bind fun _ => context.lowerLoopCall_takes _ _ _ _ _).mono ?_
      simp [parts, bindings]
      omega
  | lambda id params captures body =>
      exact (slotless.lowerClosure trivial _).mono (Nat.zero_le _)
  | invoke type function args =>
      refine ((operands function List.mem_cons_self env false).bind fun _ =>
        (lowerAll_takes (List.forall_mem_cons.mp operands).2).andThen fun _ =>
          (slotless.delegateInvoke fun _ _ => trivial).after fun _ => slotless.emitCall _ _ _).mono ?_
      simp [parts, inPlace]
  | apply type action args =>
      refine ((lowerAll_takes operands).andThen fun _ =>
        slotless.lowerAction fun _ _ => trivial).mono ?_
      exact Nat.le_add_left _ _
  | member type use args =>
      exact (context.lowerMember_takes use (lowerAll_takes operands) tail).mono (Nat.le_add_left _ _)
  | tryCatch id captures body catches =>
      exact (context.lowerBlockCall_takes _ _ (.pure _) _).mono (Nat.zero_le _)
  | tryFinally id captures body catches final =>
      exact (context.lowerBlockCall_takes _ _ (.pure _) _).mono (Nat.zero_le _)
  | pin id captures arrays body =>
      rw [lower, lowerArrays_eq_lowerAll]
      refine (context.lowerBlockCall_takes _ _ (lowerAll_takes operands) _).mono ?_
      simp [Core.operands, parts]
      omega

end Core

/-! ## Bodies -/

/-- A body is never finished with a refusal for want of locals. -/
theorem Emitter.finish_ne (emitter : Emitter) : emitter.finish ≠ .error .tooManyLocals := by
  have positions : labelPositions emitter.labels.toList ≠ .error .tooManyLocals := by
    intro same
    obtain ⟨⟨_ | position, index⟩, -, isError⟩ := exists_of_mapM_eq_error same
    all_goals cases isError
  unfold finish
  split
  · exact nofun
  · intro same
    refine positions ?_
    generalize labelPositions emitter.labels.toList = found at same ⊢
    cases found with
    | error error => exact congrArg _ (Except.error.inj same)
    | ok positions => cases same

namespace Lower

/-- Code that takes few enough slots is never refused one. -/
theorem Takes.assemble {action : Lower Unit} {count : Nat} (takes : Takes count action)
    (room : count ≤ Emitter.maxLocals) :
    Yields Diagnostic.GrantsLocals (Lower.assemble action) fun _ => True := by
  refine (takes {} (by simpa using room)).bind fun result _ => ?_
  obtain ⟨⟨⟩, emitter⟩ := result
  dsimp only
  cases finished : emitter.finish with
  | ok body => trivial
  | error error =>
      rintro ⟨⟩
      exact emitter.finish_ne finished

end Lower

section Bodies

open Lower

variable (context : LowerContext)

theorem LowerContext.lowerResult_takes (body : Core) (ret : SourceTy) (env : Scope Binding) :
    Takes body.bindingCount (context.lowerResult body ret env) := by
  refine (body.lower_takes context env _).andThen fun _ => ?_
  split
  · exact ((Takes.slotless context).popValue _).after fun _ => .emit _
  · exact .emit _

/-- A method that binds few variables gets a local for each. -/
theorem Routine.code_grants {routine : Routine}
    (room : routine.params.length + routine.body.bindingCount ≤ Emitter.maxLocals) :
    Yields Diagnostic.GrantsLocals (routine.code context) fun _ => True :=
  Takes.assemble ((context.bindParams_takes _ _ _).bind fun _ => context.lowerResult_takes _ _ _)
    room

/-- A function that binds few variables gets a local for each. -/
theorem Closure.invokeCode_grants {closure : Closure}
    (room : closure.params.length + closure.body.bindingCount ≤ Emitter.maxLocals) :
    Yields Diagnostic.GrantsLocals (closure.invokeCode context) fun _ => True :=
  Takes.assemble ((Takes.lift (context.bindFields_isOwn closure _ _)).after fun _ =>
    (context.bindParams_takes _ _ _).bind fun _ => context.lowerResult_takes _ _ _) room

/-- The object behind a function is filled without locals. -/
theorem Closure.ctorCode_grants (closure : Closure) :
    Yields Diagnostic.GrantsLocals (closure.ctorCode context) fun _ => True :=
  have slotless := Takes.slotless context
  Takes.assemble ((slotless.ctor trivial).after fun _ => (slotless.emitAll _).after fun _ =>
    (slotless.storeCells closure _ _).after fun _ => .emit _) (Nat.zero_le _)

/-- A constructor that binds few variables gets a local for each. -/
theorem CtorRoutine.code_grants {routine : CtorRoutine}
    (room : routine.params.length + Core.bindingCountAll routine.roots ≤ Emitter.maxLocals) :
    Yields Diagnostic.GrantsLocals (routine.code context) fun _ => True := by
  have slotless := Takes.slotless context
  have base : ∀ env, Takes (Core.bindingCountAll routine.baseArgs) (routine.base.forM fun base => do
      let ctor ← context.ctor base
      Lower.emit (.loadArg 0)
      Core.lowerAll context routine.baseArgs env
      Lower.emit (.callCtor ctor)) := by
    intro env
    cases routine.base with
    | none => exact (Takes.pure _).mono (Nat.zero_le _)
    | some callee =>
        exact (slotless.calleeCtor fun _ => trivial).after fun _ => (Takes.emit _).after fun _ =>
          (Core.lowerAll_takes fun arg _ => arg.lower_takes context).andThen fun _ => .emit _
  exact Takes.assemble ((context.bindParams_takes _ _ _).bind fun env => (base env).bind fun _ =>
    context.lowerResult_takes routine.body .void env) (by simpa [CtorRoutine.roots] using room)

end Bodies

end ClassForge
