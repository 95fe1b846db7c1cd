import ClassForge.Proofs.Code.LoweringDepth

/-!
# Whole bodies are balanced

The code of a method, a constructor, a function or a block gives its arguments their places,
runs the code of expressions, and returns.  There are depths of the evaluation stack that
agree with all of it, with the result of the member on the stack at every return.
-/

namespace ClassForge

open Lower

variable {context : LowerContext} {returns : MethodKey → SourceTy → Prop}
variable {image : Image} {result before : Nat} {known : List (Label × Nat)}
variable {body : Body}

namespace LowerContext

variable {first : Nat} {env : Scope Binding} {arrays : List (Binder × Core)} {body : Core}

/-! ## Arguments -/

theorem bindParams_shifts {params : List Binder} :
    Shifts context.image result known (context.bindParams params first env) before before
      fun _ => True := by
  induction params generalizing first env with
  | nil => exact .pure trivial
  | cons param params ih =>
      refine (Shifts.lift fun _ _ => trivial).andThen fun slot => ?_
      cases param.captured with
      | true =>
          refine (Shifts.step rfl).andThen fun _ => ?_
          exact newCell_shifts.andThen fun _ => ih
      | false => exact ih

theorem bindException_shifts {handler : CatchBinder} {env : Scope Binding} :
    Shifts context.image result known (context.bindException handler env) (before + 1) before
      fun _ => True := by
  unfold bindException
  split
  · exact (Shifts.step rfl).andThen fun _ => .pure trivial
  · exact bindTop_shifts.andThen fun _ => .pure trivial

theorem bindPinned_shifts :
    Shifts context.image result known (context.bindPinned arrays first env) before before
      fun _ => True := by
  induction arrays generalizing first env with
  | nil => exact .pure trivial
  | cons array arrays ih =>
      obtain ⟨binder, array⟩ := array
      unfold bindPinned
      cases array.type.element? with
      | none => exact .throw
      | some element =>
          refine runTy_shifts.andThen fun element => ?_
          refine (Shifts.lift fun _ _ => trivial).andThen fun slot => ?_
          have pins : ∀ code : List Instr,
              Instr.depthAfter? context.image code before = some (before + 1) →
              Shifts context.image result known (Lower.emitAll code) before (before + 1)
                fun _ => True := fun _ ends => .emitAll ends
          refine (pins _ rfl).andThen fun _ => ?_
          refine Shifts.declareLocal.andThen fun pinned => ?_
          have stays : Shifts context.image result known
              (Lower.emitAll [.storeLocal pinned, .loadLocal pinned,
                .convert ⟨.intPtr, false, false⟩]) (before + 1) (before + 1) fun _ => True :=
            .emitAll rfl
          exact stays.andThen fun _ => bindTop_shifts.andThen fun _ => ih

/-! ## Results -/

/-- The code of a whole body leaves the result of the member. -/
theorem lowerResult_returns {body : Core} {ret : SourceTy} {env : Scope Binding}
    (raises : body.Raises context ret.weight)
    (isValue : ret.isVoid = false → body.type.isVoid = false) :
    Returns context.image ret.weight (context.lowerResult body ret env) 0 := by
  have inTail : (context.tailCalls && body.type = ret) = true →
      0 = 0 ∧ body.type.weight = ret.weight := by
    intro isTail
    have same : body.type = ret := by simpa using (Bool.and_eq_true_iff.mp isTail).2
    exact ⟨rfl, by rw [same]⟩
  refine (raises [] env 0 _ inTail).returns fun _ _ => ?_
  rw [Nat.zero_add]
  cases isVoid : ret.isVoid with
  | true =>
      have none : ret.weight = 0 := if_pos isVoid
      rw [none, ← Nat.zero_add body.type.weight]
      exact Shifts.popValue.returns fun _ _ => .ret
  | false =>
      rw [Ty.weight_eq_one isVoid, Ty.weight_eq_one (isValue isVoid)]
      exact .ret

/-! ## Exception blocks -/

/-- A slot takes the value that there is. -/
theorem keepResult_shifts {slot : Option Nat} :
    Shifts image result known (keepResult slot) (before + slot.isSome.toNat) before
      fun _ => True := by
  cases slot with
  | none => exact .pure trivial
  | some slot => exact .step rfl

theorem lowerCatch_shifts {handler : CatchBinder} {slot : Option Nat}
    (raises : body.Raises context result) (kept : body.type.weight = slot.isSome.toNat) :
    Shifts context.image result known (context.lowerCatch handler body slot env) 0 0
      fun _ => True := by
  refine runTy_shifts.andThen fun type => Shifts.beginCatch.andThen fun _ => ?_
  refine (@bindException_shifts _ _ 0 _ _ _).andThen fun inner => ?_
  refine raises.inner.andThen fun _ => ?_
  rw [kept]
  exact keepResult_shifts

theorem lowerFinal_shifts {final : Core} (raises : final.Raises context result) :
    Shifts context.image result known (context.lowerFinal final env) 0 0 fun _ => True :=
  Shifts.beginFinally.andThen fun _ => raises.inner.andThen fun _ => .popValue

/-- A block leaves the value of its body or of a handler in a slot, and returns it. -/
theorem lowerTry_returns {catches : List (CatchBinder × Core)} {final : Option Core}
    (raises : body.Raises context body.type.weight)
    (handlers : ∀ handler ∈ catches,
      handler.2.Raises context body.type.weight ∧ handler.2.type = body.type)
    (finals : ∀ last ∈ final, last.Raises context body.type.weight) :
    Returns context.image body.type.weight (context.lowerTry body catches final env) 0 := by
  have rest : ∀ slot : Option Nat, body.type.weight = slot.isSome.toNat →
      Returns context.image body.type.weight (do
        discard <| modifyGet Emitter.beginTry
        body.lower context env false
        keepResult slot
        catches.forM fun clause => context.lowerCatch clause.1 clause.2 slot env
        final.forM fun final => context.lowerFinal final env
        Lower.ofEmit Emitter.endTry
        slot.forM fun slot => Lower.emit (.loadLocal slot)
        Lower.emit .ret) 0 := by
    intro slot kept
    refine Shifts.beginTry.returns fun _ _ => ?_
    refine raises.inner.returns fun _ _ => ?_
    have keeps : Shifts context.image body.type.weight [] (keepResult slot)
        (0 + body.type.weight) 0 fun _ => True := by
      rw [kept]
      exact keepResult_shifts
    refine keeps.returns fun _ _ => ?_
    refine (Shifts.forM fun handler isHandler => ?_).returns fun _ _ => ?_
    · obtain ⟨handlerRaises, same⟩ := handlers handler isHandler
      exact lowerCatch_shifts handlerRaises (by rw [same, kept])
    refine (Shifts.optionForM fun last isFinal => ?_).returns fun _ _ => ?_
    · exact lowerFinal_shifts (finals last isFinal)
    refine Shifts.endTry.returns fun _ _ => ?_
    have loads : Shifts context.image body.type.weight []
        (slot.forM fun slot => Lower.emit (.loadLocal slot)) 0 body.type.weight
        fun _ => True := by
      rw [kept]
      cases slot with
      | none => exact .pure trivial
      | some slot => exact .step rfl
    exact loads.returns fun _ _ => .ret
  unfold lowerTry
  split
  · rename_i isVoid
    exact rest none (if_pos isVoid)
  · rename_i isValue
    rw [map_eq_pure_bind, bind_assoc]
    refine declareLocal_shifts.returns fun slot _ => ?_
    exact rest (some slot) (if_neg isValue)

theorem lowerPin_returns (raises : body.Raises context body.type.weight) :
    Returns context.image body.type.weight (context.lowerPin arrays body first env) 0 := by
  refine bindPinned_shifts.returns fun inner _ => ?_
  refine raises.inner.returns fun _ _ => ?_
  rw [Nat.zero_add]
  exact .ret

end LowerContext

/-! ## Members -/

/-- The body of a method has depths that agree with it. -/
theorem Routine.code_balanced {routine : Routine}
    (raises : routine.body.Raises context routine.ret.weight)
    (isValue : routine.ret.isVoid = false → routine.body.type.isVoid = false)
    (assembled : routine.code context = .ok body) :
    ∃ depth, body.Balanced context.image routine.ret.weight depth := by
  refine Returns.balanced ?_ assembled
  exact LowerContext.bindParams_shifts.returns fun env _ =>
    LowerContext.lowerResult_returns raises isValue

theorem CtorRoutine.code_balanced {routine : CtorRoutine} (sound : context.Sound returns)
    (raises : routine.body.Raises context 0)
    (calls : ∀ base ∈ routine.base, base.params.length = routine.baseArgs.length ∧
      ∀ arg ∈ routine.baseArgs, arg.Pushes context 0)
    (assembled : routine.code context = .ok body) :
    ∃ depth, body.Balanced context.image 0 depth := by
  refine Returns.balanced ?_ assembled
  refine LowerContext.bindParams_shifts.returns fun env _ => ?_
  refine (Shifts.optionForM fun base isBase => ?_).returns fun _ _ => ?_
  · obtain ⟨count, args⟩ := calls base isBase
    refine (LowerContext.ctor_shifts sound).bind fun ctor constructs => ?_
    refine (Shifts.step rfl).andThen fun _ => ?_
    refine (Core.lowerAll_shifts args).andThen fun _ => ?_
    rw [← count, Nat.add_assoc, Nat.add_comm 1]
    exact .callCtor constructs
  · exact @LowerContext.lowerResult_returns _ _ .void _ raises nofun

/-- The constructor behind a function calls that of its base and stores the cells. -/
theorem Closure.ctorCode_balanced {closure : Closure}
    (assembled : closure.ctorCode context = .ok body) :
    ∃ depth, body.Balanced context.image 0 depth := by
  have storeCells : ∀ (captures : List Param) (first : Nat),
      Shifts context.image 0 [] (closure.storeCells context captures first) 0 0
        fun _ => True := by
    intro captures
    induction captures with
    | nil => exact fun _ => .pure trivial
    | cons capture captures ih =>
        intro first
        refine (Shifts.lift fun _ _ => trivial).andThen fun field => ?_
        refine (Shifts.lift fun _ _ => trivial).andThen fun slot => ?_
        have stores : Shifts context.image 0 []
            (Lower.emitAll [.loadArg 0, .loadArg slot, .storeField field]) 0 0 fun _ => True :=
          .emitAll rfl
        exact stores.andThen fun _ => ih _
  refine Returns.balanced ?_ assembled
  refine LowerContext.platformCtor_shifts.returns fun base constructs => ?_
  have starts : Shifts context.image 0 [] (Lower.emitAll [.loadArg 0, .callCtor base]) 0 0
      fun _ => True :=
    (Shifts.step rfl).andThen fun _ => (Shifts.callCtor constructs).andThen fun _ => .pure trivial
  exact starts.returns fun _ _ => (storeCells _ _).returns fun _ _ => .ret

/-- The method behind a function. -/
theorem Closure.invokeCode_balanced {closure : Closure}
    (raises : closure.body.Raises context closure.ret.weight)
    (isValue : closure.ret.isVoid = false → closure.body.type.isVoid = false)
    (assembled : closure.invokeCode context = .ok body) :
    ∃ depth, body.Balanced context.image closure.ret.weight depth := by
  refine Returns.balanced ?_ assembled
  refine (Shifts.lift fun _ _ => trivial).returns fun outer _ => ?_
  exact LowerContext.bindParams_shifts.returns fun env _ =>
    LowerContext.lowerResult_returns raises isValue

/-- The static method behind a block. -/
theorem Block.code_balanced {host : Name} {core : Core} {block : Block}
    (isBlock : core.block? host = some block)
    (raises : ∀ part ∈ core.parts, part.Raises context core.type.weight)
    (branches : ∀ part ∈ core.branches, part.type = core.type)
    (assembled : block.code context = .ok body) :
    ∃ depth, body.Balanced context.image core.type.weight depth := by
  refine Returns.balanced ?_ assembled
  refine (Shifts.lift fun _ _ => trivial).returns fun env _ => ?_
  cases core with
  | tryCatch id captures body catches =>
      cases isBlock
      change Returns context.image body.type.weight (context.lowerTry body catches none env) 0
      refine LowerContext.lowerTry_returns (raises body List.mem_cons_self)
        (fun handler isHandler => ?_) nofun
      have listed := List.mem_map_of_mem (f := fun handler : CatchBinder × Core => handler.2)
        isHandler
      exact ⟨raises _ (List.mem_cons_of_mem _ listed), branches _ listed⟩
  | tryFinally id captures body catches final =>
      cases isBlock
      change Returns context.image body.type.weight
        (context.lowerTry body catches (some final) env) 0
      refine LowerContext.lowerTry_returns (raises body List.mem_cons_self)
        (fun handler isHandler => ?_) fun last isLast => ?_
      · have listed := List.mem_map_of_mem (f := fun handler : CatchBinder × Core => handler.2)
          isHandler
        exact ⟨raises _ (List.mem_cons_of_mem _ (List.mem_append_left _ listed)),
          branches _ listed⟩
      · cases isLast
        exact raises _ (by simp [Core.parts])
  | pin id captures arrays body =>
      cases isBlock
      exact LowerContext.lowerPin_returns (raises body (by simp [Core.parts]))
  | _ => cases isBlock

end ClassForge
