import ClassForge.Proofs.Code.Lowering

/-!
# Generating whole bodies

The code of methods, constructors, functions and blocks of an accepted module.
Each body gives storage to its arguments and to what it captures, and then
generates the code of an accepted expression in it.  Arguments are out of range
only in a body that has more of them than instructions can name.
-/

namespace ClassForge

open Lower

variable {typing : TypeContext} {context : LowerContext}
variable {missing : Key → Prop} {crowded : Prop}
variable {arguments : List Param}
variable {closure : Closure}

/-! ## Arguments -/

theorem argSlot_yields {index : Nat} (room : maxArgs ≤ index → crowded) :
    Yields (Diagnostic.Excused missing crowded) (argSlot index) fun _ => True := by
  unfold argSlot
  split
  · trivial
  · rename_i outOfRange
    exact Diagnostic.Excused.argument (room (Nat.le_of_not_lt outOfRange))

namespace LowerContext

variable {env : Scope Binding}
variable {first : Nat} {captures : List Param}

theorem bindParams_ensures {params : List Binder}
    (types : ∀ param ∈ params, context.resolution.SuppliesType missing param.type)
    (room : maxArgs < first + params.length → crowded) :
    Ensures (Diagnostic.Excused missing crowded)
      (context.bindParams params first env) fun inner =>
        ∃ entries, inner = env.bindAll entries ∧
          List.Forall₂ Binder.Stored params entries := by
  suffices Ensures (Diagnostic.Excused missing crowded)
      (context.bindParams params first env) fun _ => True from
    (this.and (bindParams_shape params first env)).imp fun _ both => both.2
  induction params generalizing first env with
  | nil => exact .pure trivial
  | cons param params ih =>
      rw [List.length_cons] at room
      have rest : ∀ inner, Ensures (Diagnostic.Excused missing crowded)
          (context.bindParams params (first + 1) inner) fun _ => True := fun inner =>
        ih (List.forall_mem_cons.mp types).2
          fun many => room (by omega)
      refine (Ensures.lift (argSlot_yields fun many => room (by omega))).andThen ?_
      intro slot
      cases param.captured with
      | true =>
          refine (Ensures.emit _).andThen fun _ => ?_
          refine (newCell_ensures (types param List.mem_cons_self) true).andThen ?_
          exact fun _ => rest _
      | false => exact rest _

theorem bindCells_yields (room : maxArgs < first + captures.length → crowded) :
    Yields (Diagnostic.Excused missing crowded) (bindCells captures first env)
      fun inner => ∃ entries, inner = env.bindAll entries ∧
        List.Forall₂ Param.Shared captures entries := by
  suffices Yields (Diagnostic.Excused missing crowded) (bindCells captures first env)
      fun _ => True from this.and_ok fun _ done => bindCells_shape done
  induction captures generalizing first env with
  | nil => trivial
  | cons capture captures ih =>
      rw [List.length_cons] at room
      refine (argSlot_yields fun many => room (by omega)).bind fun _ _ => ?_
      exact ih fun many => room (by omega)

theorem bindFields_yields
    (keys : ∀ capture ∈ captures,
      context.resolution.Supplies missing (.field (closure.fieldKey capture))) :
    Yields (Diagnostic.Excused missing crowded)
      (context.bindFields closure captures env) fun inner =>
        ∃ entries, inner = env.bindAll entries ∧
          List.Forall₂ Param.Shared captures entries := by
  suffices Yields (Diagnostic.Excused missing crowded)
      (context.bindFields closure captures env) fun _ => True from
    this.and_ok fun _ done => bindFields_shape done
  induction captures generalizing env with
  | nil => trivial
  | cons capture captures ih =>
      refine (Resolution.field_yields (keys capture List.mem_cons_self)).bind ?_
      exact fun _ _ => ih (List.forall_mem_cons.mp keys).2

theorem bindException_ensures {handler : CatchBinder}
    (types : ∀ binder ∈ handler.binder,
      context.resolution.SuppliesType missing binder.type) :
    Ensures (Diagnostic.Excused missing crowded) (context.bindException handler env)
      fun inner => ∃ entries, inner = env.bindAll entries ∧
        List.Forall₂ Binder.Stored handler.binder.toList entries := by
  suffices Ensures (Diagnostic.Excused missing crowded)
      (context.bindException handler env) fun _ => True from
    (this.and (bindException_shape handler env)).imp fun _ both => both.2
  unfold bindException
  cases found : handler.binder with
  | none => exact (Ensures.emit _).andThen fun _ => .pure trivial
  | some binder =>
      exact (bindTop_ensures (types binder found) _).andThen fun _ => .pure trivial

/-- The types of pinned elements are primitive, so they need no handle. -/
theorem suppliesType_pinnable {resolution : Resolution} {array element : SourceTy}
    (isElement : array.element? = some element)
    (pinnable : (array.element?.bind Ty.prim?).any Prim.isPinnable = true) :
    resolution.SuppliesType missing element := by
  rw [isElement, Option.bind_some] at pinnable
  cases element with
  | builtin => exact fun name mentioned => by cases mentioned
  | _ => simp [Ty.prim?] at pinnable

theorem bindPinned_ensures {arrays : List (Binder × Core)}
    (pinnable : ∀ array ∈ arrays,
      (array.2.type.element?.bind Ty.prim?).any Prim.isPinnable = true)
    (room : maxArgs < first + arrays.length → crowded) :
    Ensures (Diagnostic.Excused missing crowded)
      (context.bindPinned arrays first env) fun inner =>
        ∃ entries, inner = env.bindAll entries ∧
          List.Forall₂ (fun array entry =>
            ({ array.1 with type := .intPtr } : Binder).Stored entry) arrays entries := by
  suffices Ensures (Diagnostic.Excused missing crowded)
      (context.bindPinned arrays first env) fun _ => True from
    (this.and (bindPinned_shape arrays first env)).imp fun _ both => both.2
  induction arrays generalizing first env with
  | nil => exact .pure trivial
  | cons array arrays ih =>
      obtain ⟨binder, array⟩ := array
      rw [List.length_cons] at room
      have isPinnable := pinnable _ List.mem_cons_self
      unfold bindPinned
      cases found : array.type.element? with
      | none => simp [found] at isPinnable
      | some element =>
          have elementType : context.resolution.SuppliesType missing element :=
            suppliesType_pinnable found isPinnable
          refine (Ensures.lift (runTy_yields elementType)).andThen fun _ => ?_
          refine (Ensures.lift (argSlot_yields fun many => room (by omega))).andThen ?_
          refine fun _ => (Ensures.emitAll _).andThen fun _ => ?_
          refine (ofEmit_ensures _).andThen fun _ => (Ensures.emitAll _).andThen ?_
          refine fun _ => (bindTop_ensures ?_ _).andThen fun _ => ih ?_ ?_
          · exact fun name mentioned => by cases mentioned
          · exact (List.forall_mem_cons.mp pinnable).2
          · exact fun many => room (by omega)

end LowerContext

/-! ## Results -/

theorem assemble_yields {action : Lower Unit}
    (ensures : Ensures (Diagnostic.Excused missing crowded) action fun _ => True) :
    Yields (Diagnostic.Excused missing crowded) (Lower.assemble action)
      fun _ => True := by
  refine (ensures {}).bind fun result _ => ?_
  obtain ⟨⟨⟩, emitter⟩ := result
  dsimp only
  cases emitter.finish with
  | ok body => trivial
  | error error => exact Diagnostic.Excused.target error

theorem lowerResult_ensures {body : Core} {ret : SourceTy} {env : Scope Binding}
    (bodyEnsures : ∀ tail, Ensures (Diagnostic.Excused missing crowded)
      (body.lower context env tail) fun _ => True) :
    Ensures (Diagnostic.Excused missing crowded) (context.lowerResult body ret env)
      fun _ => True := by
  refine (bodyEnsures _).andThen fun _ => ?_
  split
  · exact (Ensures.popValue _).andThen fun _ => .emit _
  · exact .emit _

/-! ## Members -/

/-- The arguments of a member are stored, and storage agrees with what each of its
expressions uses. -/
theorem bindArguments_ensures {uses : Usage}
    (types : ∀ param ∈ arguments, context.resolution.SuppliesType missing param.type)
    (room : maxArgs < arguments.length → crowded) :
    Ensures (Diagnostic.Excused missing crowded)
      (context.bindParams (bindersOf uses arguments) 0 .empty) fun env =>
        env.Supplied context.resolution missing ∧
          ∀ inner : Usage, inner.Within uses → Agrees (.ofParams arguments) inner env := by
  refine (LowerContext.bindParams_ensures ?_ ?_).imp ?_
  · intro binder member
    obtain ⟨param, present, rfl⟩ := List.mem_map.mp member
    exact types param present
  · intro many
    exact room (by simpa [bindersOf] using many)
  · rintro env ⟨entries, rfl, stored⟩
    have stored := stored_of_binders stored
    refine ⟨Scope.supplied_empty.declare stored ?_,
      fun inner within => agrees_arguments within stored⟩
    intro bound member
    obtain ⟨param, present, rfl⟩ := List.mem_map.mp member
    exact types param present

/-- The code of an accepted method. -/
theorem Routine.code_yields {ret : SourceTy} {body : Expr} {routine : Routine}
    (checked : typing.ChecksRoutine arguments ret body routine)
    (types : ∀ param ∈ arguments, context.resolution.SuppliesType missing param.type)
    (nodes : ∀ node ∈ routine.body.preorder,
      node.Supplied context.resolution missing context.host)
    (room : maxArgs < arguments.length → crowded) :
    Yields (Diagnostic.Excused missing crowded) (routine.code context)
      fun _ => True := by
  refine assemble_yields ?_
  rw [checked.params]
  refine (bindArguments_ensures types room).bind fun env stored => ?_
  refine lowerResult_ensures fun tail => ?_
  exact lower_ensures body checked.checked (stored.2 _ (.refl _)) nodes stored.1 tail

/-- The code of an accepted constructor. -/
theorem CtorRoutine.code_yields {cls : ClassDef} {ctor : CtorDef} {core : CoreCtor}
    (checked : typing.ChecksCtor cls ctor core)
    (types : ∀ param ∈ cls.arguments false ctor.params,
      context.resolution.SuppliesType missing param.type)
    (nodes : ∀ root ∈ core.routine.roots, ∀ node ∈ root.preorder,
      node.Supplied context.resolution missing context.host)
    (baseKey : ∀ callee ∈ core.routine.base, ∀ key ∈ callee.ctorKey?,
      context.resolution.Supplies missing (.ctor key))
    (basePlatform : ∀ callee ∈ core.routine.base, callee.ctorKey? = none →
      ∀ type ∈ callee.owner :: callee.params,
        context.resolution.SuppliesType missing type)
    (room : maxArgs < (cls.arguments false ctor.params).length → crowded) :
    Yields (Diagnostic.Excused missing crowded) (core.routine.code context)
      fun _ => True := by
  have within := CtorDef.within_foldl_union ctor.baseArgs (Expr.sorted_usage ctor.body)
  refine assemble_yields ?_
  rw [checked.params]
  refine (bindArguments_ensures types room).bind fun env stored => ?_
  refine (Ensures.optionForM fun callee isBase => ?_).andThen fun _ => ?_
  · refine (LowerContext.ctor_ensures (baseKey callee isBase)
      (basePlatform callee isBase)).andThen fun _ => ?_
    refine (Ensures.emit _).andThen fun _ => ?_
    refine (Core.lowerAll_ensures fun arg member => ?_).andThen fun _ => .emit _
    obtain ⟨source, paired⟩ := exists_mem_zip checked.baseArgs.length_eq member
    have argChecked := List.forall₂_zip checked.baseArgs paired
    have isArg := (List.of_mem_zip paired).1
    refine lower_ensures source argChecked (stored.2 _ (within.2 source isArg)) ?_
      stored.1 false
    exact nodes arg (List.mem_append_left _ member)
  · refine lowerResult_ensures fun tail => ?_
    refine lower_ensures ctor.body checked.checked (stored.2 _ within.1) ?_ stored.1 tail
    exact nodes _ (List.mem_append_right _ (List.mem_singleton_self _))

/-! ## Functions -/

/-- The constructor behind a function stores the cells that it is given. -/
theorem Closure.ctorCode_yields
    (keys : ∀ capture ∈ closure.captures,
      context.resolution.Supplies missing (.field (closure.fieldKey capture)))
    (room : maxArgs < closure.captures.length + 1 → crowded) :
    Yields (Diagnostic.Excused missing crowded) (closure.ctorCode context)
      fun _ => True := by
  have storeCells : ∀ (captures : List Param) (first : Nat),
      (∀ capture ∈ captures,
        context.resolution.Supplies missing (.field (closure.fieldKey capture))) →
      (maxArgs < first + captures.length → crowded) →
      Ensures (Diagnostic.Excused missing crowded)
        (closure.storeCells context captures first) fun _ => True := by
    intro captures
    induction captures with
    | nil => exact fun _ _ _ => .pure trivial
    | cons capture captures ih =>
        intro first keys room
        rw [List.length_cons] at room
        have field := keys capture List.mem_cons_self
        refine (Ensures.lift (Resolution.field_yields field)).andThen fun _ => ?_
        refine (Ensures.lift (argSlot_yields fun many => room (by omega))).andThen ?_
        refine fun _ => (Ensures.emitAll _).andThen fun _ => ih _ ?_ ?_
        · exact (List.forall_mem_cons.mp keys).2
        · exact fun many => room (by omega)
  refine assemble_yields ?_
  refine (LowerContext.platformCtor_ensures ?_ (by simp)).andThen fun _ => ?_
  · exact fun name mentioned => by cases mentioned
  refine (Ensures.emitAll _).andThen fun _ => ?_
  refine (storeCells _ _ keys fun many => room (by omega)).andThen fun _ => .emit _

section Boundaries

variable {types : Scope SourceTy} {expr : Expr} {core : Core}
variable {captures : List Param}
variable {cells : List (Name × Binding)} {catches : List (CatchBinder × Core)}

/-- There is a way down to what moves into a function. -/
theorem exists_descends_closure {host : Name} (checked : expr.Checks typing types core)
    (isClosure : core.closure? host = some closure) :
    ∃ bounds child, Descends .moved bounds expr core child closure.body := by
  cases checked.elaborates with
  | lambda =>
      cases isClosure
      exact ⟨_, _, .lambda⟩
  | loop =>
      cases isClosure
      exact ⟨_, _, .loop⟩
  | operation _ _ _ acts => cases acts <;> cases isClosure
  | _ => cases isClosure

/-- Cells of captured variables make up storage whose types are supplied. -/
theorem supplied_cells (shared : List.Forall₂ Param.Shared captures cells)
    (supplied : ∀ capture ∈ captures,
      context.resolution.SuppliesType missing capture.type) :
    (Scope.empty.bindAll cells).Supplied context.resolution missing :=
  Scope.supplied_empty.bindAll shared fun capture member _ holds => by
    rw [holds.typed]
    exact supplied capture member

/-- The code of a part of an accepted boundary, once storage is laid out. -/
theorem lower_moved_ensures {entries : List (Name × Binding)} {position : Position}
    {bounds : List Bound} {child : Expr} {part : Core} (checked : expr.Checks typing types core)
    (step : Descends position bounds expr core child part)
    (laid : core.Laid context.host position cells entries)
    (nodes : ∀ node ∈ part.preorder,
      node.Supplied context.resolution missing context.host)
    (scope : ((Scope.empty.bindAll cells).bindAll entries).Supplied
      context.resolution missing) (tail : Bool) :
    Ensures (Diagnostic.Excused missing crowded)
      (part.lower context ((Scope.empty.bindAll cells).bindAll entries) tail)
      fun _ => True :=
  lower_ensures child (step.checks checked) (step.opened checked laid).2 nodes scope tail

/-- The code of the function behind an accepted lambda or loop. -/
theorem Closure.invokeCode_yields (checked : expr.Checks typing types core)
    (isClosure : core.closure? context.host = some closure)
    (nodes : ∀ node ∈ closure.body.preorder,
      node.Supplied context.resolution missing context.host)
    (fields : ∀ capture ∈ closure.captures,
      context.resolution.Supplies missing (.field (closure.fieldKey capture)))
    (captured : ∀ capture ∈ closure.captures,
      context.resolution.SuppliesType missing capture.type)
    (params : ∀ param ∈ closure.params,
      context.resolution.SuppliesType missing param.type)
    (room : maxArgs < closure.params.length + 1 → crowded) :
    Yields (Diagnostic.Excused missing crowded) (closure.invokeCode context)
      fun _ => True := by
  obtain ⟨bounds, child, step⟩ := exists_descends_closure checked isClosure
  refine assemble_yields ?_
  refine (Ensures.lift (LowerContext.bindFields_yields fields)).bind ?_
  rintro _ ⟨cells, rfl, shared⟩
  refine (LowerContext.bindParams_ensures params fun many => room (by omega)).bind ?_
  rintro _ ⟨entries, rfl, stored⟩
  have scope := (supplied_cells shared captured).bindAll stored
    fun param member _ holds => by
      rw [holds.typed]
      exact params param member
  refine lowerResult_ensures fun tail => ?_
  exact lower_moved_ensures checked step (.closure isClosure shared stored) nodes scope tail

/-! ## Blocks -/

/-- The parts of an accepted `try`, with the ways down to them. -/
structure Expr.ChecksTry (typing : TypeContext) (types : Scope SourceTy) (expr : Expr)
    (core body : Core) (catches : List (CatchBinder × Core)) (final : Option Core) :
    Prop where
  checked : expr.Checks typing types core
  isTry : core.isTry = true
  isHandlers : core.handlers = catches
  toBody : ∃ bounds child, Descends .moved bounds expr core child body
  toHandler : ∀ (index : Nat) handler, catches[index]? = some handler →
    ∃ bounds child, Descends (.handler index) bounds expr core child handler.2
  toFinal : ∀ last ∈ final, ∃ bounds child, Descends .final bounds expr core child last
  binders : ∀ handler ∈ catches, ∀ binder ∈ handler.1.binder,
    binder.type = handler.1.type

/-- A handler that was checked binds an exception of the type that it catches. -/
theorem binder_type_of_checksHandlers {type : SourceTy} {catches : List (Param × Expr)}
    {cores : List (CatchBinder × Core)}
    (checked : List.Forall₂ (Expr.ChecksHandler typing types type) catches cores) :
    ∀ core ∈ cores, ∀ binder ∈ core.1.binder, binder.type = core.1.type := by
  intro core member binder isBinder
  obtain ⟨handler, paired⟩ := exists_mem_zip checked.length_eq member
  have holds := (List.forall₂_zip checked paired).binder
  rw [holds] at isBinder ⊢
  obtain ⟨use, -, rfl⟩ := Option.map_eq_some_iff.mp isBinder
  rfl

theorem checksTry_tryCatch {id : NodeId} {body : Core}
    (checked : expr.Checks typing types (.tryCatch id captures body catches)) :
    expr.ChecksTry typing types (.tryCatch id captures body catches) body catches
      none := by
  cases checked.elaborates with
  | operation _ _ _ acts => cases acts
  | tryCatch _ handlers =>
      refine ⟨checked, rfl, rfl, ⟨_, _, .tryCatch⟩, ?_, by simp,
        binder_type_of_checksHandlers handlers⟩
      intro index handler target
      obtain ⟨inRange, -⟩ := List.getElem?_eq_some_iff.mp target
      rw [← handlers.length_eq] at inRange
      exact ⟨_, _, .tryCatchHandler (List.getElem?_eq_getElem inRange) target⟩

theorem checksTry_tryFinally {id : NodeId} {body final : Core}
    (checked : expr.Checks typing types (.tryFinally id captures body catches final)) :
    expr.ChecksTry typing types (.tryFinally id captures body catches final) body catches
      (some final) := by
  cases checked.elaborates with
  | operation _ _ _ acts => cases acts
  | tryFinally _ handlers =>
      refine ⟨checked, rfl, rfl, ⟨_, _, .tryFinally⟩, ?_, ?_,
        binder_type_of_checksHandlers handlers⟩
      · intro index handler target
        obtain ⟨inRange, -⟩ := List.getElem?_eq_some_iff.mp target
        rw [← handlers.length_eq] at inRange
        exact ⟨_, _, .tryFinallyHandler (List.getElem?_eq_getElem inRange) target⟩
      · rintro _ ⟨⟩
        exact ⟨_, _, .final⟩

variable {body : Core} {catches : List (CatchBinder × Core)} {final : Option Core}
variable {cells : List (Name × Binding)}

theorem keepResult_ensures {permits : Diagnostic → Prop} (result : Option Nat) :
    Ensures permits (LowerContext.keepResult result) fun _ => True :=
  Ensures.optionForM fun _ _ => .emit _

theorem lowerCatch_ensures {handler : CatchBinder × Core}
    (parts : expr.ChecksTry typing types core body catches final) (member : handler ∈ catches)
    (shared : List.Forall₂ Param.Shared core.captures cells)
    (nodes : ∀ node ∈ core.preorder,
      node.Supplied context.resolution missing context.host)
    (outer : (Scope.empty.bindAll cells).Supplied context.resolution missing)
    (supplied : context.resolution.SuppliesType missing handler.1.type)
    (result : Option Nat) :
    Ensures (Diagnostic.Excused missing crowded)
      (context.lowerCatch handler.1 handler.2 result (Scope.empty.bindAll cells))
      fun _ => True := by
  obtain ⟨index, found⟩ := List.mem_iff_getElem?.mp member
  obtain ⟨_, _, step⟩ := parts.toHandler index handler found
  have bound : ∀ binder ∈ handler.1.binder,
      context.resolution.SuppliesType missing binder.type := by
    intro binder isBinder
    rw [parts.binders handler member binder isBinder]
    exact supplied
  refine (Ensures.lift (LowerContext.runTy_yields supplied)).andThen fun _ => ?_
  refine (ofEmit_ensures _).andThen fun _ => ?_
  refine (LowerContext.bindException_ensures bound).bind ?_
  rintro _ ⟨entries, rfl, stored⟩
  have laid : core.Laid context.host (.handler index) cells entries :=
    .handler (parts.isHandlers ▸ found) shared stored
  have scope := outer.bindAll stored fun binder isBinder _ holds => by
    rw [holds.typed]
    exact bound binder (Option.mem_toList.mp isBinder)
  refine (lower_moved_ensures parts.checked step laid
    (fun node member => nodes node (step.preorder_subset member)) scope false).andThen ?_
  exact fun _ => keepResult_ensures result

/-- The code of an accepted `try`. -/
theorem lowerTry_ensures (parts : expr.ChecksTry typing types core body catches final)
    (shared : List.Forall₂ Param.Shared core.captures cells)
    (nodes : ∀ node ∈ core.preorder,
      node.Supplied context.resolution missing context.host)
    (captured : ∀ capture ∈ core.captures,
      context.resolution.SuppliesType missing capture.type)
    (result : context.resolution.SuppliesType missing body.type)
    (handled : ∀ handler ∈ catches,
      context.resolution.SuppliesType missing handler.1.type) :
    Ensures (Diagnostic.Excused missing crowded)
      (context.lowerTry body catches final (Scope.empty.bindAll cells))
      fun _ => True := by
  have outer := supplied_cells shared captured
  have rest : ∀ slot : Option Nat, Ensures (Diagnostic.Excused missing crowded)
      (do
        discard <| modifyGet Emitter.beginTry
        body.lower context (Scope.empty.bindAll cells) false
        LowerContext.keepResult slot
        catches.forM fun clause =>
          context.lowerCatch clause.1 clause.2 slot (Scope.empty.bindAll cells)
        final.forM fun final => context.lowerFinal final (Scope.empty.bindAll cells)
        Lower.ofEmit Emitter.endTry
        slot.forM fun slot => Lower.emit (.loadLocal slot)
        Lower.emit .ret) fun _ => True := by
    intro slot
    obtain ⟨_, _, bodyStep⟩ := parts.toBody
    refine Ensures.beginTry.andThen fun _ => ?_
    refine (lower_moved_ensures parts.checked bodyStep (.guarded parts.isTry shared)
      (fun node member => nodes node (bodyStep.preorder_subset member)) outer false).andThen fun _ => ?_
    refine (keepResult_ensures slot).andThen fun _ => ?_
    refine (Ensures.forM fun handler member =>
      lowerCatch_ensures parts member shared nodes outer (handled handler member)
        slot).andThen fun _ => ?_
    refine (Ensures.optionForM fun last isFinal => ?_).andThen fun _ => ?_
    · obtain ⟨_, _, step⟩ := parts.toFinal last isFinal
      refine (ofEmit_ensures _).andThen fun _ => ?_
      refine (lower_moved_ensures parts.checked step (.final shared)
        (fun node member => nodes node (step.preorder_subset member)) outer false).andThen ?_
      exact fun _ => .popValue _
    refine (ofEmit_ensures _).andThen fun _ => ?_
    refine (Ensures.optionForM fun _ _ => .emit _).andThen fun _ => ?_
    exact .emit _
  unfold LowerContext.lowerTry
  split
  · exact rest none
  · rw [map_eq_pure_bind, bind_assoc]
    refine (LowerContext.declareLocal_ensures result).andThen fun slot => ?_
    exact rest (some slot)

/-- The code of the static method behind an accepted `try` or `pin`. -/
theorem Block.code_yields {block : Block} (checked : expr.Checks typing types core)
    (isBlock : core.block? context.host = some block)
    (nodes : ∀ node ∈ core.preorder,
      node.Supplied context.resolution missing context.host)
    (captured : ∀ capture ∈ core.captures,
      context.resolution.SuppliesType missing capture.type)
    (result : context.resolution.SuppliesType missing core.type)
    (handled : ∀ handler ∈ core.handlers,
      context.resolution.SuppliesType missing handler.1.type)
    (room : maxArgs < block.captures.length + block.arrays.length → crowded) :
    Yields (Diagnostic.Excused missing crowded) (block.code context) fun _ => True := by
  refine assemble_yields ?_
  refine (Ensures.lift (LowerContext.bindCells_yields fun many => room (by omega))).bind ?_
  rintro _ ⟨cells, rfl, shared⟩
  cases core with
  | tryCatch id captures body catches =>
      cases isBlock
      exact lowerTry_ensures (checksTry_tryCatch checked) shared nodes captured result handled
  | tryFinally id captures body catches final =>
      cases isBlock
      exact lowerTry_ensures (checksTry_tryFinally checked) shared nodes captured result
        handled
  | pin id captures arrays body =>
      cases isBlock
      cases checked.elaborates with
      | operation _ _ _ acts => cases acts
      | pin checkedArrays =>
          have pinnable : ∀ array ∈ arrays,
              (array.2.type.element?.bind Ty.prim?).any Prim.isPinnable = true := by
            intro array member
            obtain ⟨source, paired⟩ := exists_mem_zip checkedArrays.length_eq member
            exact (List.forall₂_zip checkedArrays paired).pinnable
          refine (LowerContext.bindPinned_ensures pinnable fun many => room ?_).bind ?_
          · simpa using many
          rintro _ ⟨entries, rfl, stored⟩
          have scope := (supplied_cells shared captured).bindAll stored
            fun array member _ holds => by
              rw [holds.typed]
              exact fun name mentioned => by cases mentioned
          refine (lower_moved_ensures checked .pin (.pin shared stored) ?_ scope false).andThen ?_
          · exact fun node member =>
              nodes node (Core.mem_preorder_of_mem_parts (by simp [Core.parts]) member)
          · exact fun _ => .emit _
  | _ => cases isBlock

end Boundaries

end ClassForge
