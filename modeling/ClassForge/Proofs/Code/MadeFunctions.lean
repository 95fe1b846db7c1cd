import ClassForge.Proofs.Code.StoredVariables

/-!
# Code that makes and enters functions

Pushing a function pushes the cells of the captured variables, makes the receiver, whose
constructor stores the cells in its fields, and makes the function object.  Calling a function
starts a frame of the code behind it, whose slots are known then.
-/

namespace ClassForge

open Machine

/-! ## Finished code -/

/-- Code that was written from the start and then finished. -/
theorem Lower.assemble_eq_ok {action : Lower Unit} {body : Body}
    (done : Lower.assemble action = .ok body) (adds : action.Adds) :
    ∃ emitter, action.Writes {} () emitter ∧ emitter.PlacedIn body ∧ body.Unpinned := by
  obtain ⟨⟨_, emitter⟩, written, finished⟩ := bind_eq_ok.mp done
  dsimp only at finished
  split at finished
  · rename_i isBody
    cases finished
    refine ⟨emitter, written, Emitter.placedIn_of_finish isBody, ?_⟩
    obtain ⟨labels, -, rfl⟩ := Emitter.finish_eq_ok isBody
    exact (adds _ _ _ written).unpinned (by simp [Emitter.Unpinned])
  · cases finished

/-! ## Members of functions -/

section Members

variable {linkage : Linkage} {context : LowerContext} {before after : Emitter}
variable {args : List SourceTy}
variable {definition : Name} {params : List SourceTy}

/-- A function type keeps its family and its number of arguments. -/
theorem LowerContext.runTy_generic {type : RunTy} (context : LowerContext)
    (done : context.runTy (.generic definition args) = .ok type) :
    ∃ results, type = .generic definition results ∧ results.length = args.length := by
  obtain ⟨results, areResults, ⟨⟩⟩ := bind_eq_ok.mp done
  exact ⟨results, rfl, Ty.length_of_resolveList areResults⟩

theorem Linkage.Admits.writes_delegateCtor (admits : linkage.Admits context) {ctor : CtorHandle}
    (isFamily : definition = Platform.func ∨ definition = Platform.action)
    (written : (context.delegateCtor (.generic definition args)).Writes before ctor after) :
    after = before ∧ ∃ type, linkage.image.generic? definition args.length = some type ∧
      linkage.image.ctor? ctor = some ⟨type, [.object, .intPtr], .native .delegateCtor⟩ := by
  obtain ⟨type, isType, written⟩ := Lower.writes_lift_bind.mp written
  obtain ⟨results, rfl, count⟩ := context.runTy_generic isType
  obtain ⟨params, areParams, written⟩ := Lower.writes_lift_bind.mp written
  obtain ⟨resolved, rfl⟩ := Lower.writes_ofImage.mp written
  obtain ⟨arity, ret, isEntry⟩ := Image.IsFunction.entry isFamily results.length
  obtain ⟨type, isGeneric, described, isDescribed, -, isCtor⟩ :=
    admits.built.resolveCtor_generic linkage.built resolved isEntry
  rw [List.mem_singleton.mp isDescribed] at isCtor
  exact ⟨rfl, type, count ▸ isGeneric, isCtor⟩

theorem Ty.delegate_eq_generic (params : List SourceTy) (ret : SourceTy) :
    ∃ definition args, (definition = Platform.func ∨ definition = Platform.action) ∧
      (Ty.delegate params ret : SourceTy) = .generic definition args := by
  unfold Ty.delegate
  split
  · exact ⟨_, _, .inr rfl, rfl⟩
  · exact ⟨_, _, .inl rfl, rfl⟩

/-- A function type has a call with as many parameters, which gives a value if the functions do. -/
theorem Library.generic?_delegate {ret : SourceTy}
    (same : (Ty.delegate params ret : SourceTy) = .generic definition args) :
    ∃ result : RunTy, result.isVoid = ret.isVoid ∧
      Library.generic? (.generic definition args.length) =
        some (Library.delegate definition args.length params.length result) := by
  unfold Ty.delegate at same
  split at same
  · next isVoid =>
      cases same
      exact ⟨.void, by rw [isVoid]; rfl, rfl⟩
  · next isValue =>
      cases same
      refine ⟨.object, ?_, ?_⟩
      · exact (Bool.eq_false_iff.mpr (isValue ∘ Ty.isVoid_iff.mp)).symm
      · rw [List.length_append]
        rfl

/-- A method is the call of the type of functions with a signature. -/
def Linkage.Invokes (linkage : Linkage) (params : List SourceTy) (ret : SourceTy)
    (handle : MethodHandle) : Prop :=
  ∃ definition args type result, (Ty.delegate params ret : SourceTy) = .generic definition args ∧
    linkage.image.generic? definition args.length = some type ∧
    Library.generic? (.generic definition args.length) =
      some (Library.delegate definition args.length params.length result) ∧
    linkage.image.method? handle = some (Image.invokeInfo type params.length result) ∧
    result.isVoid = ret.isVoid

theorem Linkage.Admits.writes_delegateInvoke (admits : linkage.Admits context) {ret : SourceTy}
    {handle : MethodHandle}
    (written : (context.delegateInvoke (.delegate params ret)).Writes before handle after) :
    after = before ∧ linkage.Invokes params ret handle := by
  obtain ⟨definition, args, isFamily, same⟩ := Ty.delegate_eq_generic params ret
  obtain ⟨result, isResult, isEntry⟩ := Library.generic?_delegate same
  unfold LowerContext.delegateInvoke at written
  rw [Ty.signature?_delegate] at written
  obtain ⟨type, isType, written⟩ := Lower.writes_lift_bind.mp written
  rw [same] at isType
  obtain ⟨results, rfl, count⟩ := context.runTy_generic isType
  obtain ⟨types, areParams, written⟩ := Lower.writes_lift_bind.mp written
  obtain ⟨resolved, rfl⟩ := Lower.writes_ofImage.mp written
  obtain ⟨type, isGeneric, described, isDescribed, -, isMethod⟩ :=
    admits.built.resolveMethod_generic linkage.built resolved (count ▸ isEntry)
  rw [List.mem_singleton.mp isDescribed] at isMethod
  exact ⟨rfl, definition, args, type, result, same, count ▸ isGeneric, isEntry, isMethod, isResult⟩

theorem Linkage.Admits.writes_objectCtor (admits : linkage.Admits context)
    {ctor : CtorHandle} (written : (context.platformCtor .object []).Writes before ctor after) :
    after = before ∧ linkage.image.ctor? ctor =
      some ⟨⟨Library.objectIndex⟩, [], .native .objectCtor⟩ := by
  obtain ⟨type, isType, written⟩ := Lower.writes_lift_bind.mp written
  cases isType
  obtain ⟨params, areParams, written⟩ := Lower.writes_lift_bind.mp written
  cases areParams
  obtain ⟨resolved, rfl⟩ := Lower.writes_ofImage.mp written
  exact ⟨rfl, admits.built.resolveCtor_object linkage.built resolved⟩

end Members

/-! ## Functions are made -/

namespace Heap

variable {heap : Heap} {ref other : ObjRef} {type : TypeHandle} {fields : Array Value}

theorem get?_setField_self (found : heap.get? ref = some (.instance type fields)) (slot : Nat)
    (value : Value) : (heap.setField ref slot value).get? ref =
      some (.instance type (fields.setIfInBounds slot value)) := by
  rw [setField, get?_modify, if_pos rfl, found]
  rfl

theorem get?_setField_of_ne (differs : other ≠ ref) (slot : Nat) (value : Value) :
    (heap.setField ref slot value).get? other = heap.get? other := by
  rw [setField, get?_modify, if_neg differs.symm]

end Heap

namespace Closure

variable {linkage : Linkage} {context : LowerContext} {closure : Closure} {seat : Seat}
variable {frame : Frame} {before after : Emitter} {limit : Nat} {post : Config → Prop}
variable {stack : List Value} {store : Store} {cells : Param → ObjRef} {target : ObjRef}
variable {fields : Array Value}

theorem storeCells_adds (closure : Closure) (context : LowerContext) (captures : List Param)
    (first : Nat) : (closure.storeCells context captures first).Adds :=
  (Lower.Adds.compositional context).storeCells closure captures first

/-- The fields of the receiver hold the cells of some captured variables. -/
def Holds (linkage : Linkage) (closure : Closure) (fields : Array Value) (cells : Param → ObjRef)
    (captures : List Param) : Prop :=
  ∀ capture ∈ captures, ∃ handle field, linkage.resolution.field (closure.fieldKey capture) =
    .ok handle ∧ linkage.image.field? handle = some field ∧
      fields[field.slot]? = some (.ref (cells capture))

/-- The constructor of the receiver stores the cells. -/
theorem Layout.arrives_storeCells (layout : closure.Layout linkage)
    (admits : linkage.Admits context) {done captures : List Param}
    (split : done ++ captures = closure.captures)
    (args : ∀ index capture, captures[index]? = some capture →
      frame.args[done.length + 1 + index]? = some (.ref (cells capture)))
    (receiver : frame.args[0]? = some (.ref target))
    (isObject : store.heap.get? target = some (.instance layout.owner fields))
    (size : fields.size = layout.info.instanceSlots)
    (holds : closure.Holds linkage fields cells done)
    (written : (closure.storeCells context captures (done.length + 1)).Writes before () after)
    (placed : after.PlacedIn frame.body)
    (rest : ∀ heap fields, heap.get? target = some (.instance layout.owner fields) →
      closure.Holds linkage fields cells closure.captures →
      (∀ ref, ref ≠ target → heap.get? ref = store.heap.get? ref) →
      Arrives linkage.image limit (seat.config frame after.position stack { store with heap }) post) :
    Arrives linkage.image limit (seat.config frame before.position stack store) post := by
  induction captures generalizing done fields store before with
  | nil =>
      obtain ⟨-, rfl⟩ := Lower.writes_pure.mp written
      rw [List.append_nil] at split
      exact rest store.heap fields isObject (split ▸ holds) fun _ _ => rfl
  | cons capture captures ih =>
      obtain ⟨handle, isHandle, written⟩ := Lower.writes_lift_bind.mp written
      obtain ⟨slot, isSlot, written⟩ := Lower.writes_lift_bind.mp written
      obtain rfl := argSlot_eq_ok isSlot
      obtain ⟨_, middle, emitted, written⟩ := Lower.writes_bind.mp written
      obtain rfl := Lower.writes_emitAll_nil.mp (Lower.writes_emitAll_cons.mp
        (Lower.writes_emitAll_cons.mp (Lower.writes_emitAll_cons.mp emitted)))
      have placedHere := placed.of_precedes (closure.storeCells_adds _ _ _ _ _ _ written)
      have isCapture : capture ∈ closure.captures := split ▸ by simp
      obtain ⟨handle', field, isHandle', isField, within⟩ := layout.field capture isCapture
      obtain rfl : handle = handle' :=
        Except.ok.inj ((admits.resolution.field isHandle).symm.trans isHandle')
      have cell : frame.args[done.length + 1]? = some (.ref (cells capture)) := args 0 capture rfl
      refine Seat.arrives_loadArg placedHere.before_emit.before_emit.last receiver ?_
      rw [← Emitter.position_emit before (.loadArg 0)]
      refine Seat.arrives_loadArg placedHere.before_emit.last cell ?_
      rw [← Emitter.position_emit _ (.loadArg (done.length + 1))]
      refine Seat.arrives_storeField placedHere.last isField isObject (size ▸ within) (by simp) ?_
      rw [← Emitter.position_emit _ (.storeField handle)]
      have count : (done ++ [capture]).length = done.length + 1 := List.length_append
      have moved : (done ++ [capture]) ++ captures = closure.captures := by simpa using split
      refine ih moved ?_ (Heap.get?_setField_self isObject _ _) (by simpa using size) ?_
        (by rw [count]; exact written) ?_
      · intro index other isOther
        rw [count, Nat.add_assoc _ 1 index, Nat.add_comm 1 index]
        exact args (index + 1) other isOther
      · intro other isOther
        rcases List.mem_append.mp isOther with earlier | last
        · obtain ⟨otherHandle, otherField, isOtherHandle, isOtherField, held⟩ := holds other earlier
          refine ⟨otherHandle, otherField, isOtherHandle, isOtherField, ?_⟩
          by_cases same : field.slot = otherField.slot
          · -- Only the field of the same variable is in the same slot.
            obtain rfl := layout.apart capture isCapture other (split ▸ List.mem_append_left _ earlier)
              _ _ _ _ isHandle' isOtherHandle isField isOtherField same
            rw [← same]
            exact Array.getElem?_setIfInBounds_self_of_lt (size ▸ within)
          · exact (Array.getElem?_setIfInBounds_ne same).trans held
        · obtain rfl := List.mem_singleton.mp last
          exact ⟨handle, field, isHandle', isField,
            Array.getElem?_setIfInBounds_self_of_lt (size ▸ within)⟩
      · intro heap fields isObject holds others
        refine rest heap fields isObject holds fun ref differs => ?_
        rw [others ref differs]
        exact Heap.get?_setField_of_ne differs _ _

/-- The constructor of the receiver calls that of `Object` and stores the cells. -/
theorem Layout.arrives_ctor (layout : closure.Layout linkage) {locals : List Value} {room : Nat}
    {levels : List Level} (isObject : store.heap.get? target = some (.instance layout.owner fields))
    (size : fields.size = layout.info.instanceSlots)
    (rest : ∀ heap fields, heap.get? target = some (.instance layout.owner fields) →
      closure.Holds linkage fields cells closure.captures →
      (∀ ref, ref ≠ target → heap.get? ref = store.heap.get? ref) →
      Arrives linkage.image limit ⟨.deliver .null, levels, room, { store with heap }⟩ post) :
    Arrives linkage.image limit ⟨.execute (layout.ctorBody.frame
      (.ref target :: closure.captures.map fun capture => .ref (cells capture)) locals) true,
      levels, room, store⟩ post := by
  obtain ⟨context, admits, code⟩ := layout.ctorCode
  obtain ⟨emitter, written, placed, unpinned⟩ := Lower.assemble_eq_ok code
    ((context.platformCtor_adds _ _).bind fun _ => (Lower.Adds.emitAll _).bind fun _ =>
      (closure.storeCells_adds _ _ _).bind fun _ => .emit _)
  obtain ⟨base, start, found, written⟩ := Lower.writes_bind.mp written
  obtain ⟨rfl, isBase⟩ := admits.writes_objectCtor found
  obtain ⟨_, middle, emitted, written⟩ := Lower.writes_bind.mp written
  obtain rfl := Lower.writes_emitAll_nil.mp
    (Lower.writes_emitAll_cons.mp (Lower.writes_emitAll_cons.mp emitted))
  obtain ⟨_, last, stores, returns⟩ := Lower.writes_bind.mp written
  obtain rfl := Lower.writes_emit.mp returns
  have placedHere := placed.before_emit.of_precedes (closure.storeCells_adds _ _ _ _ _ _ stores)
  have receiver : (layout.ctorBody.frame (.ref target :: closure.captures.map fun capture =>
      .ref (cells capture)) locals).args[0]? = some (.ref target) := rfl
  have args : ∀ index capture, closure.captures[index]? = some capture →
      (layout.ctorBody.frame (.ref target :: closure.captures.map fun capture =>
        .ref (cells capture)) locals).args[([] : List Param).length + 1 + index]? =
          some (.ref (cells capture)) := by
    intro index capture isCapture
    simp [Body.frame, Nat.add_comm 1 index, isCapture]
  change Arrives _ _ (Seat.config ⟨true, levels, room⟩ (layout.ctorBody.frame _ locals)
    (Emitter.position {}) [] store) post
  refine Seat.arrives_loadArg placedHere.before_emit.last receiver ?_
  rw [← Emitter.position_emit _ (.loadArg 0)]
  refine @Seat.arrives_callCtor _ _ _ _ _ _ _ _ (.ref target) [] base _ placedHere.last isBase rfl
    (by simp) fun below isRoom => ?_
  refine Seat.arrives_begin (Machine.begin_nativeCtor isBase rfl rfl) ?_
  refine Seat.arrives_deliver isRoom ?_
  rw [← Emitter.position_emit _ (.callCtor base)]
  refine layout.arrives_storeCells admits (List.nil_append _) args receiver isObject size
    (by simp [Holds]) stores placed.before_emit fun heap fields isObject holds others => ?_
  exact Seat.arrives_ret placed.last unpinned (rest heap fields isObject holds others)

/-- The receiver is made and its constructor runs. -/
theorem Layout.arrives_newReceiver (layout : closure.Layout linkage) {position : Nat}
    (isInstr : frame.body.instrs[position]? = some (.newObject layout.ctor))
    (rest : ∀ target heap fields, store.heap.Retains heap →
      heap.get? target = some (.instance layout.owner fields) →
      closure.Holds linkage fields cells closure.captures →
      Arrives linkage.image limit (seat.config frame (position + 1) (.ref target :: stack)
        { store with heap }) post) :
    Arrives linkage.image limit (seat.config frame position
      ((closure.captures.map fun capture => .ref (cells capture)).reverse ++ stack) store) post := by
  obtain ⟨target, fresh, made, allocated, early, isNew, isMade, size⟩ :=
    Exec.run_allocate layout.isOwner layout.complete layout.isClass store
  refine Seat.arrives_newObject isInstr layout.isCtorInfo
    (layout.ctorCount.trans (List.length_map _).symm) (by simp)
    ((congrArg (fun owner => (Exec.allocate linkage.image owner).run store) layout.ctorOwner).trans
      allocated) fun room isRoom => ?_
  obtain ⟨locals, heap, -, retains, ran⟩ := Frame.run_start linkage.image layout.ctorBody
    (.ref target :: closure.captures.map fun capture => .ref (cells capture))
    { store with heap := made }
  refine Seat.arrives_begin (Machine.begin_ctorCode layout.isCtorInfo layout.ctorIsCode ran) ?_
  refine layout.arrives_ctor (retains _ _ isMade) size fun final fields isObject holds others => ?_
  refine Seat.arrives_deliver isRoom ?_
  refine rest target final fields (fun ref object found => ?_) isObject holds
  have old : ref ≠ target := by
    rintro rfl
    cases isNew.symm.trans found
  rw [others ref old]
  exact retains _ _ (early _ _ found)

/-- A variable is captured in a cell that its slot holds. -/
def Cells (contents : Contents) (bindings : Scope Binding) (captures : List Param)
    (cells : Param → ObjRef) : Prop :=
  ∀ capture ∈ captures, ∃ binding, bindings.get? capture.name = some binding ∧
    binding.boxed = true ∧ contents binding.place = some (.fixed (.ref (cells capture)))

end Closure

namespace Situation

variable {linkage : Linkage} {context : LowerContext} {closure : Closure} {seat : Seat}
variable {now : Situation} {before after : Emitter} {limit : Nat} {post : Config → Prop}
variable {stack : List Value} {cells : Param → ObjRef} {bindings : Scope Binding}
variable {captures : List Param}

theorem writes_fetchCells_cons {capture : Param}
    (written : (bindings.fetchCells (capture :: captures)).Writes before () after) :
    ∃ binding middle, bindings.get? capture.name = some binding ∧ binding.boxed = true ∧
      binding.place.load.Writes before () middle ∧
      (bindings.fetchCells captures).Writes middle () after := by
  obtain ⟨_, middle, first, rest⟩ := Lower.writes_bind.mp written
  obtain ⟨binding, found, first⟩ := Lower.writes_lift_bind.mp first
  unfold Binding.fetchCell at first
  split at first
  · next isBoxed => exact ⟨binding, middle, Scope.lookup_eq_ok.mp found, isBoxed, first, rest⟩
  · exact (Lower.writes_throw first).elim

/-- Each captured variable that code finds has a cell. -/
theorem exists_cells {contents : Contents}
    (boxes : ∀ name binding, bindings.get? name = some binding → binding.boxed = true →
      ∃ cell, contents binding.place = some (.fixed (.ref cell)))
    (written : (bindings.fetchCells captures).Writes before () after) :
    ∃ cells, Closure.Cells contents bindings captures cells := by
  have each : ∀ capture ∈ captures, ∃ cell, ∃ binding, bindings.get? capture.name = some binding ∧
      binding.boxed = true ∧ contents binding.place = some (.fixed (.ref cell)) := by
    induction captures generalizing before with
    | nil => nofun
    | cons capture captures ih =>
        obtain ⟨binding, middle, found, isBoxed, -, rest⟩ := writes_fetchCells_cons written
        intro other isOther
        rcases List.mem_cons.mp isOther with rfl | isLater
        · obtain ⟨cell, isCell⟩ := boxes _ _ found isBoxed
          exact ⟨cell, binding, found, isBoxed, isCell⟩
        · exact ih rest other isLater
  have : Nonempty ObjRef := ⟨⟨0⟩⟩
  choose! cells isCell using each
  exact ⟨cells, isCell⟩

/-- The cells of captured variables are pushed. -/
theorem arrives_fetchCells (carries : now.frame.Carries linkage now.memory now.contents)
    (areCells : Closure.Cells now.contents bindings captures cells)
    (written : (bindings.fetchCells captures).Writes before () after)
    (placed : after.PlacedIn now.frame.body)
    (rest : Arrives linkage.image limit (now.config seat after.position
      ((captures.map fun capture => .ref (cells capture)).reverse ++ stack)) post) :
    Arrives linkage.image limit (now.config seat before.position stack) post := by
  induction captures generalizing before stack with
  | nil =>
      obtain ⟨-, rfl⟩ := Lower.writes_pure.mp written
      exact rest
  | cons capture captures ih =>
      obtain ⟨binding, middle, found, -, loads, later⟩ := writes_fetchCells_cons written
      obtain ⟨other, isOther, -, isCell⟩ := areCells capture List.mem_cons_self
      cases found.symm.trans isOther
      obtain ⟨_, has, rfl⟩ := carries.has _ _ isCell
      refine arrives_load has loads
        (placed.of_precedes (LowerContext.fetchCells_adds _ _ _ _ _ later)) ?_
      refine ih (List.forall_mem_cons.mp areCells).2 later ?_
      simpa using rest

/-- A function is made and pushed. -/
theorem arrives_lowerClosure (layout : closure.Layout linkage) (admits : linkage.Admits context)
    (carries : now.frame.Carries linkage now.memory now.contents)
    (boxes : ∀ name binding, bindings.get? name = some binding → binding.boxed = true →
      ∃ cell, now.contents binding.place = some (.fixed (.ref cell)))
    (written : (context.lowerClosure closure bindings).Writes before () after)
    (placed : after.PlacedIn now.frame.body)
    (rest : ∀ cells object heap, Closure.Cells now.contents bindings closure.captures cells →
      now.memory.store.heap.Retains heap → closure.MadeOf linkage heap object cells →
        Arrives linkage.image limit (seat.config now.frame after.position (.ref object :: stack)
          { now.memory.store with heap }) post) :
    Arrives linkage.image limit (now.config seat before.position stack) post := by
  obtain ⟨_, first, fetches, written⟩ := Lower.writes_bind.mp written
  obtain ⟨ctor, isCtor, written⟩ := Lower.writes_lift_bind.mp written
  have written := Lower.writes_emit_bind.mp written
  obtain ⟨invoke, isInvoke, written⟩ := Lower.writes_lift_bind.mp written
  have written := Lower.writes_emit_bind.mp written
  obtain ⟨delegate, last, found, written⟩ := Lower.writes_bind.mp written
  obtain ⟨definition, args, isFamily, same⟩ :=
    Ty.delegate_eq_generic closure.paramTypes closure.ret
  have isDelegate : closure.delegateType = .generic definition args := same
  rw [isDelegate] at found
  obtain ⟨rfl, type, isType, isDelegateCtor⟩ := admits.writes_delegateCtor isFamily found
  obtain rfl := Lower.writes_emit.mp written
  obtain rfl : ctor = layout.ctor :=
    Except.ok.inj ((admits.resolution.ctor isCtor).symm.trans layout.isCtor)
  obtain rfl : invoke = layout.invoke :=
    Except.ok.inj ((admits.resolution.method isInvoke).symm.trans layout.isInvoke)
  obtain ⟨cells, areCells⟩ := exists_cells boxes fetches
  have isPlaced := placed.before_emit.before_emit
  refine arrives_fetchCells carries areCells fetches isPlaced.before_emit ?_
  refine layout.arrives_newReceiver isPlaced.last fun target heap fields retains isTarget holds => ?_
  rw [← Emitter.position_emit _ (.newObject layout.ctor)]
  refine Seat.arrives_loadFunction placed.before_emit.last ?_
  rw [← Emitter.position_emit _ (.loadFunction layout.invoke)]
  refine Seat.arrives_newFunction linkage.built ⟨definition, args.length, isFamily, isType⟩
    placed.last isDelegateCtor (by simp) ?_
  rw [← Emitter.position_emit _ (.newObject delegate)]
  have keeps := Heap.retains_alloc heap
    (.delegate type (.ref target) layout.invoke)
  refine rest cells _ _ areCells (retains.trans keeps) ⟨layout, definition, args, type, _, fields,
    isDelegate, isType, Heap.get?_alloc_self _ _, keeps _ _ isTarget, holds⟩

end Situation

/-! ## Functions are entered -/

section Entered

variable {linkage : Linkage} {context : LowerContext} {closure : Closure} {limit : Nat}
variable {post : Config → Prop} {store : Store} {cells : Param → ObjRef} {object : ObjRef}
variable {world : World} {types : Scope SourceTy} {env : Scope Location}
variable {fields : Array Value} {bindings : Scope Binding}

/-- The call of a function starts a frame of the code behind it. -/
theorem Closure.MadeOf.arrives_begin (made : closure.MadeOf linkage store.heap object cells)
    {handle : MethodHandle} (invokes : linkage.Invokes closure.paramTypes closure.ret handle)
    {args : List Value} {levels : List Level} {room : Nat}
    (rest : ∀ (layout : closure.Layout linkage) target fields locals heap,
      store.heap.Retains heap → locals.length = layout.invokeBody.locals.size →
      heap.get? target = some (.instance layout.owner fields) →
      closure.Holds linkage fields cells closure.captures →
      Arrives linkage.image limit ⟨.execute (layout.invokeBody.frame (.ref target :: args) locals)
        false, levels, room, { store with heap }⟩ post) :
    Arrives linkage.image limit
      ⟨.begin (.method ⟨handle, .ref object :: args, true⟩), levels, room, store⟩ post := by
  obtain ⟨layout, definition, typeArgs, type, target, fields, isDelegate, isType, isObject, isTarget,
    holds⟩ := made.shape
  obtain ⟨_, _, _, result, same, isGeneric, isEntry, isInvoke, -⟩ := invokes
  cases isDelegate.symm.trans same
  cases isType.symm.trans isGeneric
  refine Seat.arrives_beginFunction linkage.built isType isEntry isInvoke isObject
    layout.isInvokeInfo layout.isInstance ?_
  obtain ⟨locals, heap, count, retains, ran⟩ := Frame.run_start linkage.image layout.invokeBody
    (.ref target :: args) store
  refine Seat.arrives_begin (Machine.begin_methodCode layout.isInvokeInfo layout.invokeIsCode
    (fun _ => rfl) ran) ?_
  exact rest layout target fields locals heap retains count (retains _ _ isTarget) holds

/-- What is known about the slots when the code of a function begins: the receiver and its
fields. -/
def Closure.contents (image : Image) (receiver : Value) (fields : Array Value) : Contents
  | .argument 0 => some (.fixed receiver)
  | .receiverField handle =>
      ((image.field? handle).bind fun field => fields[field.slot]?).map Content.fixed
  | _ => none

theorem Closure.Layout.carries_start (layout : closure.Layout linkage) {memory : Memory}
    {target : ObjRef} {args locals : List Value}
    (count : locals.length = layout.invokeBody.locals.size)
    (isTarget : memory.store.heap.get? target = some (.instance layout.owner fields)) :
    (layout.invokeBody.frame (.ref target :: args) locals).Carries linkage memory
      (Closure.contents linkage.image (.ref target) fields) where
  has place content known := by
    unfold Closure.contents at known
    split at known
    · cases known
      exact ⟨_, rfl, rfl⟩
    · next handle =>
        obtain ⟨value, found, rfl⟩ := Option.map_eq_some_iff.mp known
        obtain ⟨field, isField, isValue⟩ := Option.bind_eq_some_iff.mp found
        exact ⟨value, ⟨target, _, fields, field, rfl, isTarget, layout.ne_cell, isField, isValue⟩, rfl⟩
    · cases known
  apart place other location known := by
    unfold Closure.contents at known
    split at known
    · cases known
    · obtain ⟨value, -, same⟩ := Option.map_eq_some_iff.mp known
      cases same
    · cases known
  receiver handle content known := by
    obtain ⟨value, -, rfl⟩ := Option.map_eq_some_iff.mp known
    exact ⟨value, .ref target, rfl, rfl⟩
  locals := by simpa [Body.frame] using count

/-- A name that is known around the code gets a binding. -/
theorem Stands.bindKnown {contents : Contents} {binding : Binding} {location : Location}
    {name : Name} (stands : Stands world contents types env bindings)
    (typed : types.get? name = some binding.type) (located : env.get? name = some location)
    (kept : binding.KeptAt world contents location) :
    Stands world contents types env (bindings.bind name binding) := by
  intro other bound isBound
  rw [Scope.get?_bind] at isBound
  split at isBound
  · next same =>
      cases isBound
      exact ⟨same ▸ typed, location, same ▸ located, kept⟩
  · exact stands other bound isBound

/-- The names of captured variables stand for the cells in the fields. -/
theorem Closure.stands_bindFields (admits : linkage.Admits context) {receiver : Value}
    {captures : List Param} {result : Scope Binding}
    (typed : ∀ capture ∈ captures, types.get? capture.name = some capture.type)
    (captured : ∀ capture ∈ captures, ∃ location, env.get? capture.name = some location ∧
      world[location]? = some ⟨capture.type, some (cells capture)⟩)
    (holds : closure.Holds linkage fields cells captures)
    (stands : Stands world (Closure.contents linkage.image receiver fields) types env bindings)
    (done : context.bindFields closure captures bindings = .ok result) :
    Stands world (Closure.contents linkage.image receiver fields) types env result := by
  induction captures generalizing bindings with
  | nil =>
      cases done
      exact stands
  | cons capture captures ih =>
      obtain ⟨handle, isHandle, done⟩ := bind_eq_ok.mp done
      obtain ⟨handle', field, isHandle', isField, isCell⟩ := holds capture List.mem_cons_self
      obtain rfl : handle = handle' :=
        Except.ok.inj ((admits.resolution.field isHandle).symm.trans isHandle')
      obtain ⟨location, located, isStored⟩ := captured capture List.mem_cons_self
      have isPlace : Closure.contents linkage.image receiver fields (.receiverField handle) =
          some (.fixed (.ref (cells capture))) := by
        simp [Closure.contents, isField, isCell]
      refine ih (List.forall_mem_cons.mp typed).2
        (List.forall_mem_cons.mp captured).2
        (List.forall_mem_cons.mp holds).2 ?_ done
      exact stands.bindKnown (typed capture List.mem_cons_self) located
        ⟨fun _ => ⟨_, isStored, isPlace⟩, nofun⟩

end Entered

end ClassForge
