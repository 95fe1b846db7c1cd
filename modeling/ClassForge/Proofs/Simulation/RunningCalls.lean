import ClassForge.Proofs.Image.PlatformObjects
import ClassForge.Proofs.Simulation.RunningCode

/-!
# Running calls

What begins when code calls a member or makes an object.  A frame of a body always starts, and
leaves the objects that are there alone.  Making a cell or a function of the platform, and calling
such a function, takes a few transitions whose result is known.
-/

namespace ClassForge

variable {handle : MethodHandle} {value target : Value}

/-! ## Frames begin -/

namespace Heap

variable {default : RunTy → StateM Heap Value}

/-- Every object stays as it is. -/
def Retains (heap later : Heap) : Prop :=
  ∀ ref object, heap.get? ref = some object → later.get? ref = some object

theorem Retains.refl (heap : Heap) : heap.Retains heap :=
  fun _ _ => id

theorem Retains.trans {heap middle later : Heap} (early : heap.Retains middle)
    (late : middle.Retains later) : heap.Retains later :=
  fun ref object found => late ref object (early ref object found)

theorem retains_alloc (heap : Heap) (object : HeapObject) : heap.Retains (heap.alloc object).2 :=
  fun _ _ => Image.getElem?_push_of_eq_some

/-- Filling fields with their defaults leaves the objects that are there alone. -/
theorem fill_retains (retains : ∀ type (heap : Heap), heap.Retains ((default type).run heap).2)
    (fields : List FieldInfo) (slots : Array Value) (heap : Heap) :
    heap.Retains ((fields.foldlM (fun slots field => do
        let value ← default field.type
        return slots.setIfInBounds field.slot value) slots : StateM Heap _).run heap).2 := by
  induction fields generalizing slots heap with
  | nil => exact .refl heap
  | cons field fields ih => exact (retains field.type heap).trans (ih _ _)

theorem fill_size (fields : List FieldInfo) (slots : Array Value) (heap : Heap) :
    ((fields.foldlM (fun slots field => do
        let value ← default field.type
        return slots.setIfInBounds field.slot value) slots : StateM Heap _).run heap).1.size =
      slots.size := by
  induction fields generalizing slots heap with
  | nil => rfl
  | cons field fields ih => exact (ih _ _).trans Array.size_setIfInBounds

theorem defaultUpTo_retains (image : Image) (bound : Nat) (type : RunTy) (heap : Heap) :
    heap.Retains ((Exec.defaultUpTo image bound type).run heap).2 := by
  induction bound generalizing type heap with
  | zero =>
      unfold Exec.defaultUpTo
      split
      · exact .refl heap
      · contradiction
      · exact .refl heap
  | succ bound ih =>
      cases type with
      | declared handle =>
          rw [Exec.defaultUpTo]
          cases image.type? handle with
          | none => exact .refl heap
          | some info =>
              dsimp only
              split
              · exact (fill_retains ih _ _ heap).trans (retains_alloc _ _)
              · exact .refl heap
      | builtin builtin => cases builtin <;> exact .refl heap
      | _ => exact .refl heap

end Heap

/-- An object of a class can always be made. -/
theorem Exec.run_allocate {image : Image} {handle : TypeHandle} {info : TypeInfo}
    (isInfo : image.type? handle = some info) (complete : info.isComplete = true)
    (isClass : info.attrs.isValueType = false) (store : Store) :
    ∃ object fields heap,
      (Exec.allocate image handle).run store = .ok (.ref object) { store with heap } ∧
      store.heap.Retains heap ∧ store.heap.get? object = none ∧
      heap.get? object = some (.instance handle fields) ∧ fields.size = info.instanceSlots := by
  let fields := (image.lineage handle).flatMap fun info =>
    ((image.fieldsOf info).map (·.2)).filter fun field => !field.attrs.isStatic
  let filled := (fields.foldlM (fun slots field => do
      let value ← Exec.defaultUpTo image (image.types.size + 1) field.type
      return slots.setIfInBounds field.slot value)
    (Array.replicate info.instanceSlots Value.null) : StateM Heap _).run store.heap
  have retains : store.heap.Retains filled.2 :=
    Heap.fill_retains (fun type heap => Heap.defaultUpTo_retains image _ type heap) _ _ _
  have shared : image.isValueHandle handle = false := by
    simp [Image.isValueHandle, isInfo, isClass]
  have ran : (Exec.allocInstance image handle).run store = .ok ⟨filled.2.size⟩
      { store with heap := (filled.2.alloc (.instance handle filled.1)).2 } := by
    unfold Exec.allocInstance
    rw [Image.type_eq_ok.mpr isInfo]
    change EStateM.run (if info.isComplete then _ else _) store = _
    rw [if_pos complete]
    rfl
  refine ⟨⟨filled.2.size⟩, filled.1, _, ?_, retains.trans (Heap.retains_alloc _ _), ?_,
    by rw [Heap.get?_alloc, if_pos rfl], (Heap.fill_size _ _ _).trans Array.size_replicate⟩
  · unfold Exec.allocate
    rw [EStateM.run_bind, ran]
    dsimp only
    rw [shared]
    rfl
  · refine Option.eq_none_iff_forall_ne_some.mpr fun object found => ?_
    exact absurd (Heap.lt_size_of_get? (retains _ _ found)) (Nat.lt_irrefl _)

/-- The frame of a body with some locals, before its first instruction. -/
def Body.frame (body : Body) (args locals : List Value) : Frame where
  body := body
  args := args.toArray
  locals := locals.toArray
  stack := []
  position := 0
  pending := []

/-- A body always gets a frame. -/
theorem Frame.run_start (image : Image) (body : Body) (args : List Value) (store : Store) :
    ∃ locals heap, locals.length = body.locals.size ∧ store.heap.Retains heap ∧
      (Frame.start image body args).run store =
        .ok (body.frame args locals) { store with heap } := by
  have made : ∀ (decls : List LocalDecl) (store : Store), ∃ locals heap,
      locals.length = decls.length ∧ store.heap.Retains heap ∧
        (decls.mapM fun decl => Exec.defaultValue image decl.type).run store =
          .ok locals { store with heap } := by
    intro decls
    induction decls with
    | nil => exact fun store => ⟨[], store.heap, rfl, .refl _, rfl⟩
    | cons decl decls ih =>
        intro store
        obtain ⟨value, grown, first, early⟩ : ∃ value grown,
            (Exec.defaultValue image decl.type).run store = .ok value { store with heap := grown } ∧
              store.heap.Retains grown :=
          ⟨_, _, rfl, Heap.defaultUpTo_retains image _ decl.type store.heap⟩
        obtain ⟨locals, heap, count, retains, ran⟩ := ih { store with heap := grown }
        refine ⟨value :: locals, heap, congrArg Nat.succ count, early.trans retains, ?_⟩
        rw [List.mapM_cons, EStateM.run_bind, first]
        dsimp only
        rw [EStateM.run_bind, ran]
        rfl
  obtain ⟨locals, heap, count, retains, ran⟩ := made body.locals.toList store
  refine ⟨locals, heap, count.trans Array.length_toList, retains, ?_⟩
  unfold Frame.start
  rw [EStateM.run_bind, ran]
  rfl

namespace Machine

/-! ## Members begin -/

section Begin

variable {image : Image} {store later : Store} {args : List Value} {native : Native} {body : Body}

theorem begin_nativeCtor {handle : CtorHandle} {ctor : CtorInfo} {outcome : Native.Outcome}
    (isCtor : image.ctor? handle = some ctor) (isNative : ctor.implementation = .native native)
    (ran : (native.run image args).run store = .ok outcome later) :
    (begin image (.ctor handle args)).run store = .ok (.deliver .null) later := by
  have dropped : (discard (native.run image args) : Exec Unit).run store = .ok () later := by
    change EStateM.map (Function.const _ ()) (native.run image args) store = _
    rw [EStateM.map, show native.run image args store = _ from ran]
  change (beginCtor image handle args).run store = _
  unfold beginCtor
  rw [Image.ctor_eq_ok.mpr isCtor, EStateM.run_bind,
    show (Exec.ofImage (.ok ctor)).run store = .ok ctor store from rfl]
  dsimp only
  rw [isNative]
  dsimp only
  rw [EStateM.run_bind, dropped]
  rfl

theorem begin_ctorCode {handle : CtorHandle} {ctor : CtorInfo} {frame : Frame}
    (isCtor : image.ctor? handle = some ctor) (isCode : ctor.implementation = .code body)
    (ran : (Frame.start image body args).run store = .ok frame later) :
    (begin image (.ctor handle args)).run store = .ok (.execute frame true) later := by
  change (beginCtor image handle args).run store = _
  unfold beginCtor
  rw [Image.ctor_eq_ok.mpr isCtor, EStateM.run_bind,
    show (Exec.ofImage (.ok ctor)).run store = .ok ctor store from rfl]
  dsimp only
  rw [isCode]
  dsimp only
  rw [EStateM.run_bind, ran]
  rfl

theorem begin_methodCode {method : MethodInfo} {frame : Frame}
    (isMethod : image.method? handle = some method) (isCode : method.implementation = .code body)
    (hasReceiver : method.attrs.isStatic = false → args.head?.all Value.isNull = false)
    (ran : (Frame.start image body args).run store = .ok frame later) :
    (begin image (.method ⟨handle, args, false⟩)).run store = .ok (.execute frame false) later := by
  have allowed : (!method.attrs.isStatic && args.head?.all Value.isNull) = false := by
    cases isStatic : method.attrs.isStatic with
    | false => simp [hasReceiver isStatic]
    | true => rfl
  change (beginMethod image ⟨handle, args, false⟩).run store = _
  unfold beginMethod
  dsimp only
  rw [if_neg Bool.false_ne_true, pure_bind, Image.method_eq_ok.mpr isMethod]
  rw [EStateM.run_bind, show (Exec.ofImage (.ok method)).run store = .ok method store from rfl]
  dsimp only
  rw [allowed, if_neg Bool.false_ne_true, isCode]
  dsimp only
  rw [EStateM.run_bind, ran]
  rfl

/-- A static member of the platform is carried out at once. -/
theorem run_beginStatic {method : MethodInfo} (isMethod : image.method? handle = some method)
    (isStatic : method.attrs.isStatic = true) (isNative : method.implementation = .native native) :
    ∃ next : Native.Outcome → Exec Focus, (∀ value, next (.value value) = pure (.deliver value)) ∧
      (begin image (.method ⟨handle, args, false⟩)).run store =
        (native.run image args >>= next).run store := by
  refine ⟨?next, ?values, ?same⟩
  case same =>
    change (beginMethod image ⟨handle, args, false⟩).run store = _
    unfold beginMethod
    dsimp only
    rw [if_neg Bool.false_ne_true, pure_bind, Image.method_eq_ok.mpr isMethod]
    rw [EStateM.run_bind, show (Exec.ofImage (.ok method)).run store = .ok method store from rfl]
    dsimp only
    rw [isStatic, isNative]
    rfl
  case values => exact fun _ => rfl

end Begin

end Machine

/-! ## Objects of the platform -/

namespace Heap

variable {heap : Heap}

/-- An object that is changed as soon as it is made. -/
theorem alloc_modify (object : HeapObject) (change : HeapObject → HeapObject) :
    (heap.alloc object).2.modify ⟨heap.size⟩ change = (heap.alloc (change object)).2 := by
  unfold alloc modify size
  dsimp only
  congr 1
  ext index within
  · simp
  · rw [Array.getElem_modify]
    split
    · next same =>
        subst same
        rw [Array.getElem_push_eq, Array.getElem_push_eq]
    · next other =>
        rw [Array.size_modify, Array.size_push] at within
        rw [Array.getElem_push_lt (by omega), Array.getElem_push_lt (by omega)]

theorem get?_alloc_self (heap : Heap) (object : HeapObject) :
    (heap.alloc object).2.get? ⟨heap.size⟩ = some object := by
  rw [get?_alloc, if_pos rfl]

end Heap

namespace Image

variable {image : Image}

/-- The type of the cells of an image. -/
def IsCell (image : Image) (cell : TypeHandle) : Prop :=
  image.generic? Platform.cell 1 = some cell

/-- The type of functions with a number of type arguments. -/
def IsFunction (image : Image) (type : TypeHandle) : Prop :=
  ∃ definition arity, (definition = Platform.func ∨ definition = Platform.action) ∧
    image.generic? definition arity = some type

/-- The entry of the method that function types have. -/
def invokeInfo (type : TypeHandle) (count : Nat) (ret : RunTy) : MethodInfo where
  owner := type
  name := "Invoke"
  attrs := .publicVirtual
  params := List.replicate count .object
  ret := ret
  implementation := .native .delegateInvoke

theorem IsFunction.entry {definition : Name} (isFamily : definition = Platform.func ∨
    definition = Platform.action) (arity : Nat) :
    ∃ params ret, Library.generic? (.generic definition arity) =
      some (Library.delegate definition arity params ret) := by
  rcases isFamily with rfl | rfl
  · exact ⟨_, _, rfl⟩
  · exact ⟨_, _, rfl⟩

end Image

namespace Native

variable {image : Image} {store : Store} {object : ObjRef} {type : TypeHandle} {fields : Array Value}
variable {method : MethodHandle}

theorem run_arg {args : List Value} (index : Nat) (isArg : args[index]? = some value) :
    (arg args index).run store = .ok value store := by
  unfold arg
  rw [isArg]
  rfl

theorem run_cellCtor (isObject : store.heap.get? object = some (.instance type fields))
    (filled : fields.isEmpty = false) (own : ∀ ref, value ≠ .struct ref) :
    (run image .cellCtor [.ref object, value]).run store =
      .ok (.value .null) { store with heap := store.heap.setField object 0 value } := by
  have isContent : store.heap.deref? (.ref object) = some (.instance type fields) := isObject
  change (Exec.copy value >>= fun content => _).run store = _
  rw [EStateM.run_bind, Exec.run_copy_own own]
  dsimp only
  rw [EStateM.run_bind, show Exec.heap.run store = .ok store.heap store from rfl]
  dsimp only
  rw [isContent, show (Value.ref object).object? = some object from rfl]
  dsimp only
  rw [filled]
  rfl

theorem run_delegateCtor (isObject : store.heap.get? object = some (.instance type fields)) :
    (run image .delegateCtor [.ref object, target, .method method]).run store =
      .ok (.value .null) { store with
        heap := store.heap.modify object fun _ => .delegate type target method } := by
  have isContent : store.heap.deref? (.ref object) = some (.instance type fields) := isObject
  unfold run
  rw [EStateM.run_bind, run_arg 0 rfl]
  dsimp only
  rw [EStateM.run_bind, run_arg 1 rfl]
  dsimp only
  rw [EStateM.run_bind, run_arg 2 rfl]
  dsimp only
  rw [EStateM.run_bind, show Exec.heap.run store = .ok store.heap store from rfl]
  dsimp only
  rw [isContent]
  rfl

/-- A function calls its method with its receiver. -/
theorem run_delegateInvoke {info : MethodInfo} {args : List Value}
    (isObject : store.heap.get? object = some (.delegate type target method))
    (isMethod : image.method? method = some info) (isInstance : info.attrs.isStatic = false) :
    (run image .delegateInvoke (.ref object :: args)).run store =
      .ok (.call method (target :: args)) store := by
  have isContent : store.heap.deref? (.ref object) = some (.delegate type target method) := isObject
  unfold run
  rw [EStateM.run_bind, show Exec.heap.run store = .ok store.heap store from rfl]
  dsimp only
  rw [EStateM.run_bind, run_arg 0 rfl]
  dsimp only
  rw [isContent]
  dsimp only
  rw [Image.method_eq_ok.mpr isMethod]
  change EStateM.run (pure (Outcome.call method (if info.attrs.isStatic then _ else _))) store = _
  rw [isInstance]
  rfl

end Native

namespace Machine

namespace Seat

variable {image : Image} {limit : Nat} {post : Config → Prop} {seat : Seat} {frame : Frame}
variable {position : Nat} {rest : List Value} {store : Store} {ctor : CtorHandle}
variable {cell type : TypeHandle}
variable {method : MethodHandle}

/-- A cell is made with a value in it. -/
theorem arrives_newCell (built : image.Built) (isCell : image.IsCell cell)
    (isInstr : frame.body.instrs[position]? = some (.newObject ctor))
    (isCtor : image.ctor? ctor = some ⟨cell, [.object], .native .cellCtor⟩)
    (own : ∀ ref, value ≠ .struct ref)
    (arrives : Arrives image limit (seat.config frame (position + 1) (.ref ⟨store.heap.size⟩ :: rest)
      { store with heap := (store.heap.alloc (.instance cell #[value])).2 }) post) :
    Arrives image limit (seat.config frame position (value :: rest) store) post := by
  obtain ⟨info, isInfo, -, installed⟩ := built.installed isCell rfl
  have allocated := built.allocate_installed isInfo installed rfl (by simp [Library.cell]) store
  refine @arrives_newObject image limit post seat frame position rest store _ _ [value] ctor _
    isInstr isCtor rfl (by simpa using own) allocated fun room isRoom => ?_
  refine arrives_begin (begin_nativeCtor isCtor rfl
    (Native.run_cellCtor (Heap.get?_alloc_self _ _) rfl own)) ?_
  refine arrives_deliver isRoom ?_
  dsimp only
  rw [Heap.setField, Heap.alloc_modify]
  exact arrives

/-- A cell is made without a value in it. -/
theorem arrives_newCellEmpty (built : image.Built) (isCell : image.IsCell cell)
    (isInstr : frame.body.instrs[position]? = some (.newObject ctor))
    (isCtor : image.ctor? ctor = some ⟨cell, [], .native .cellCtorEmpty⟩)
    (arrives : Arrives image limit (seat.config frame (position + 1) (.ref ⟨store.heap.size⟩ :: rest)
      { store with heap := (store.heap.alloc (.instance cell #[.null])).2 }) post) :
    Arrives image limit (seat.config frame position rest store) post := by
  obtain ⟨info, isInfo, -, installed⟩ := built.installed isCell rfl
  have allocated := built.allocate_installed isInfo installed rfl (by simp [Library.cell]) store
  refine @arrives_newObject image limit post seat frame position rest store _ _ [] ctor _
    isInstr isCtor rfl (by simp) allocated fun room isRoom => ?_
  refine arrives_begin (begin_nativeCtor isCtor rfl rfl) ?_
  exact arrives_deliver isRoom arrives

/-- A function is made of a method and a receiver for it. -/
theorem arrives_newFunction (built : image.Built)
    (isFunction : image.IsFunction type)
    (isInstr : frame.body.instrs[position]? = some (.newObject ctor))
    (isCtor : image.ctor? ctor = some ⟨type, [.object, .intPtr], .native .delegateCtor⟩)
    (own : ∀ ref, target ≠ .struct ref)
    (arrives : Arrives image limit (seat.config frame (position + 1) (.ref ⟨store.heap.size⟩ :: rest)
      { store with heap := (store.heap.alloc (.delegate type target method)).2 }) post) :
    Arrives image limit (seat.config frame position (.method method :: target :: rest) store) post := by
  obtain ⟨definition, arity, isFamily, found⟩ := isFunction
  obtain ⟨params, ret, isEntry⟩ := Image.IsFunction.entry isFamily arity
  obtain ⟨info, isInfo, -, installed⟩ := built.installed found isEntry
  have allocated := built.allocate_installed isInfo installed rfl (by simp [Library.delegate]) store
  refine @arrives_newObject image limit post seat frame position rest store _ _
    [target, .method method] ctor _ isInstr isCtor rfl (by simpa using own) allocated
    fun room isRoom => ?_
  refine arrives_begin (begin_nativeCtor isCtor rfl
    (Native.run_delegateCtor (Heap.get?_alloc_self _ _))) ?_
  refine arrives_deliver isRoom ?_
  dsimp only
  rw [Heap.alloc_modify]
  exact arrives

/-- The call of a function begins the method that the function was made of. -/
theorem arrives_beginFunction {levels : List Level} {room count arity : Nat} {object : ObjRef}
    {info : MethodInfo} {args : List Value}
    {definition : Name} {ret : RunTy} (built : image.Built)
    (found : image.generic? definition arity = some type)
    (isEntry : Library.generic? (.generic definition arity) =
      some (Library.delegate definition arity count ret))
    (isInvoke : image.method? handle = some (Image.invokeInfo type count ret))
    (isObject : store.heap.get? object = some (.delegate type target method))
    (isMethod : image.method? method = some info) (isInstance : info.attrs.isStatic = false)
    (arrives : Arrives image limit
      ⟨.begin (.method ⟨method, target :: args, false⟩), levels, room, store⟩ post) :
    Arrives image limit ⟨.begin (.method ⟨handle, .ref object :: args, true⟩), levels, room, store⟩
      post := by
  obtain ⟨typeInfo, isType, -, installed⟩ := built.installed found isEntry
  obtain ⟨root, isLineage, -⟩ := built.lineage_installed isType installed
  obtain ⟨selected, isListed, isSelected⟩ := List.map_eq_singleton_iff.mp installed.methods
  have overrides : overriding? image type (Image.invokeInfo type count ret) =
      some (selected, Image.invokeInfo type count ret) := by
    simp [overriding?, isLineage, Image.methodsOf, isListed, isSelected, Image.invokeInfo,
      MethodAttrs.publicVirtual]
  have ofType : Store.typeOf? image store.heap (.ref object) = some type := by
    simp [Store.typeOf?, isObject]
  have dispatched : (dispatch image handle (.ref object :: args)).run store = .ok selected store := by
    rw [run_dispatch isInvoke rfl rfl ofType, overrides]
  refine arrives_begin ?_ arrives
  change (beginMethod image ⟨handle, .ref object :: args, true⟩).run store = _
  unfold beginMethod
  dsimp only
  rw [if_pos rfl, EStateM.run_bind, dispatched]
  dsimp only
  rw [Image.method_eq_ok.mpr isSelected]
  change EStateM.run (Native.run image .delegateInvoke (.ref object :: args) >>= fun outcome => _)
    store = _
  rw [EStateM.run_bind, Native.run_delegateInvoke isObject isMethod isInstance]
  rfl

end Seat

end Machine

end ClassForge
