import ClassForge.Proofs.Machine.StaticCalls

/-!
# Running code

A run of generated code is followed from one place in the code to another one.  It arrives there,
or it is cut off on the way because no more levels can be opened.  Each instruction has a lemma
that says what is left to show after it.
-/

namespace ClassForge

open FrameStep

/-- The stack of a frame that gets a value. -/
def OnReturn.onto (onReturn : OnReturn) (value : Value) (stack : List Value) : List Value :=
  match onReturn with
  | .push => value :: stack
  | .drop => stack
  | .object made => made :: stack

/-- No local of a body holds arrays in place. -/
def Body.Unpinned (body : Body) : Prop :=
  ∀ decl ∈ body.locals, decl.pinned = false

/-- Leaving a body without pinned locals releases nothing. -/
theorem Body.Unpinned.releasePins {frame : Frame} (unpinned : frame.body.Unpinned) (store : Store) :
    store.releasePins frame = store := by
  have keeps : ∀ (pairs : List (LocalDecl × Value)) (heap : Heap),
      (∀ pair ∈ pairs, pair.1.pinned = false) →
        pairs.foldl (fun heap pair => if pair.1.pinned then Memory.unpin heap pair.2 else heap) heap =
          heap := by
    intro pairs heap none
    induction pairs with
    | nil => rfl
    | cons pair pairs ih =>
        rw [List.foldl_cons, none pair List.mem_cons_self]
        exact ih (List.forall_mem_cons.mp none).2
  have same : frame.releasePins store.heap = store.heap :=
    keeps _ _ fun pair isPair => unpinned _ (Array.mem_toList_iff.mp (List.of_mem_zip isPair).1)
  rw [Store.releasePins, same]

theorem Body.Unpinned.slot {body : Body} (unpinned : body.Unpinned) (slot : Nat) :
    (body.locals[slot]?).any LocalDecl.pinned = false := by
  cases found : body.locals[slot]? with
  | none => rfl
  | some decl => exact unpinned decl (Array.mem_of_getElem? found)

namespace Machine

variable {image : Image} {limit : Nat} {post : Config → Prop}

/-! ## Arriving -/

/-- A run gets to a configuration as described, unless it is cut off. -/
def Arrives (image : Image) (limit : Nat) (config : Config) (post : Config → Prop) : Prop :=
  (∃ next, Reaches image limit config next ∧ post next) ∨ CutOff image limit config

namespace Arrives

variable {config next : Config}

theorem here (holds : post config) : Arrives image limit config post :=
  .inl ⟨config, .refl, holds⟩

theorem step (isNext : Machine.step image limit config = .running next)
    (arrives : Arrives image limit next post) : Arrives image limit config post :=
  arrives.imp (fun ⟨last, reaches, holds⟩ => ⟨last, .head isNext reaches, holds⟩) (.head isNext)

theorem cutOff {store : Store}
    (isLast : Machine.step image limit config = .finished (.error (.stackOverflow limit)) store) :
    Arrives image limit config post :=
  .inr ⟨store, config, .refl, isLast⟩

end Arrives

/-! ## Instructions -/

/-- Where a frame runs: on top of levels that wait, with room for more. -/
structure Seat where
  isCtor : Bool
  levels : List Level
  room : Nat

namespace Seat

variable {seat : Seat} {frame after : Frame} {position target : Nat} {stack rest : List Value}
variable {store later : Store} {instr : Instr}

/-- A frame that is about to execute the instruction at a position. -/
def config (seat : Seat) (frame : Frame) (position : Nat) (stack : List Value) (store : Store) :
    Config :=
  ⟨.execute { frame with position, stack } seat.isCtor, seat.levels, seat.room, store⟩

/-- What an instruction does that leads on to another one. -/
theorem step_next (isInstr : frame.body.instrs[position]? = some instr)
    (ran : ((execute image position instr).run { frame with position := position + 1, stack }).run
      store = .ok (.next, { after with position := target, stack := rest }) later) :
    Machine.step image limit (seat.config frame position stack store) =
      .running (seat.config after target rest later) := by
  unfold Machine.step config
  dsimp only
  rw [isInstr]
  dsimp only
  rw [ran]
  rfl

theorem arrives_next (isInstr : frame.body.instrs[position]? = some instr)
    (ran : ((execute image position instr).run { frame with position := position + 1, stack }).run
      store = .ok (.next, { after with position := target, stack := rest }) later)
    (arrives : Arrives image limit (seat.config after target rest later) post) :
    Arrives image limit (seat.config frame position stack store) post :=
  .step (step_next isInstr ran) arrives

/-- The value on top of the stack is taken off. -/
theorem run_frame (frame : Frame) (store : Store) :
    ((get : FrameStep Frame).run frame).run store = .ok (frame, frame) store :=
  rfl

theorem pop_top (frame : Frame) (position : Nat) (value : Value) (stack : List Value)
    (store : Store) :
    (pop.run { frame with position, stack := value :: stack }).run store =
      .ok (value, { frame with position, stack }) store :=
  rfl

section Stack

variable {value left right result : Value}

theorem arrives_const {constant : Constant}
    (isInstr : frame.body.instrs[position]? = some (.const constant))
    (arrives : Arrives image limit
      (seat.config frame (position + 1) (FrameStep.constant constant :: stack) store) post) :
    Arrives image limit (seat.config frame position stack store) post :=
  arrives_next isInstr rfl arrives

theorem arrives_pop (isInstr : frame.body.instrs[position]? = some .pop)
    (arrives : Arrives image limit (seat.config frame (position + 1) stack store) post) :
    Arrives image limit (seat.config frame position (value :: stack) store) post :=
  arrives_next isInstr rfl arrives

theorem arrives_dup (isInstr : frame.body.instrs[position]? = some .dup)
    (arrives : Arrives image limit
      (seat.config frame (position + 1) (value :: value :: stack) store) post) :
    Arrives image limit (seat.config frame position (value :: stack) store) post :=
  arrives_next isInstr rfl arrives

theorem arrives_loadFunction {method : MethodHandle}
    (isInstr : frame.body.instrs[position]? = some (.loadFunction method))
    (arrives : Arrives image limit
      (seat.config frame (position + 1) (.method method :: stack) store) post) :
    Arrives image limit (seat.config frame position stack store) post :=
  arrives_next isInstr rfl arrives

/-- An instruction that replaces the value on top of the stack. -/
theorem arrives_mapTop {action : Value → Exec Value}
    (isInstr : frame.body.instrs[position]? = some instr)
    (isMap : execute image position instr = mapTop action)
    (ran : (action value).run store = .ok result later)
    (arrives : Arrives image limit (seat.config frame (position + 1) (result :: stack) later) post) :
    Arrives image limit (seat.config frame position (value :: stack) store) post := by
  refine arrives_next isInstr ?_ arrives
  rw [isMap]
  unfold mapTop
  rw [FrameStep.run_bind (pop_top frame (position + 1) value stack store),
    FrameStep.run_bind (run_lift ran)]
  rfl

/-- An instruction that replaces the two values on top of the stack. -/
theorem arrives_mapTop₂ {action : Value → Value → Exec Value}
    (isInstr : frame.body.instrs[position]? = some instr)
    (isMap : execute image position instr = mapTop₂ action)
    (ran : (action left right).run store = .ok result later)
    (arrives : Arrives image limit (seat.config frame (position + 1) (result :: stack) later) post) :
    Arrives image limit (seat.config frame position (right :: left :: stack) store) post := by
  refine arrives_next isInstr ?_ arrives
  rw [isMap]
  unfold mapTop₂
  rw [FrameStep.run_bind (pop_top frame (position + 1) right (left :: stack) store),
    FrameStep.run_bind (pop_top frame (position + 1) left stack store),
    FrameStep.run_bind (run_lift ran)]
  rfl

theorem arrives_neg (isInstr : frame.body.instrs[position]? = some .neg)
    (computes : Arith.neg value = .ok result)
    (arrives : Arrives image limit (seat.config frame (position + 1) (result :: stack) store) post) :
    Arrives image limit (seat.config frame position (value :: stack) store) post := by
  refine arrives_mapTop isInstr rfl ?_ arrives
  rw [computes]
  rfl

theorem arrives_not (isInstr : frame.body.instrs[position]? = some .not)
    (computes : Arith.not value = .ok result)
    (arrives : Arrives image limit (seat.config frame (position + 1) (result :: stack) store) post) :
    Arrives image limit (seat.config frame position (value :: stack) store) post := by
  refine arrives_mapTop isInstr rfl ?_ arrives
  rw [computes]
  rfl

theorem arrives_arith {op : ArithOp} (isInstr : frame.body.instrs[position]? = some (.arith op))
    (computes : Arith.binary op left right = .ok result)
    (arrives : Arrives image limit (seat.config frame (position + 1) (result :: stack) store) post) :
    Arrives image limit (seat.config frame position (right :: left :: stack) store) post := by
  refine arrives_mapTop₂ isInstr rfl ?_ arrives
  rw [computes]
  rfl

theorem arrives_compare {op : CompareOp} {holds : Bool}
    (isInstr : frame.body.instrs[position]? = some (.compare op))
    (computes : Arith.compare op left right = .ok holds)
    (arrives : Arrives image limit
      (seat.config frame (position + 1) (.ofBool holds :: stack) store) post) :
    Arrives image limit (seat.config frame position (right :: left :: stack) store) post := by
  refine arrives_mapTop₂ isInstr rfl ?_ arrives
  rw [computes]
  rfl

end Stack

section Branches

variable {label : Label} {value : Value}

theorem run_branch (isTarget : frame.body.target? label = some target) (position : Nat)
    (stack : List Value) (store : Store) :
    ((branch label).run { frame with position, stack }).run store =
      .ok ((), { frame with position := target, stack }) store := by
  unfold branch
  change ((liftM (Exec.require (frame.body.target? label) _) >>= jump : FrameStep Unit).run
    { frame with position, stack }).run store = _
  rw [isTarget]
  rfl

theorem arrives_branch (isInstr : frame.body.instrs[position]? = some (.branch label))
    (isTarget : frame.body.target? label = some target)
    (arrives : Arrives image limit (seat.config frame target stack store) post) :
    Arrives image limit (seat.config frame position stack store) post := by
  refine arrives_next isInstr ?_ arrives
  change ((branch label >>= fun _ => pure Flow.next : FrameStep Flow).run _).run store = _
  rw [FrameStep.run_bind (run_branch isTarget _ _ _)]
  rfl

/-- A conditional branch that goes to its label. -/
theorem run_branchIf (isTarget : frame.body.target? label = some target) (position : Nat)
    (stack : List Value) (store : Store) :
    ((do
      if true then branch label
      return Flow.next : FrameStep Flow).run { frame with position, stack }).run store =
      .ok (.next, { frame with position := target, stack }) store := by
  change ((branch label >>= fun _ => pure Flow.next : FrameStep Flow).run _).run store = _
  rw [FrameStep.run_bind (run_branch isTarget _ _ _)]
  rfl

theorem arrives_branchTrue (isInstr : frame.body.instrs[position]? = some (.branchTrue label))
    (isTarget : frame.body.target? label = some target)
    (arrives : Arrives image limit
      (seat.config frame (if value.isTruthy then target else position + 1) stack store) post) :
    Arrives image limit (seat.config frame position (value :: stack) store) post := by
  refine arrives_next isInstr ?_ arrives
  change ((pop >>= fun value => do
    if value.isTruthy then branch label
    return Flow.next : FrameStep Flow).run _).run store = _
  rw [FrameStep.run_bind (pop_top _ _ _ _ _)]
  dsimp only
  cases value.isTruthy with
  | true => exact run_branchIf isTarget _ _ _
  | false => rfl

theorem arrives_branchFalse (isInstr : frame.body.instrs[position]? = some (.branchFalse label))
    (isTarget : frame.body.target? label = some target)
    (arrives : Arrives image limit
      (seat.config frame (if value.isTruthy then position + 1 else target) stack store) post) :
    Arrives image limit (seat.config frame position (value :: stack) store) post := by
  refine arrives_next isInstr ?_ arrives
  change ((pop >>= fun value => do
    if !value.isTruthy then branch label
    return Flow.next : FrameStep Flow).run _).run store = _
  rw [FrameStep.run_bind (pop_top _ _ _ _ _)]
  dsimp only
  cases value.isTruthy with
  | true => rfl
  | false => exact run_branchIf isTarget _ _ _

theorem run_selector (selector : Int32) (store : Store) :
    (Exec.require (Value.int32 selector).int32? .switchSelector).run store =
      .ok selector store :=
  rfl

/-- A selector that has an entry in the jump table goes there. -/
theorem arrives_switch {labels : List Label} {selector : Int32}
    (isInstr : frame.body.instrs[position]? = some (.switch labels))
    (isLabel : labels[selector.toUInt32.toNat]? = some label)
    (isTarget : frame.body.target? label = some target)
    (arrives : Arrives image limit (seat.config frame target stack store) post) :
    Arrives image limit (seat.config frame position (.int32 selector :: stack) store) post := by
  refine arrives_next isInstr ?_ arrives
  unfold FrameStep.execute
  rw [FrameStep.run_bind (pop_top _ _ _ _ _), FrameStep.run_bind (run_lift (run_selector _ _))]
  dsimp only
  rw [isLabel]
  exact run_branchIf isTarget _ _ _

/-- A selector beyond the jump table goes to the next instruction. -/
theorem arrives_switch_beyond {labels : List Label} {selector : Int32}
    (isInstr : frame.body.instrs[position]? = some (.switch labels))
    (beyond : labels[selector.toUInt32.toNat]? = none)
    (arrives : Arrives image limit (seat.config frame (position + 1) stack store) post) :
    Arrives image limit (seat.config frame position (.int32 selector :: stack) store) post := by
  refine arrives_next isInstr ?_ arrives
  unfold FrameStep.execute
  rw [FrameStep.run_bind (pop_top _ _ _ _ _), FrameStep.run_bind (run_lift (run_selector _ _))]
  dsimp only
  rw [beyond]
  rfl

end Branches

section Variables

variable {slot : Nat} {value : Value}

theorem arrives_loadArg (isInstr : frame.body.instrs[position]? = some (.loadArg slot))
    (holds : frame.args[slot]? = some value)
    (arrives : Arrives image limit (seat.config frame (position + 1) (value :: stack) store) post) :
    Arrives image limit (seat.config frame position stack store) post := by
  refine arrives_next isInstr ?_ arrives
  change ((liftM (Exec.require frame.args[slot]? _) >>= fun value =>
    push value >>= fun _ => pure Flow.next : FrameStep Flow).run
      { frame with position := position + 1, stack }).run store = _
  rw [holds]
  rfl

theorem arrives_loadLocal (isInstr : frame.body.instrs[position]? = some (.loadLocal slot))
    (holds : frame.locals[slot]? = some value)
    (arrives : Arrives image limit (seat.config frame (position + 1) (value :: stack) store) post) :
    Arrives image limit (seat.config frame position stack store) post := by
  refine arrives_next isInstr ?_ arrives
  change ((liftM (Exec.require frame.locals[slot]? _) >>= fun value =>
    push value >>= fun _ => pure Flow.next : FrameStep Flow).run
      { frame with position := position + 1, stack }).run store = _
  rw [holds]
  rfl

/-- A local that is not pinned is only assigned. -/
theorem arrives_storeLocal (isInstr : frame.body.instrs[position]? = some (.storeLocal slot))
    (within : slot < frame.locals.size)
    (unpinned : (frame.body.locals[slot]?).any LocalDecl.pinned = false)
    (own : ∀ ref, value ≠ .struct ref)
    (arrives : Arrives image limit
      (seat.config { frame with locals := frame.locals.setIfInBounds slot value } (position + 1)
        stack store) post) :
    Arrives image limit (seat.config frame position (value :: stack) store) post := by
  refine arrives_next isInstr ?_ arrives
  have stored : ((storeLocal slot value).run
      { frame with position := position + 1, stack }).run store = .ok ((),
        { frame with
          locals := frame.locals.setIfInBounds slot value, position := position + 1, stack })
        store := by
    unfold storeLocal
    rw [FrameStep.run_bind (run_lift (Exec.run_copy_own own)), FrameStep.run_bind (run_frame _ _)]
    dsimp only
    rw [Array.getElem?_eq_getElem within]
    dsimp only
    rw [if_neg (by simp [unpinned])]
    rfl
  change ((pop >>= fun value => storeLocal slot value >>= fun _ => pure Flow.next :
    FrameStep Flow).run _).run store = _
  rw [FrameStep.run_bind (pop_top _ _ _ _ _), FrameStep.run_bind stored]
  rfl

theorem arrives_storeArg (isInstr : frame.body.instrs[position]? = some (.storeArg slot))
    (within : slot < frame.args.size) (own : ∀ ref, value ≠ .struct ref)
    (arrives : Arrives image limit
      (seat.config { frame with args := frame.args.setIfInBounds slot value } (position + 1)
        stack store) post) :
    Arrives image limit (seat.config frame position (value :: stack) store) post := by
  refine arrives_next isInstr ?_ arrives
  have stored : ((storeArg slot value).run
      { frame with position := position + 1, stack }).run store = .ok ((),
        { frame with
          args := frame.args.setIfInBounds slot value, position := position + 1, stack })
        store := by
    unfold storeArg
    rw [FrameStep.run_bind (run_lift (Exec.run_copy_own own))]
    change ((if slot < frame.args.size then _ else _ : FrameStep Unit).run _).run store = _
    rw [if_pos within]
    rfl
  change ((pop >>= fun value => storeArg slot value >>= fun _ => pure Flow.next :
    FrameStep Flow).run _).run store = _
  rw [FrameStep.run_bind (pop_top _ _ _ _ _), FrameStep.run_bind stored]
  rfl

variable {field : FieldHandle} {info : FieldInfo} {object : ObjRef} {type : TypeHandle}
variable {fields : Array Value}

theorem run_instanceOperand {receiver : Value} (isReceiver : receiver.object? = some object)
    (isObject : store.heap.get? object = some (.instance type fields)) :
    (instanceOperand image receiver).run store = .ok (object, fields) store := by
  have notNull : receiver.isNull = false := by
    cases receiver with
    | null => cases isReceiver
    | _ => rfl
  have isContent : store.heap.deref? receiver = some (.instance type fields) := by
    rw [Heap.deref?, isReceiver]
    exact isObject
  unfold instanceOperand
  rw [notNull, if_neg Bool.false_ne_true, EStateM.run_bind,
    show Exec.heap.run store = .ok store.heap store from rfl]
  dsimp only
  rw [isContent, isReceiver]
  rfl

theorem run_loadField {receiver : Value} (isField : image.field? field = some info)
    (isReceiver : receiver.object? = some object)
    (isObject : store.heap.get? object = some (.instance type fields)) :
    (loadField image field receiver).run store =
      (Exec.require fields[info.slot]? .fieldSlot).run store := by
  unfold loadField Image.field
  rw [isField]
  change (instanceOperand image receiver >>= fun operand =>
    Exec.require operand.2[info.slot]? .fieldSlot).run store = _
  rw [EStateM.run_bind, run_instanceOperand isReceiver isObject]

/-- A field gets a copy of the value. -/
theorem run_storeField {receiver copy : Value} {later : Store}
    (isField : image.field? field = some info) (isReceiver : receiver.object? = some object)
    (copied : (Exec.copy value).run store = .ok copy later)
    (isObject : later.heap.get? object = some (.instance type fields)) :
    (storeField image field receiver value).run store =
      (if info.slot < fields.size then
        Exec.modifyHeap fun heap => heap.setField object info.slot copy
      else Exec.malformed .fieldSlot : Exec Unit).run later := by
  unfold storeField Image.field
  rw [isField]
  change (Exec.copy value >>= fun value => instanceOperand image receiver >>= fun operand =>
    if info.slot < operand.2.size then
      Exec.modifyHeap fun heap => heap.setField operand.1 info.slot value
    else Exec.malformed .fieldSlot).run store = _
  rw [EStateM.run_bind, copied]
  dsimp only
  rw [EStateM.run_bind, run_instanceOperand isReceiver isObject]

theorem arrives_loadField (isInstr : frame.body.instrs[position]? = some (.loadField field))
    (isField : image.field? field = some info)
    (isObject : store.heap.get? object = some (.instance type fields))
    (holds : fields[info.slot]? = some value)
    (arrives : Arrives image limit (seat.config frame (position + 1) (value :: stack) store) post) :
    Arrives image limit (seat.config frame position (.ref object :: stack) store) post := by
  refine arrives_mapTop isInstr rfl ?_ arrives
  rw [run_loadField isField rfl isObject, holds]
  rfl

theorem arrives_storeField (isInstr : frame.body.instrs[position]? = some (.storeField field))
    (isField : image.field? field = some info)
    (isObject : store.heap.get? object = some (.instance type fields))
    (within : info.slot < fields.size) (own : ∀ ref, value ≠ .struct ref)
    (arrives : Arrives image limit (seat.config frame (position + 1) stack
      { store with heap := store.heap.setField object info.slot value }) post) :
    Arrives image limit (seat.config frame position (value :: .ref object :: stack) store) post := by
  refine arrives_next isInstr ?_ arrives
  have stored : (storeField image field (.ref object) value).run store =
      .ok () { store with heap := store.heap.setField object info.slot value } := by
    rw [run_storeField isField rfl (Exec.run_copy_own own) isObject, if_pos within]
    rfl
  change ((pop >>= fun value => pop >>= fun object =>
    liftM (storeField image field object value) >>= fun _ => pure Flow.next :
      FrameStep Flow).run _).run store = _
  rw [FrameStep.run_bind (pop_top _ _ _ _ _), FrameStep.run_bind (pop_top _ _ _ _ _),
    FrameStep.run_bind (run_lift stored)]
  rfl

end Variables

/-! ## Calls -/

section Calls

variable {value : Value} {request : Request} {onReturn : OnReturn}
variable {room : Nat} {levels : List Level}

/-- The level on which a frame waits for what it has called. -/
def waiting (seat : Seat) (frame : Frame) (position : Nat) (stack : List Value)
    (onReturn : OnReturn) : Level :=
  .caller { frame with position, stack } seat.isCtor onReturn

/-- An instruction that calls something asks for a level for it. -/
theorem step_enter (isInstr : frame.body.instrs[position]? = some instr)
    (ran : ((execute image position instr).run { frame with position := position + 1, stack }).run
      store = .ok (.enter request onReturn,
        { frame with position := position + 1, stack := rest }) later) :
    Machine.step image limit (seat.config frame position stack store) =
      enter limit request (seat.waiting frame (position + 1) rest onReturn :: seat.levels) seat.room
        later := by
  unfold Machine.step config
  dsimp only
  rw [isInstr]
  dsimp only
  rw [ran]
  rfl

/-- An instruction that calls something begins it one level up, if there is room. -/
theorem arrives_enter (isInstr : frame.body.instrs[position]? = some instr)
    (ran : ((execute image position instr).run { frame with position := position + 1, stack }).run
      store = .ok (.enter request onReturn,
        { frame with position := position + 1, stack := rest }) later)
    (arrives : ∀ room, seat.room = room + 1 → Arrives image limit
      ⟨.begin request, seat.waiting frame (position + 1) rest onReturn :: seat.levels, room, later⟩
      post) :
    Arrives image limit (seat.config frame position stack store) post := by
  have goes := @step_enter image limit seat frame position stack rest store later instr request
    onReturn isInstr ran
  cases isRoom : seat.room with
  | zero =>
      rw [isRoom] at goes
      exact .cutOff goes
  | succ room =>
      rw [isRoom] at goes
      exact .step goes (arrives room isRoom)

theorem step_deliver (isRoom : seat.room = room + 1) :
    Machine.step image limit
        ⟨.deliver value, seat.waiting frame position stack onReturn :: seat.levels, room, store⟩ =
      .running (seat.config frame position (onReturn.onto value stack) store) := by
  unfold config
  rw [isRoom]
  cases onReturn <;> rfl

/-- A value is handed to the frame that waits for it. -/
theorem arrives_deliver (isRoom : seat.room = room + 1)
    (arrives : Arrives image limit
      (seat.config frame position (onReturn.onto value stack) store) post) :
    Arrives image limit
      ⟨.deliver value, seat.waiting frame position stack onReturn :: seat.levels, room, store⟩
      post :=
  .step (step_deliver isRoom) arrives

theorem step_begin {focus : Focus} (ran : (begin image request).run store = .ok focus later) :
    Machine.step image limit ⟨.begin request, levels, room, store⟩ =
      .running ⟨focus, levels, room, later⟩ := by
  unfold Machine.step
  dsimp only
  rw [ran]

/-- What has been asked for begins. -/
theorem arrives_begin {focus : Focus} (ran : (begin image request).run store = .ok focus later)
    (arrives : Arrives image limit ⟨focus, levels, room, later⟩ post) :
    Arrives image limit ⟨.begin request, levels, room, store⟩ post :=
  .step (step_begin ran) arrives

/-- What has been asked for ends with an exception. -/
theorem step_begin_throw {exception : Value}
    (ran : (begin image request).run store = .error (.throw exception) later) :
    Machine.step image limit ⟨.begin request, levels, room, store⟩ =
      .running ⟨.raise exception, levels, room, later⟩ := by
  unfold Machine.step
  dsimp only
  rw [ran]

/-- A frame ends with the value on top of its stack. -/
theorem arrives_ret (isInstr : frame.body.instrs[position]? = some .ret)
    (unpinned : frame.body.Unpinned)
    (arrives : Arrives image limit
      ⟨.deliver (stack.head?.getD .null), seat.levels, seat.room, store⟩ post) :
    Arrives image limit (seat.config frame position stack store) post := by
  refine .step ?_ arrives
  have released : store.releasePins { frame with position := position + 1, stack } = store :=
    @Body.Unpinned.releasePins { frame with position := position + 1, stack } unpinned store
  unfold Machine.step config
  dsimp only
  rw [isInstr]
  change Progress.running ⟨_, _, _, store.releasePins _⟩ = _
  rw [released]

/-- Arguments without instances of value types are taken off the stack as they are. -/
theorem run_takeArgs {args : List Value} (own : ∀ value ∈ args, ∀ ref, value ≠ .struct ref) :
    ((takeArgs args.length false).run
      { frame with position, stack := args.reverse ++ rest }).run store =
      .ok (args, { frame with position, stack := rest }) store :=
  @FrameStep.run_takeArgs { frame with position, stack := args.reverse ++ rest } _ _ _ _ _ rfl
    (run_copyAll own store)

/-- The receiver is taken off the stack with the arguments. -/
theorem run_takeArgs_receiver {receiver : Value} {args : List Value}
    (own : ∀ value ∈ args, ∀ ref, value ≠ .struct ref) :
    ((takeArgs (args.length + 1) true).run
      { frame with position, stack := args.reverse ++ receiver :: rest }).run store =
      .ok (receiver :: args, { frame with position, stack := rest }) store := by
  have length : (args.reverse ++ [receiver]).length = args.length + 1 := by simp
  have enough : args.length + 1 ≤
      ({ frame with position, stack := args.reverse ++ receiver :: rest } : Frame).stack.length := by
    simp only [List.length_append, List.length_reverse, List.length_cons]
    omega
  have popped : (popMany (args.length + 1)).run
      { frame with position, stack := args.reverse ++ receiver :: rest } =
        pure (receiver :: args, { frame with position, stack := rest }) := by
    rw [run_popMany enough]
    dsimp only
    rw [List.append_cons, List.take_left' length, List.drop_left' length]
    simp
  unfold takeArgs
  rw [StateT.run_bind, popped, pure_bind]
  change ((do return receiver :: (← liftM (takeArgs.copyAll args)) : FrameStep (List Value)).run
    _).run store = _
  rw [FrameStep.run_bind (run_lift (run_copyAll own store))]
  rfl

variable {receiver object : Value} {args : List Value} {handle : MethodHandle} {method : MethodInfo}
variable {ctorHandle : CtorHandle} {ctor : CtorInfo}

theorem execute_callVirtual {tail : Bool} (isMethod : image.method? handle = some method)
    (isInstance : method.attrs.isStatic = false) (count : method.params.length = args.length)
    (own : ∀ value ∈ args, ∀ ref, value ≠ .struct ref) :
    ((execute image position (.callVirtual handle tail)).run
      { frame with position := position + 1, stack := args.reverse ++ receiver :: rest }).run store =
        .ok (if tail then .tailCall ⟨handle, receiver :: args, true⟩
          else .enter (.method ⟨handle, receiver :: args, true⟩) method.onReturn,
          { frame with position := position + 1, stack := rest }) store := by
  have isInfo : (Exec.ofImage (image.method handle)).run store = .ok method store := by
    rw [Image.method_eq_ok.mpr isMethod]
    rfl
  change ((call image handle tail true).run _).run store = _
  unfold call
  rw [FrameStep.run_bind (run_lift isInfo)]
  dsimp only
  rw [isInstance, count]
  refine (FrameStep.run_bind (run_takeArgs_receiver own)).trans ?_
  cases tail <;> rfl

/-- A virtual call waits for the method that its receiver decides on. -/
theorem arrives_callVirtual
    (isInstr : frame.body.instrs[position]? = some (.callVirtual handle false))
    (isMethod : image.method? handle = some method) (isInstance : method.attrs.isStatic = false)
    (count : method.params.length = args.length) (own : ∀ value ∈ args, ∀ ref, value ≠ .struct ref)
    (arrives : ∀ room, seat.room = room + 1 → Arrives image limit
      ⟨.begin (.method ⟨handle, receiver :: args, true⟩),
        seat.waiting frame (position + 1) rest method.onReturn :: seat.levels, room, store⟩ post) :
    Arrives image limit (seat.config frame position (args.reverse ++ receiver :: rest) store) post :=
  arrives_enter isInstr (execute_callVirtual isMethod isInstance count own) arrives

/-- A virtual call that is the last act of a method takes its place. -/
theorem arrives_tailCallVirtual
    (isInstr : frame.body.instrs[position]? = some (.callVirtual handle true))
    (isMethod : image.method? handle = some method) (isInstance : method.attrs.isStatic = false)
    (count : method.params.length = args.length) (own : ∀ value ∈ args, ∀ ref, value ≠ .struct ref)
    (unpinned : frame.body.Unpinned) (isCtor : seat.isCtor = false)
    (arrives : Arrives image limit
      ⟨.begin (.method ⟨handle, receiver :: args, true⟩), seat.levels, seat.room, store⟩ post) :
    Arrives image limit (seat.config frame position (args.reverse ++ receiver :: rest) store) post := by
  refine .step ?_ arrives
  have released : store.releasePins { frame with position := position + 1, stack := rest } = store :=
    @Body.Unpinned.releasePins { frame with position := position + 1, stack := rest } unpinned store
  unfold Machine.step config
  dsimp only
  rw [isInstr]
  dsimp only
  rw [execute_callVirtual isMethod isInstance count own]
  change follow image limit _ seat.isCtor _ _ _ _ = _
  rw [isCtor]
  change Progress.running ⟨_, _, _, store.releasePins _⟩ = _
  rw [released]

theorem arrives_newObject (isInstr : frame.body.instrs[position]? = some (.newObject ctorHandle))
    (isCtor : image.ctor? ctorHandle = some ctor) (count : ctor.params.length = args.length)
    (own : ∀ value ∈ args, ∀ ref, value ≠ .struct ref)
    (allocated : (Exec.allocate image ctor.owner).run store = .ok object later)
    (arrives : ∀ room, seat.room = room + 1 → Arrives image limit
      ⟨.begin (.ctor ctorHandle (object :: args)),
        seat.waiting frame (position + 1) rest (.object object) :: seat.levels, room, later⟩ post) :
    Arrives image limit (seat.config frame position (args.reverse ++ rest) store) post := by
  refine arrives_enter isInstr ?_ arrives
  have isInfo : (Exec.ofImage (image.ctor ctorHandle)).run store = .ok ctor store := by
    rw [Image.ctor_eq_ok.mpr isCtor]
    rfl
  change ((liftM (Exec.ofImage (image.ctor ctorHandle)) >>= fun info =>
    takeArgs info.params.length false >>= fun args =>
    liftM (Exec.allocate image info.owner) >>= fun object =>
    pure (Flow.enter (.ctor ctorHandle (object :: args)) (.object object)) : FrameStep Flow).run
      _).run store = _
  rw [FrameStep.run_bind (run_lift isInfo), count, FrameStep.run_bind (run_takeArgs own),
    FrameStep.run_bind (run_lift allocated)]
  rfl

theorem arrives_callCtor (isInstr : frame.body.instrs[position]? = some (.callCtor ctorHandle))
    (isCtor : image.ctor? ctorHandle = some ctor) (count : ctor.params.length = args.length)
    (own : ∀ value ∈ args, ∀ ref, value ≠ .struct ref)
    (arrives : ∀ room, seat.room = room + 1 → Arrives image limit
      ⟨.begin (.ctor ctorHandle (receiver :: args)),
        seat.waiting frame (position + 1) rest .drop :: seat.levels, room, store⟩ post) :
    Arrives image limit (seat.config frame position (args.reverse ++ receiver :: rest) store) post := by
  refine arrives_enter isInstr ?_ arrives
  have isInfo : (Exec.ofImage (image.ctor ctorHandle)).run store = .ok ctor store := by
    rw [Image.ctor_eq_ok.mpr isCtor]
    rfl
  change ((liftM (Exec.ofImage (image.ctor ctorHandle)) >>= fun info =>
    takeArgs (info.params.length + 1) true >>= fun args =>
    pure (Flow.enter (.ctor ctorHandle args) .drop) : FrameStep Flow).run _).run store = _
  rw [FrameStep.run_bind (run_lift isInfo), count, FrameStep.run_bind (run_takeArgs_receiver own)]
  rfl

end Calls

end Seat

end Machine

end ClassForge
