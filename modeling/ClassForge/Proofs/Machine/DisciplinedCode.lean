import ClassForge.Proofs.Machine.Disciplines

/-!
# Disciplined instructions

What instructions and built-in members do with values, without the frame that they run on: every
one keeps a discipline, and gives values that can be there.  A value is only put into the store
after it was copied, or because the instruction got it to hold.
-/

namespace ClassForge

variable {prim : Prim}

/-! ## Values that refer to nothing -/

namespace Arith

variable {left right value result : Value}
variable {conversion : Conversion}

theorem isPlain_of_map {α : Type} {number? : Except ArithError α} {wrap : α → Value}
    (plain : ∀ number, (wrap number).isPlain = true) (isOk : number?.map wrap = .ok result) :
    result.isPlain = true := by
  cases number? with
  | error => cases isOk
  | ok number =>
      cases isOk
      exact plain number

theorem shift_isPlain {op : ArithOp} (isOk : shift op left right = .ok result) :
    result.isPlain = true := by
  unfold shift at isOk
  split at isOk
  · exact isPlain_of_map (fun _ => rfl) isOk
  · exact isPlain_of_map (fun _ => rfl) isOk
  · exact isPlain_of_map (fun _ => rfl) isOk
  · cases isOk

theorem binary_isPlain {op : ArithOp} (isOk : binary op left right = .ok result) :
    result.isPlain = true := by
  unfold binary at isOk
  split at isOk
  · exact shift_isPlain isOk
  · split at isOk
    · split at isOk
      · cases isOk
        rfl
      · cases isOk
    · split at isOk
      · exact isPlain_of_map (fun _ => rfl) isOk
      · exact isPlain_of_map (fun _ => rfl) isOk
      · exact isPlain_of_map (fun _ => rfl) isOk
      · cases isOk

theorem neg_isPlain (isOk : neg value = .ok result) : result.isPlain = true := by
  cases value <;> cases isOk <;> rfl

theorem not_isPlain (isOk : Arith.not value = .ok result) : result.isPlain = true := by
  cases value <;> cases isOk <;> rfl

theorem intValue_isPlain (prim : Prim) (value : Int) : (intValue prim value).isPlain = true := by
  cases prim <;> rfl

theorem isPlain_of_checked {overflows : Prop} [Decidable overflows] {value : Int}
    (isOk : (if overflows then Except.error ArithError.overflow else .ok (intValue prim value)) =
      .ok result) : result.isPlain = true := by
  split at isOk
  · cases isOk
  · cases isOk
    exact intValue_isPlain _ _

theorem convertInt_isPlain {value : Int} (isOk : convertInt conversion value = .ok result) :
    result.isPlain = true := by
  unfold convertInt at isOk
  dsimp only at isOk
  split at isOk
  · cases isOk
    rfl
  · cases isOk
    rfl
  · cases isOk
    rfl
  · exact isPlain_of_checked isOk

theorem convertReal_isPlain {value : Binary64} (isOk : convertReal conversion value = .ok result) :
    result.isPlain = true := by
  unfold convertReal at isOk
  dsimp only at isOk
  split at isOk
  · cases isOk
    rfl
  · cases isOk
    rfl
  · split at isOk <;> exact isPlain_of_checked isOk

theorem convert_isPlain (isOk : convert conversion value = .ok result) : result.isPlain = true := by
  unfold convert at isOk
  split at isOk
  · exact convertInt_isPlain isOk
  · exact convertReal_isPlain isOk
  · cases isOk

end Arith

namespace Memory

theorem decode_isPlain (prim : Prim) (word : Nat) : (decode prim word).isPlain = true := by
  cases prim <;> rfl

theorem read?_isPlain {bytes : Array UInt8} {offset : Nat} {value : Value}
    (isRead : read? bytes offset prim = some value) : value.isPlain = true := by
  obtain ⟨word, -, rfl⟩ := Option.map_eq_some_iff.mp isRead
  exact decode_isPlain prim _

theorem load?_isPlain {heap : Heap} {address : Int64} {value : Value}
    (isLoaded : load? heap address prim = some value) : value.isPlain = true := by
  simp only [load?, Option.bind_eq_bind, Option.bind_eq_some_iff] at isLoaded
  obtain ⟨⟨array, bytes, offset⟩, -, isRead⟩ := isLoaded
  exact read?_isPlain isRead

end Memory

theorem FrameStep.constant_isPlain (value : Constant) : (constant value).isPlain = true := by
  cases value <;> rfl

namespace Discipline

variable {image : Image} {rule : Discipline image} {owned pinned : List Value} {store : Store}
variable {action : Exec Value}

/-- The discipline is kept. -/
def Keeps {α : Type} (rule : Discipline image) (owned pinned : List Value) (action : Exec α)
    (store : Store) : Prop :=
  rule.Runs owned pinned action store fun _ later => rule.held later owned pinned

/-- The discipline is kept, and the value can be there. -/
def Yields (rule : Discipline image) (owned pinned : List Value) (action : Exec Value)
    (store : Store) : Prop :=
  rule.Runs owned pinned action store fun value later =>
    rule.held later owned pinned ∧ rule.known later.heap value

theorem Yields.pure {value : Value} (held : rule.held store owned pinned)
    (known : rule.known store.heap value) : rule.Yields owned pinned (Pure.pure value) store :=
  Runs.pure ⟨held, known⟩

/-- A value that can be held can also just be there. -/
theorem Yields.of_held
    (runs : rule.Runs owned pinned action store fun value later =>
      rule.held later (value :: owned) pinned) : rule.Yields owned pinned action store :=
  runs.imp fun _ _ _ held => ⟨drop held, known_owned held List.mem_cons_self⟩

theorem Yields.of_reads (held : rule.held store owned pinned)
    (reads : rule.Reads owned pinned action store fun value => rule.known store.heap value) :
    rule.Yields owned pinned action store :=
  Runs.imp reads fun _ _ _ ⟨same, known⟩ => by
    subst same
    exact ⟨held, known⟩

/-- A result of arithmetic refers to nothing. -/
theorem Yields.ofArith {result : Except ArithError Value} (held : rule.held store owned pinned)
    (plain : ∀ value, result = .ok value → value.isPlain = true) :
    rule.Yields owned pinned (Exec.ofArith image result) store :=
  .of_reads held (ofArith_reads held fun value isOk => rule.known_plain (plain value isOk))

/-! ## Operands -/

section Operands

open FrameStep

variable {value : Value}

variable (held : rule.held store owned pinned)
include held

theorem addressOperand_reads :
    rule.Reads owned pinned (addressOperand value) store fun _ => True := by
  unfold addressOperand
  split
  · exact .pure trivial
  · exact .pure trivial
  · exact .pure trivial
  · exact .malformed held

theorem countOperand_reads : rule.Reads owned pinned (countOperand value) store fun _ => True :=
  Reads.bind (.require_any held) fun _ _ => .pure ⟨rfl, trivial⟩

theorem lengthOperand_reads :
    rule.Reads owned pinned (lengthOperand image value) store fun _ => True := by
  refine Reads.bind (.require_any held) fun length _ => ?_
  dsimp only
  split
  · exact .bind_ended (raise_runs held)
  · exact .pure ⟨rfl, trivial⟩

theorem indexOperand_reads {length : Nat} :
    rule.Reads owned pinned (indexOperand image value length) store fun _ => True := by
  refine Reads.bind (.require_any held) fun index _ => ?_
  dsimp only
  split
  · exact .bind_ended (raise_runs held)
  · exact .pure ⟨rfl, trivial⟩

/-- The array is in the heap, with the elements that are given. -/
theorem arrayOperand_reads : rule.Reads owned pinned (arrayOperand image value) store fun found =>
      ∃ element pins, store.heap.get? found.1 = some (.array element found.2 pins) := by
  unfold arrayOperand
  split
  · exact raise_runs held
  · refine .heap_bind ?_
    split
    · rename_i element data pins found
      exact .pure ⟨rfl, element, pins, found⟩
    · exact .malformed held
  · exact .malformed held

/-- The instance is in the heap, with the fields that are given. -/
theorem instanceOperand_reads :
    rule.Reads owned pinned (instanceOperand image value) store fun found =>
      value.object? = some found.1 ∧
        ∃ type, store.heap.get? found.1 = some (.instance type found.2) := by
  unfold instanceOperand
  split
  · exact .bind_ended (raise_runs held)
  · refine .heap_bind ?_
    split
    · rename_i ref type fields isRef found
      rw [Heap.deref?, isRef] at found
      exact .pure ⟨rfl, isRef, type, found⟩
    · exact .malformed held

end Operands

/-! ## Instructions -/

section Instructions

open FrameStep

variable {value object array index : Value}
variable {field : FieldHandle} {type : RunTy}

variable (held : rule.held store owned pinned)
include held

theorem loadField_yields : rule.Yields owned pinned (loadField image field object) store := by
  refine .of_reads held ?_
  refine Reads.bind (.ofImage_any held) fun info _ => ?_
  refine Reads.bind (instanceOperand_reads held) fun found ⟨_, type, isThere⟩ => ?_
  refine Reads.require held fun content isContent => ?_
  exact known_content held isThere (Array.mem_toList_iff.mpr (Array.mem_of_getElem? isContent))

theorem storeField_keeps
    (knownValue : rule.known store.heap value) (knownObject : rule.known store.heap object) :
    rule.Keeps owned pinned (storeField image field object value) store := by
  refine Reads.bind (.ofImage_any held) fun info _ => ?_
  refine .bind copy_result fun copied later grows ⟨isCopy, isLater⟩ => ?_
  subst isCopy isLater
  have heldCopy := drop (rule.copy held knownValue)
  refine Reads.bind (instanceOperand_reads heldCopy) fun found ⟨isRef, type, isThere⟩ => ?_
  dsimp only
  split
  · exact .modifyHeap Heap.grows_setField
      (rule.copyField held knownValue knownObject isRef ⟨type, _, isThere⟩)
  · exact .malformed heldCopy

theorem loadStatic_yields : rule.Yields owned pinned (loadStatic image field) store := by
  refine .of_reads held ?_
  refine Reads.bind (.ofImage_any held) fun info _ => ?_
  refine .get_bind (Reads.require held fun content isContent => ?_)
  refine known_stored held (List.mem_append_right _ ?_)
  exact Array.mem_toList_iff.mpr (Array.mem_of_getElem? isContent)

theorem storeStatic_keeps (known : rule.known store.heap value) :
    rule.Keeps owned pinned (storeStatic image field value) store := by
  refine .bind (copy_runs held known) fun copied later _ heldCopy => ?_
  refine Reads.bind (.ofImage_any (drop heldCopy)) fun info _ => ?_
  refine .get_bind ?_
  split
  · exact ⟨.refl _, rule.setStatic heldCopy⟩
  · exact .malformed (drop heldCopy)

omit held in
/-- A new object that is shared. -/
theorem alloc_yields {object : HeapObject}
    (made : rule.held { store with heap := (store.heap.alloc object).2 }
      (.ref ⟨store.heap.size⟩ :: owned) pinned) :
    rule.Yields owned pinned (do return .ref (← Exec.alloc object)) store :=
  have ran : rule.Runs owned pinned (Exec.alloc object) store fun ref later =>
      rule.held later (.ref ref :: owned) pinned := .onHeap (Heap.grows_alloc _ _) made
  .of_held (.bind ran fun _ _ _ made => .pure made)

theorem newArray_yields {element : RunTy} {length : Nat} :
    rule.Yields owned pinned (newArray image element length) store := by
  unfold newArray
  split
  · rename_i prim isPrim
    exact alloc_yields (rule.allocArray held ⟨isPrim, length, Array.size_replicate⟩)
  · rename_i notPrim
    refine .bind (mapM_defaultValue_runs held) fun items later _ ⟨heldItems, _⟩ => ?_
    refine Runs.pure_bind (alloc_yields (rule.allocArray ?_ notPrim))
    simpa only [HeapObject.values] using heldItems

theorem loadElement_yields : rule.Yields owned pinned (loadElement image array index) store := by
  refine .of_reads held ?_
  refine Reads.bind (arrayOperand_reads held) fun found ⟨element, pins, isThere⟩ => ?_
  obtain ⟨ref, data⟩ := found
  refine Reads.bind (indexOperand_reads held) fun index _ => ?_
  cases data with
  | bytes prim content =>
      exact Reads.require held fun value isRead =>
        rule.known_plain (Memory.read?_isPlain isRead)
  | values items =>
      refine Reads.require held fun value isItem => ?_
      exact known_content held isThere (Array.mem_toList_iff.mpr (Array.mem_of_getElem? isItem))

theorem storeElement_keeps (known : rule.known store.heap value) :
    rule.Keeps owned pinned (storeElement image array index value) store := by
  refine .bind (copy_runs held known) fun copied later _ heldCopy => ?_
  have heldLater := drop heldCopy
  refine Reads.bind (arrayOperand_reads heldLater) fun found _ => ?_
  obtain ⟨ref, data⟩ := found
  refine Reads.bind (indexOperand_reads heldLater) fun index _ => ?_
  cases data with
  | bytes prim content =>
      refine Reads.bind (.require_any heldLater) fun word _ => ?_
      have same : ∀ bytes : Array UInt8, (Memory.overwrite bytes (index * prim.size)
          (Memory.toBytes prim.size word)).size = bytes.size :=
        fun bytes => Memory.size_overwrite bytes _ _
      exact .modifyHeap (Heap.grows_setBytes same) (rule.setBytes same heldLater)
  | values items =>
      exact .modifyHeap Heap.grows_setItem (rule.setItem heldCopy)

theorem elementAddress_yields :
    rule.Yields owned pinned (elementAddress image array index) store := by
  refine .of_reads held ?_
  refine Reads.bind (arrayOperand_reads held) fun found ⟨element, pins, isThere⟩ => ?_
  obtain ⟨ref, data⟩ := found
  cases data with
  | bytes prim content =>
      refine Reads.bind (indexOperand_reads held) fun index _ => ?_
      exact Reads.pure (rule.known_element isThere)
  | values items => exact .malformed held

theorem accessMemory_keeps {change : Heap → Option Heap}
    (overwrites : ∀ heap later, change heap = some later → Memory.Overwrites heap later) :
    rule.Keeps owned pinned (accessMemory image change) store := by
  refine .heap_bind ?_
  split
  · rename_i later done
    obtain ⟨ref, offset, data, rfl⟩ := overwrites _ _ done
    have same := fun bytes : Array UInt8 => Memory.size_overwrite bytes offset data
    exact .modifyHeap (Heap.grows_setBytes same) (rule.setBytes same held)
  · exact raise_runs held

theorem loadIndirect_yields :
    rule.Yields owned pinned (loadIndirect image prim value) store := by
  refine Reads.bind (addressOperand_reads held) fun address _ => .heap_bind ?_
  split
  · rename_i loaded isLoaded
    exact .pure ⟨held, rule.known_plain (Memory.load?_isPlain isLoaded)⟩
  · exact raise_runs held

theorem storeIndirect_keeps {address : Value} :
    rule.Keeps owned pinned (storeIndirect image prim address value) store :=
  Reads.bind (addressOperand_reads held) fun _ _ =>
    accessMemory_keeps held fun _ _ => Memory.store?_overwrites

theorem copyBlock_keeps {target source count : Value} :
    rule.Keeps owned pinned (copyBlock image target source count) store := by
  refine Reads.bind (countOperand_reads held) fun count _ => ?_
  split
  · exact Reads.bind (addressOperand_reads held) fun _ _ => Reads.bind (addressOperand_reads held) fun _ _ =>
      accessMemory_keeps held fun _ _ => Memory.copy?_overwrites
  · exact .pure held

theorem fillBlock_keeps {target byte count : Value} :
    rule.Keeps owned pinned (fillBlock image target byte count) store := by
  refine Reads.bind (countOperand_reads held) fun count _ => ?_
  refine Reads.bind (.require_any held) fun byte _ => ?_
  dsimp only
  split
  · exact Reads.bind (addressOperand_reads held) fun _ _ =>
      accessMemory_keeps held fun _ _ => Memory.fill?_overwrites
  · exact .pure held

theorem convert_yields {conversion : Conversion} :
    rule.Yields owned pinned (convert image conversion value) store := by
  have converts : ∀ value, rule.Yields owned pinned
      (Exec.ofArith image (Arith.convert conversion value)) store := fun value =>
    .ofArith held fun _ => Arith.convert_isPlain
  unfold convert
  split
  · split
    · exact .pure held (rule.known_plain rfl)
    · exact converts _
  · exact converts _

theorem box_yields (known : rule.known store.heap value) :
    rule.Yields owned pinned (box image type value) store := by
  unfold box
  split
  · refine Reads.bind (.ofImage_any held) fun handle _ => ?_
    refine .bind (copy_runs held known) fun copied later _ heldCopy => ?_
    exact alloc_yields (rule.allocBox heldCopy)
  · exact .pure held known

theorem castClass_yields (known : rule.known store.heap value) :
    rule.Yields owned pinned (castClass image type value) store := by
  unfold castClass
  split
  · exact .pure held known
  · refine Reads.bind (isInstance_reads held) fun isInstance _ => ?_
    split
    · exact .pure ⟨held, known⟩
    · exact raise_runs held

theorem unbox_yields (known : rule.known store.heap value) :
    rule.Yields owned pinned (unbox image type value) store := by
  unfold unbox
  split
  · exact castClass_yields held known
  · refine Reads.bind (.ofImage_any held) fun handle _ => ?_
    dsimp only
    split
    · exact .bind_ended (raise_runs held)
    · refine .heap_bind ?_
      split
      · rename_i actual content found
        obtain ⟨ref, -, isBox⟩ := Option.bind_eq_some_iff.mp found
        split
        · exact Yields.of_held (copy_runs held (known_content held isBox List.mem_cons_self))
        · exact raise_runs held
      · exact raise_runs held

theorem arrayLength_yields : rule.Yields owned pinned (do
      let (_, data) ← arrayOperand image array
      return .native (Int64.ofNat data.size)) store :=
  Reads.bind (arrayOperand_reads held) fun _ _ => .pure ⟨held, rule.known_plain rfl⟩

theorem isInstance_yields (known : rule.known store.heap value) :
    rule.Yields owned pinned (do
      return if ← Exec.isInstance image value type then value else .null) store := by
  refine Reads.bind (isInstance_reads held) fun isInstance _ => .pure ⟨held, ?_⟩
  split
  · exact known
  · exact rule.known_plain rfl

end Instructions

/-! ## Built-in members -/

section Natives

open Native

variable {args : List Value} {index : Nat} {value : Value}
variable {hasReceiver : Bool}

/-- What a built-in member ends with: a value that can be there, or a call with arguments that
are, of which the receiver need not be held. -/
def Answers (rule : Discipline image) (owned pinned : List Value) (outcome : Native.Outcome)
    (store : Store) : Prop :=
  match outcome with
  | .value value => rule.held store owned pinned ∧ rule.known store.heap value
  | .call method args => (∀ value ∈ args, rule.known store.heap value) ∧
      ∃ info, image.method method = .ok info ∧
        rule.held store (args.drop (!info.attrs.isStatic).toNat ++ owned) pinned

section

variable (held : rule.held store owned pinned)
include held

theorem arg_reads :
    rule.Reads owned pinned (arg args index) store fun value => args[index]? = some value :=
  .require held fun _ => id

theorem floatArg_reads :
    rule.Reads owned pinned (floatArg args index) store fun _ => True :=
  Reads.bind (arg_reads held) fun _ _ => Reads.require_any held

theorem intArg_reads :
    rule.Reads owned pinned (intArg args index) store fun _ => True :=
  Reads.bind (arg_reads held) fun _ _ => Reads.require_any held

theorem print_answers {text : String} :
    rule.Runs owned pinned (print text) store (rule.Answers owned pinned) :=
  ⟨.refl _, rule.setOutput held, rule.known_plain rfl⟩

theorem message_answers {object? : Option ObjRef} {text : String} :
    rule.Runs owned pinned (do
      if let some object := object? then
        Exec.setMessage object text
      return Native.Outcome.value .null) store (rule.Answers owned pinned) := by
  cases object? with
  | none => exact .pure ⟨held, rule.known_plain rfl⟩
  | some object =>
      exact .bind (setMessage_runs held) fun _ _ _ held => .pure ⟨held, rule.known_plain rfl⟩

/-- Cell constructors copy the content that they are given. -/
theorem cellCtor_answers (known : ∀ value ∈ args, rule.known store.heap value) :
    rule.Runs owned pinned (Native.cellCtor.run image args) store (rule.Answers owned pinned) := by
  refine Reads.bind (arg_reads held) fun cell isCell => ?_
  refine Reads.bind (arg_reads held) fun content isContent => ?_
  have knownContent := known content (List.mem_of_getElem? isContent)
  refine .bind copy_result fun copied later grows ⟨isCopy, isLater⟩ => ?_
  subst isCopy isLater
  have heldCopy := drop (rule.copy held knownContent)
  refine .heap_bind ?_
  split
  · rename_i ref type fields isRef found
    rw [Heap.deref?, isRef] at found
    have knownCell := known cell (List.mem_of_getElem? isCell)
    dsimp only
    split
    · exact .bind_ended (.malformed heldCopy)
    · exact .bind (.modifyHeap Heap.grows_setField
        (rule.copyField held knownContent knownCell isRef ⟨type, fields, found⟩))
        fun _ _ _ held => .pure ⟨held, rule.known_plain rfl⟩
  · exact .malformed heldCopy

end

/-- Function constructors keep the receiver that they are given: it is among the arguments that
are held. -/
theorem delegateCtor_answers (makes : rule.makesFunctions)
    (held : rule.held store (args.drop hasReceiver.toNat ++ owned) pinned) :
    rule.Runs (args.drop hasReceiver.toNat ++ owned) pinned (Native.delegateCtor.run image args)
      store (rule.Answers owned pinned) := by
  refine Reads.bind (arg_reads held) fun delegate _ => ?_
  refine Reads.bind (arg_reads held) fun target isTarget => ?_
  refine Reads.bind (arg_reads held) fun method _ => ?_
  have member : target ∈ args.drop hasReceiver.toNat := by
    cases hasReceiver with
    | false => exact List.mem_of_getElem? isTarget
    | true =>
        have isFirst : (args.drop 1)[0]? = some target := List.getElem?_drop.trans isTarget
        exact List.mem_of_getElem? isFirst
  have heldTarget : rule.held store (target :: owned) pinned :=
    rule.weaken held ((List.singleton_subperm_iff.mpr member).append (.refl _)) (.refl _)
  split
  · refine .heap_bind ?_
    split
    · rename_i ref type fields isRef found
      rw [Heap.deref?, isRef] at found
      exact .bind (.modifyHeap (Heap.grows_makeDelegate found) (rule.makeDelegate makes heldTarget found))
        fun _ _ _ held => .pure ⟨held, rule.known_plain rfl⟩
    · exact .malformed held
  · exact .malformed held

/-- Functions pass on what they are called with, to their receiver if the method has one. -/
theorem delegateInvoke_answers
    (held : rule.held store (args.drop hasReceiver.toNat ++ owned) pinned)
    (known : ∀ value ∈ args, rule.known store.heap value) :
    rule.Runs (args.drop hasReceiver.toNat ++ owned) pinned (Native.delegateInvoke.run image args)
      store (rule.Answers owned pinned) := by
  refine .heap_bind (Reads.bind (arg_reads held) fun delegate _ => ?_)
  split
  · rename_i type target method found
    obtain ⟨ref, -, isDelegate⟩ := Option.bind_eq_some_iff.mp found
    refine Reads.bind (.ofImage held fun _ isInfo => isInfo) fun info isInfo => .pure ?_
    have heldRest : rule.held store (args.drop 1 ++ owned) pinned := by
      refine rule.weaken held (List.Subperm.append ?_ (.refl _)) (.refl _)
      exact (List.drop_sublist_drop_left args (Bool.toNat_le hasReceiver)).subperm
    have knownRest : ∀ value ∈ args.drop 1, rule.known store.heap value :=
      fun value member => known value (List.mem_of_mem_drop member)
    refine ⟨?_, info, isInfo, ?_⟩
    · split
      · exact knownRest
      · exact List.forall_mem_cons.mpr
          ⟨known_content held isDelegate List.mem_cons_self, knownRest⟩
    · cases info.attrs.isStatic with
      | false => exact heldRest
      | true => exact heldRest
  · exact raise_runs held

/-- Built-in members that neither make nor call functions. -/
theorem plainNative_answers {native : Native} (held : rule.held store owned pinned)
    (known : ∀ value ∈ args, rule.known store.heap value) (noCtor : native ≠ .delegateCtor)
    (noInvoke : native ≠ .delegateInvoke) :
    rule.Runs owned pinned (native.run image args) store (rule.Answers owned pinned) := by
  have plain {value : Value} (isPlain : value.isPlain = true) :
      rule.Runs owned pinned (pure (Native.Outcome.value value)) store
        (rule.Answers owned pinned) :=
    .pure ⟨held, rule.known_plain isPlain⟩
  have number (wide : Bool) (value : Int64) :
      rule.Runs owned pinned (pure (intResult wide value)) store (rule.Answers owned pinned) := by
    cases wide with
    | false => exact plain rfl
    | true => exact plain rfl
  cases native with
  | objectCtor | cellCtorEmpty => exact plain rfl
  | objectText => exact .heap_bind (Reads.bind (arg_reads held) fun _ _ => plain rfl)
  | concat =>
      exact .heap_bind (Reads.bind (arg_reads held) fun _ _ =>
        Reads.bind (arg_reads held) fun _ _ => plain rfl)
  | textLength =>
      refine Reads.bind (arg_reads held) fun value _ => ?_
      split
      · exact plain rfl
      · exact raise_runs held
  | write =>
      exact .heap_bind (Reads.bind (arg_reads held) fun _ _ => print_answers held)
  | writeEmptyLine => exact print_answers held
  | math => exact Reads.bind (floatArg_reads held) fun _ _ => plain rfl
  | math₂ =>
      exact Reads.bind (floatArg_reads held) fun _ _ =>
        Reads.bind (floatArg_reads held) fun _ _ => plain rfl
  | intAbs wide =>
      have answers : ∀ least value : Int64, rule.Runs owned pinned (if value = least then
          Exec.raise image .overflow
          else return intResult wide (if value < 0 then -value else value)) store
          (rule.Answers owned pinned) := by
        intro least value
        split
        · exact raise_runs held
        · exact number wide _
      exact Reads.bind (intArg_reads held) fun _ _ => answers _ _
  | intMin wide | intMax wide =>
      exact Reads.bind (intArg_reads held) fun _ _ =>
        Reads.bind (intArg_reads held) fun _ _ => number wide _
  | exceptionCtor =>
      exact Reads.bind (arg_reads held) fun _ _ => .heap_bind (message_answers held)
  | exceptionCtorMessage =>
      exact Reads.bind (arg_reads held) fun _ _ => Reads.bind (arg_reads held) fun _ _ =>
        .heap_bind (message_answers held)
  | exceptionMessage =>
      exact Reads.bind (arg_reads held) fun _ _ => .heap_bind (plain rfl)
  | cellCtor => exact cellCtor_answers held known
  | delegateCtor => exact (noCtor rfl).elim
  | delegateInvoke => exact (noInvoke rfl).elim

theorem Answers.weaken {outcome : Native.Outcome} {less : List Value}
    (answers : rule.Answers owned pinned outcome store) (fewer : less.Subperm owned) :
    rule.Answers less pinned outcome store := by
  cases outcome with
  | value value => exact ⟨rule.weaken answers.1 fewer (.refl _), answers.2⟩
  | call method args =>
      obtain ⟨known, info, isInfo, held⟩ := answers
      exact ⟨known, info, isInfo, rule.weaken held (List.Subperm.append (.refl _) fewer) (.refl _)⟩

/-- Built-in members keep a discipline, and give up their arguments. -/
theorem native_answers {native : Native} (allowed : native = .delegateCtor → rule.makesFunctions)
    (held : rule.held store (args.drop hasReceiver.toNat ++ owned) pinned)
    (known : ∀ value ∈ args, rule.known store.heap value) :
    rule.Runs (args.drop hasReceiver.toNat ++ owned) pinned (native.run image args) store
      (rule.Answers owned pinned) := by
  by_cases isCtor : native = .delegateCtor
  · subst isCtor
    exact delegateCtor_answers (allowed rfl) held
  by_cases isInvoke : native = .delegateInvoke
  · subst isInvoke
    exact delegateInvoke_answers held known
  · exact (plainNative_answers held known isCtor isInvoke).imp fun _ _ _ answers =>
      answers.weaken (List.sublist_append_right _ _).subperm

end Natives

end Discipline

end ClassForge
