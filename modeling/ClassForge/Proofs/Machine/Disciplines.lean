import ClassForge.Proofs.Machine.MachineFaults
import ClassForge.Proofs.Machine.StoredValues

/-!
# Disciplines of a machine

A discipline is something that a machine keeps true of its store while it works.  It may depend
on the values that are held outside the store, in the variables of frames and in the arguments
of a call that is about to begin, and on those that pinned locals hold; and it may tell which
other values, on stacks and on their way, can be there at all.  Its laws say that no change of
the store that an instruction can make breaks it.  Then no instruction does, and no built-in
member: what holds of all runs follows from the laws alone.
-/

namespace ClassForge

/-- A value that refers to no object. -/
def Value.isPlain : Value → Bool
  | .ref _ | .struct _ | .element _ _ => false
  | _ => true

/-- The address of an element of an array. -/
def Value.isElement : Value → Bool
  | .element _ _ => true
  | _ => false

theorem Value.isElement_of_isPlain {value : Value} (plain : value.isPlain = true) :
    value.isElement = false := by
  cases value with
  | element => cases plain
  | _ => rfl

/-- Instances of a type are shared: those of classes, and exceptions of the library. -/
def Image.IsShared (image : Image) (type : TypeHandle) : Prop :=
  image.isValueHandle type = false ∨
    ∃ exception : SystemException, image.typeNamed? exception.typeName = some type

/-- A complete type has room for as many fields. -/
def Image.HasSlots (image : Image) (type : TypeHandle) (count : Nat) : Prop :=
  ∃ info, image.type? type = some info ∧ info.isComplete = true ∧ count = info.instanceSlots

/-- Arrays of primitives, and only those, are stored as bytes, and have whole elements. -/
def ArrayData.Fits (element : RunTy) : ArrayData → Prop
  | bytes prim content => element.prim? = some prim ∧ ∃ count, content.size = count * prim.size
  | values _ => element.prim? = none

/-- Something that a machine keeps true while it works: of a store with the values that are held
outside of it and those that pinned locals hold, and of the other values that are there. -/
structure Discipline (image : Image) where
  held : Store → (owned pinned : List Value) → Prop
  known : Heap → Value → Prop
  /-- Whether instances may become functions. -/
  makesFunctions : Prop
  known_mono {heap later : Heap} {value : Value} :
    heap.Grows later → known heap value → known later value
  known_plain {heap : Heap} {value : Value} : value.isPlain = true → known heap value
  known_element {heap : Heap} {array : ObjRef} {object : HeapObject} {offset : Nat} :
    heap.get? array = some object → known heap (.element array offset)
  known_held {store : Store} {owned pinned : List Value} {value : Value} :
    held store owned pinned → value ∈ store.values ++ owned → known store.heap value
  weaken {store : Store} {owned less pinned same : List Value} :
    held store owned pinned → less.Subperm owned → same.Perm pinned → held store less same
  /-- A copy can be held, whatever the value. -/
  copy {store : Store} {owned pinned : List Value} {value : Value} :
    held store owned pinned → known store.heap value →
    held { store with heap := (store.heap.copy value).2 }
      ((store.heap.copy value).1 :: owned) pinned
  /-- A copy can be put into a field of an instance that was there before. -/
  copyField {store : Store} {owned pinned : List Value} {value object : Value} {ref : ObjRef}
      {slot : Nat} :
    held store owned pinned → known store.heap value → known store.heap object →
    object.object? = some ref → (store.heap.copy value).2.HasFields ref →
    held { store with
      heap := (store.heap.copy value).2.setField ref slot (store.heap.copy value).1 } owned pinned
  setText {store : Store} {owned pinned : List Value} {ref : ObjRef} {slot : Nat} {text : String} :
    held store owned pinned →
    held { store with heap := store.heap.setField ref slot (.string text) } owned pinned
  allocStruct {store : Store} {owned pinned : List Value} {type : TypeHandle}
      {fields : Array Value} :
    held store (fields.toList ++ owned) pinned → image.HasSlots type fields.size →
    held { store with heap := (store.heap.alloc (.instance type fields)).2 }
      (.struct ⟨store.heap.size⟩ :: owned) pinned
  allocShared {store : Store} {owned pinned : List Value} {type : TypeHandle}
      {fields : Array Value} :
    held store (fields.toList ++ owned) pinned → image.HasSlots type fields.size →
    image.IsShared type →
    held { store with heap := (store.heap.alloc (.instance type fields)).2 }
      (.ref ⟨store.heap.size⟩ :: owned) pinned
  allocBox {store : Store} {owned pinned : List Value} {type : TypeHandle} {value : Value} :
    held store (value :: owned) pinned →
    held { store with heap := (store.heap.alloc (.boxed type value)).2 }
      (.ref ⟨store.heap.size⟩ :: owned) pinned
  allocArray {store : Store} {owned pinned : List Value} {element : RunTy} {data : ArrayData} :
    held store ((HeapObject.array element data 0).values ++ owned) pinned → data.Fits element →
    held { store with heap := (store.heap.alloc (.array element data 0)).2 }
      (.ref ⟨store.heap.size⟩ :: owned) pinned
  setStatic {store : Store} {owned pinned : List Value} {slot : Nat} {value : Value} :
    held store (value :: owned) pinned →
    held { store with statics := store.statics.setIfInBounds slot value } owned pinned
  setItem {store : Store} {owned pinned : List Value} {ref : ObjRef} {index : Nat}
      {value : Value} :
    held store (value :: owned) pinned →
    held { store with heap := store.heap.setItem ref index value } owned pinned
  setBytes {store : Store} {owned pinned : List Value} {ref : ObjRef}
      {change : Array UInt8 → Array UInt8} :
    (∀ bytes, (change bytes).size = bytes.size) → held store owned pinned →
    held { store with heap := Memory.setBytes store.heap ref change } owned pinned
  makeDelegate {store : Store} {owned pinned : List Value} {ref : ObjRef} {type : TypeHandle}
      {fields : Array Value} {target : Value} {method : MethodHandle} :
    makesFunctions → held store (target :: owned) pinned → store.heap.get? ref = some (.instance type fields) →
    held { store with heap := store.heap.modify ref fun _ => .delegate type target method }
      owned pinned
  setOutput {store : Store} {owned pinned : List Value} {output : String} :
    held store owned pinned → held { store with output } owned pinned
  /-- A pinned local starts with a value that pins nothing. -/
  startPinned {store : Store} {owned pinned : List Value} {value : Value} :
    value.isElement = false → held store owned pinned → held store owned (value :: pinned)
  /-- A pinned local gives up one value for another. -/
  repin {store : Store} {owned pinned : List Value} {old value : Value} :
    held store owned (old :: pinned) → known store.heap value →
    held { store with heap := Memory.pin (Memory.unpin store.heap old) value } owned
      (value :: pinned)
  unpin {store : Store} {owned pinned : List Value} {old : Value} :
    held store owned (old :: pinned) →
    held { store with heap := Memory.unpin store.heap old } owned pinned

variable {image : Image} {rule : Discipline image} {owned pinned : List Value}

/-- An action ends with a value and a store that have a property, or it breaks off, and the
discipline holds of the store then as well. -/
def Discipline.Runs {α : Type} (rule : Discipline image) (owned pinned : List Value)
    (action : Exec α) (store : Store) (post : α → Store → Prop) : Prop :=
  match action.run store with
  | .ok value later => store.heap.Grows later.heap ∧ post value later
  | .error trap later => store.heap.Grows later.heap ∧ rule.held later owned pinned ∧
      ∀ exception, trap = .throw exception → rule.known later.heap exception

namespace Discipline

section Rules

variable {α β : Type} {store : Store} {action : Exec α} {post : α → Store → Prop}
variable {cause : Malformation}

/-- An action that leaves the store alone. -/
theorem Runs.pure {value : α} (holds : post value store) :
    rule.Runs owned pinned (pure value) store post :=
  ⟨.refl _, holds⟩

theorem Runs.bind {next : α → Exec β} {between : α → Store → Prop} {post : β → Store → Prop}
    (first : rule.Runs owned pinned action store between)
    (second : ∀ value later, store.heap.Grows later.heap → between value later →
      rule.Runs owned pinned (next value) later post) :
    rule.Runs owned pinned (action >>= next) store post := by
  unfold Runs at first ⊢
  rw [EStateM.run_bind]
  cases ran : action.run store with
  | error trap later =>
      rw [ran] at first
      exact first
  | ok value later =>
      rw [ran] at first
      obtain ⟨grows, holds⟩ := first
      have rest := second value later grows holds
      unfold Runs at rest
      dsimp only
      revert rest
      cases (next value).run later with
      | ok result last => exact fun ⟨more, holds⟩ => ⟨grows.trans more, holds⟩
      | error trap last => exact fun ⟨more, held⟩ => ⟨grows.trans more, held⟩

/-- What would come after an action that does not end with a value does not matter. -/
theorem Runs.bind_ended {next : α → Exec β} {post : β → Store → Prop}
    (ended : rule.Runs owned pinned action store fun _ _ => False) :
    rule.Runs owned pinned (action >>= next) store post :=
  ended.bind fun _ _ _ never => never.elim

theorem Runs.imp {weaker : α → Store → Prop} (runs : rule.Runs owned pinned action store post)
    (implies : ∀ value later, store.heap.Grows later.heap → post value later →
      weaker value later) : rule.Runs owned pinned action store weaker := by
  unfold Runs at runs ⊢
  revert runs
  cases action.run store with
  | ok value later => exact fun ⟨grows, holds⟩ => ⟨grows, implies value later grows holds⟩
  | error trap later => exact id

/-- Less is held outside of the store than could be. -/
theorem Runs.weaken {less : List Value} (runs : rule.Runs owned pinned action store post)
    (fewer : less.Subperm owned) : rule.Runs less pinned action store post := by
  unfold Runs at runs ⊢
  revert runs
  cases action.run store with
  | ok value later => exact id
  | error trap later =>
      exact fun ⟨grows, held, known⟩ => ⟨grows, rule.weaken held fewer (.refl _), known⟩

section

variable (held : rule.held store owned pinned)
include held

/-- Breaking off with an error. -/
theorem Runs.fatal {error : RunError} :
    rule.Runs owned pinned (throw (.fatal error) : Exec α) store post :=
  ⟨.refl _, held, nofun⟩

/-- Breaking off with an exception. -/
theorem Runs.throw {exception : Value} (known : rule.known store.heap exception) :
    rule.Runs owned pinned (throw (.throw exception) : Exec α) store post :=
  ⟨.refl _, held, by rintro _ ⟨⟩; exact known⟩

theorem Runs.malformed :
    rule.Runs owned pinned (Exec.malformed cause : Exec α) store post :=
  .fatal held

theorem Runs.require {value? : Option α} (holds : ∀ value, value? = some value → post value store) :
    rule.Runs owned pinned (Exec.require value? cause) store post := by
  cases value? with
  | none => exact .malformed held
  | some value => exact .pure (holds value rfl)

theorem Runs.ofImage {result : Except ImageError α}
    (holds : ∀ value, result = .ok value → post value store) :
    rule.Runs owned pinned (Exec.ofImage result) store post := by
  cases result with
  | error => exact .fatal held
  | ok value => exact .pure (holds value rfl)

end

/-- Going on with the heap as it is. -/
theorem Runs.heap_bind {next : Heap → Exec α}
    (runs : rule.Runs owned pinned (next store.heap) store post) :
    rule.Runs owned pinned (Exec.heap >>= next) store post :=
  runs

theorem Runs.get_bind {next : Store → Exec α}
    (runs : rule.Runs owned pinned (next store) store post) :
    rule.Runs owned pinned (get >>= next) store post :=
  runs

theorem Runs.pure_bind {value : α} {next : α → Exec β} {post : β → Store → Prop}
    (runs : rule.Runs owned pinned (next value) store post) :
    rule.Runs owned pinned (Pure.pure value >>= next) store post :=
  runs

/-- A change of the heap that gives a value. -/
theorem Runs.onHeap {change : Heap → α × Heap} (grows : store.heap.Grows (change store.heap).2)
    (holds : post (change store.heap).1 { store with heap := (change store.heap).2 }) :
    rule.Runs owned pinned (Exec.onHeap change) store post :=
  ⟨grows, holds⟩

theorem Runs.modifyHeap {change : Heap → Heap} {post : Unit → Store → Prop}
    (grows : store.heap.Grows (change store.heap))
    (holds : post () { store with heap := change store.heap }) :
    rule.Runs owned pinned (Exec.modifyHeap change) store post :=
  ⟨grows, holds⟩

/-- An action that reads the store only. -/
def Reads (rule : Discipline image) (owned pinned : List Value) (action : Exec α) (store : Store)
    (post : α → Prop) : Prop :=
  rule.Runs owned pinned action store fun value later => later = store ∧ post value

namespace Reads

variable {post : α → Prop}
variable {cause : Malformation}

theorem pure {value : α} (holds : post value) : rule.Reads owned pinned (Pure.pure value) store post :=
  Runs.pure ⟨rfl, holds⟩

theorem bind {next : α → Exec β} {last : β → Store → Prop}
    (first : rule.Reads owned pinned action store post)
    (second : ∀ value, post value → rule.Runs owned pinned (next value) store last) :
    rule.Runs owned pinned (action >>= next) store last :=
  Runs.bind first fun value _ _ ⟨same, holds⟩ => by
    subst same
    exact second value holds

variable (held : rule.held store owned pinned)
include held

theorem require {value? : Option α} (holds : ∀ value, value? = some value → post value) :
    rule.Reads owned pinned (Exec.require value? cause) store post :=
  Runs.require held fun value isValue => ⟨rfl, holds value isValue⟩

theorem ofImage {result : Except ImageError α} (holds : ∀ value, result = .ok value → post value) :
    rule.Reads owned pinned (Exec.ofImage result) store post :=
  Runs.ofImage held fun value isOk => ⟨rfl, holds value isOk⟩

/-- Any value will do. -/
theorem require_any {value? : Option α} :
    rule.Reads owned pinned (Exec.require value? cause) store fun _ => True :=
  .require held fun _ _ => trivial

theorem ofImage_any {result : Except ImageError α} :
    rule.Reads owned pinned (Exec.ofImage result) store fun _ => True :=
  .ofImage held fun _ _ => trivial

end Reads

end Rules

/-! ## Values to hold -/

section Values

variable {store : Store} {value : Value}

theorem drop (held : rule.held store (value :: owned) pinned) : rule.held store owned pinned :=
  rule.weaken held (List.sublist_cons_self _ _).subperm (.refl _)

theorem known_owned (held : rule.held store owned pinned) (member : value ∈ owned) :
    rule.known store.heap value :=
  rule.known_held held (List.mem_append_right _ member)

theorem known_stored (held : rule.held store owned pinned) (member : value ∈ store.values) :
    rule.known store.heap value :=
  rule.known_held held (List.mem_append_left _ member)

/-- What an object holds is known. -/
theorem known_content {ref : ObjRef} {object : HeapObject} (held : rule.held store owned pinned)
    (found : store.heap.get? ref = some object) (holds : value ∈ object.values) :
    rule.known store.heap value :=
  known_stored held (List.mem_append_left _ (Heap.mem_values found holds))

end Values

end Discipline

namespace Heap

theorem grows_copy (heap : Heap) (value : Value) : heap.Grows (heap.copy value).2 := by
  obtain ⟨copied, fresh, ran, -⟩ := run_copyUpTo (heap.size + 1) heap value
  rw [copy, ran]
  exact grows_append heap fresh

theorem copy_of_ne_struct {heap : Heap} {value : Value} (other : ∀ ref, value ≠ .struct ref) :
    heap.copy value = (value, heap) :=
  run_copyUpTo_itself fun ref isStruct => (other ref isStruct).elim

end Heap

theorem Exec.run_copy (value : Value) (store : Store) : (Exec.copy value).run store =
      .ok (store.heap.copy value).1 { store with heap := (store.heap.copy value).2 } := by
  cases value with
  | struct ref => rfl
  | _ =>
      rw [Heap.copy_of_ne_struct (by simp)]
      rfl

theorem Exec.run_copy_own {value : Value} {store : Store} (own : ∀ ref, value ≠ .struct ref) :
    (Exec.copy value).run store = .ok value store := by
  rw [Exec.run_copy, Heap.copy_of_ne_struct own]

namespace Discipline

section Allocation

variable {store : Store} {value : Value}
variable {default : RunTy → StateM Heap Value}
variable {handle : TypeHandle}

/-- A copy, and the store after it. -/
theorem copy_result : rule.Runs owned pinned (Exec.copy value) store fun copied later =>
      copied = (store.heap.copy value).1 ∧
        later = { store with heap := (store.heap.copy value).2 } := by
  unfold Runs
  rw [Exec.run_copy]
  exact ⟨store.heap.grows_copy value, rfl, rfl⟩

theorem copy_runs (held : rule.held store owned pinned) (known : rule.known store.heap value) :
    rule.Runs owned pinned (Exec.copy value) store fun copied later =>
      rule.held later (copied :: owned) pinned :=
  copy_result.imp fun copied later _ ⟨isCopy, isLater⟩ => by
    subst isCopy isLater
    exact rule.copy held known

theorem hold_plain (held : rule.held store owned pinned) (plain : value.isPlain = true) :
    rule.held store (value :: owned) pinned := by
  have copied := rule.copy held (rule.known_plain plain)
  rwa [Heap.copy_of_ne_struct (by rintro ref rfl; cases plain)] at copied

theorem hold_replicate (held : rule.held store owned pinned) (count : Nat) :
    rule.held store (List.replicate count Value.null ++ owned) pinned := by
  induction count with
  | zero => exact held
  | succ count ih => exact hold_plain ih rfl

/-- An action on the heap gives a value that can be held, and that pins nothing. -/
def Allots (rule : Discipline image) (action : StateM Heap Value) : Prop :=
  ∀ (store : Store) (owned pinned : List Value), rule.held store owned pinned →
    store.heap.Grows (action.run store.heap).2 ∧
      rule.held { store with heap := (action.run store.heap).2 }
        ((action.run store.heap).1 :: owned) pinned ∧
      (action.run store.heap).1.isElement = false

theorem allots_plain (plain : value.isPlain = true) : rule.Allots (pure value) :=
  fun _ _ _ held => ⟨.refl _, hold_plain held plain, Value.isElement_of_isPlain plain⟩

/-- The slots of an instance are filled with values that can be held. -/
theorem fill_slots (allots : ∀ type, rule.Allots (default type)) (fields : List FieldInfo)
    (slots : Array Value) (held : rule.held store (slots.toList ++ owned) pinned) :
    let filled := (fields.foldlM (fun slots field => do
        let value ← default field.type
        return slots.setIfInBounds field.slot value) slots : StateM Heap _).run store.heap
    store.heap.Grows filled.2 ∧ filled.1.size = slots.size ∧
      rule.held { store with heap := filled.2 } (filled.1.toList ++ owned) pinned := by
  induction fields generalizing store slots with
  | nil => exact ⟨.refl _, rfl, held⟩
  | cons field fields ih =>
      obtain ⟨grows, heldNext, -⟩ := allots field.type store _ _ held
      have stored : rule.held { store with heap := ((default field.type).run store.heap).2 }
          ((slots.setIfInBounds field.slot ((default field.type).run store.heap).1).toList ++ owned)
          pinned := by
        refine rule.weaken heldNext ?_ (.refl _)
        rw [Array.toList_setIfInBounds, ← List.cons_append]
        exact (List.set_subperm_cons _ _ _).append (.refl _)
      obtain ⟨more, sameSize, heldLast⟩ := ih _ stored
      exact ⟨grows.trans more, sameSize.trans (Array.size_setIfInBounds ..), heldLast⟩

/-- A new instance whose fields have their defaults. -/
theorem instanceWith_allots (allots : ∀ type, rule.Allots (default type)) {info : TypeInfo}
    (isType : image.type? handle = some info) (isComplete : info.isComplete = true)
    (held : rule.held store owned pinned) :
    let made := (Exec.instanceWith image default handle info).run store.heap
    store.heap.Grows made.2 ∧ rule.held { store with heap := made.2 } (.struct made.1 :: owned) pinned ∧
      (image.IsShared handle →
        rule.held { store with heap := made.2 } (.ref made.1 :: owned) pinned) := by
  have initial : rule.held store
      ((Array.replicate info.instanceSlots Value.null).toList ++ owned) pinned := by
    rw [Array.toList_replicate]
    exact hold_replicate held _
  obtain ⟨grows, sameSize, filled⟩ := fill_slots allots ((image.lineage handle).flatMap fun info =>
    ((image.fieldsOf info).map (·.2)).filter fun field => !field.attrs.isStatic) _ initial
  have hasSlots : image.HasSlots handle _ :=
    ⟨info, isType, isComplete, sameSize.trans Array.size_replicate⟩
  refine ⟨grows.trans (Heap.grows_alloc _ _), rule.allocStruct filled hasSlots, fun shared => ?_⟩
  exact rule.allocShared filled hasSlots shared

theorem zero_isPlain (prim : Prim) : (Value.zero prim).isPlain = true := by
  cases prim <;> rfl

theorem defaultUpTo_allots (bound : Nat) (type : RunTy) :
    rule.Allots (Exec.defaultUpTo image bound type) := by
  induction bound generalizing type with
  | zero =>
      unfold Exec.defaultUpTo
      split
      · exact allots_plain (zero_isPlain _)
      · contradiction
      · exact allots_plain rfl
  | succ bound ih =>
      cases type with
      | declared handle =>
          rw [Exec.defaultUpTo]
          cases isType : image.type? handle with
          | none => exact allots_plain rfl
          | some info =>
              dsimp only
              split
              next isValue =>
                intro store owned pinned held
                obtain ⟨grows, made, -⟩ :=
                  instanceWith_allots ih isType (Bool.and_eq_true_iff.mp isValue).2 held
                exact ⟨grows, made, rfl⟩
              · exact allots_plain rfl
      | builtin builtin =>
          cases builtin with
          | prim prim => exact allots_plain (zero_isPlain prim)
          | _ => exact allots_plain rfl
      | _ => exact allots_plain rfl

variable (held : rule.held store owned pinned)
include held

theorem defaultValue_runs {type : RunTy} :
    rule.Runs owned pinned (Exec.defaultValue image type) store fun value later =>
      rule.held later (value :: owned) pinned ∧ value.isElement = false :=
  have ⟨grows, made⟩ := defaultUpTo_allots _ type store owned pinned held
  .onHeap grows made

theorem allocInstance_runs :
    rule.Runs owned pinned (Exec.allocInstance image handle) store fun object later =>
      rule.held later (.struct object :: owned) pinned ∧
        (image.IsShared handle → rule.held later (.ref object :: owned) pinned) := by
  refine Reads.bind (.ofImage held fun _ isInfo => isInfo) fun info isInfo => ?_
  split
  next isComplete =>
    have isType : image.type? handle = some info := Image.type_eq_ok.mp isInfo
    obtain ⟨grows, made⟩ :=
      instanceWith_allots (defaultUpTo_allots (image.types.size + 1)) isType isComplete held
    exact .onHeap grows made
  · exact .fatal held

/-- The object that a constructor is to fill. -/
theorem allocate_runs :
    rule.Runs owned pinned (Exec.allocate image handle) store fun object later =>
      rule.held later (object :: owned) pinned := by
  refine .bind (allocInstance_runs held) fun object later _ made => ?_
  cases isValue : image.isValueHandle handle with
  | true => exact .pure made.1
  | false => exact .pure (made.2 (.inl isValue))

theorem setMessage_runs {exception : ObjRef} {message : String} :
    rule.Runs owned pinned (Exec.setMessage exception message) store fun _ later =>
      rule.held later owned pinned :=
  .modifyHeap Heap.grows_setField (rule.setText held)

theorem raise_runs {α : Type} {exception : SystemException} {post : α → Store → Prop} :
    rule.Runs owned pinned (Exec.raise image exception) store post := by
  unfold Exec.raise
  split
  · exact .malformed held
  · rename_i handle named
    refine .bind (allocInstance_runs held) fun object later _ made => ?_
    have shared := made.2 (.inr ⟨exception, named⟩)
    refine .bind ((setMessage_runs shared).weaken (List.sublist_cons_self _ _).subperm)
      fun _ last _ held => ?_
    exact .throw (drop held) (known_owned held List.mem_cons_self)

/-- A result of arithmetic, or an exception. -/
theorem ofArith_reads {α : Type} {result : Except ArithError α} {post : α → Prop}
    (holds : ∀ value, result = .ok value → post value) :
    rule.Reads owned pinned (Exec.ofArith image result) store post := by
  unfold Exec.ofArith
  split
  · exact .pure (holds _ rfl)
  · exact raise_runs held
  · exact raise_runs held
  · exact .malformed held
  · exact .malformed held
  · exact .malformed held

theorem isInstance_reads {type : RunTy} :
    rule.Reads owned pinned (Exec.isInstance image value type) store fun _ => True :=
  .heap_bind (Reads.ofImage held fun _ _ => trivial)

/-- Copies of several values, to hold all of them. -/
theorem mapM_copy_runs {values : List Value}
    (known : ∀ value ∈ values, rule.known store.heap value) :
    rule.Runs owned pinned (values.mapM Exec.copy) store fun copies later =>
      rule.held later (copies ++ owned) pinned := by
  induction values generalizing store owned with
  | nil => exact .pure held
  | cons value values ih =>
      rw [List.mapM_cons]
      refine .bind (copy_runs held (known value List.mem_cons_self)) fun copied later grows held => ?_
      have knownRest : ∀ value ∈ values, rule.known later.heap value := fun value member =>
        rule.known_mono grows (known value (List.mem_cons_of_mem _ member))
      refine .bind ((ih held knownRest).weaken (List.sublist_cons_self _ _).subperm)
        fun copies last _ held => ?_
      exact .pure (rule.weaken held List.perm_middle.symm.subperm (.refl _))

/-- Defaults of several types, to hold all of them. -/
theorem mapM_defaultValue_runs {types : List RunTy} :
    rule.Runs owned pinned (types.mapM (Exec.defaultValue image)) store fun values later =>
      rule.held later (values ++ owned) pinned ∧ ∀ value ∈ values, value.isElement = false := by
  induction types generalizing store owned with
  | nil => exact .pure ⟨held, nofun⟩
  | cons type types ih =>
      rw [List.mapM_cons]
      refine .bind (defaultValue_runs held) fun value later grows ⟨held, pinsNothing⟩ => ?_
      refine .bind ((ih held).weaken (List.sublist_cons_self _ _).subperm)
        fun values last _ ⟨held, pinNothing⟩ => ?_
      refine .pure ⟨rule.weaken held List.perm_middle.symm.subperm (.refl _), ?_⟩
      exact List.forall_mem_cons.mpr ⟨pinsNothing, pinNothing⟩

end Allocation

end Discipline

end ClassForge
