import ClassForge.Proofs.Image.Transactions
import ClassForge.Proofs.Machine.EntryCalls

/-!
# Pinned arrays

An array counts the pinned locals that point into it.  The count never exceeds the number of
pinned locals that hold an element address of the array, so no array stays pinned when a call is
over.  The two agree as long as element addresses point to objects that exist: code only makes such
addresses, but a host can pass others.
-/

namespace ClassForge

/-- The value is the address of an element of an array. -/
def Value.PointsInto (array : ObjRef) (value : Value) : Prop :=
  ∃ offset, value = .element array offset

instance (array : ObjRef) (value : Value) : Decidable (value.PointsInto array) :=
  match value with
  | .element other offset =>
      decidable_of_iff (other = array)
        ⟨fun same => ⟨offset, same ▸ rfl⟩, fun ⟨_, same⟩ => by cases same; rfl⟩
  | .null | .int32 _ | .int64 _ | .native _ | .float _ | .string _ | .ref _ | .struct _
  | .method _ => .isFalse nofun

/-- The number of values that point into an array. -/
def Value.pointersInto (array : ObjRef) (values : List Value) : Nat :=
  values.countP fun value => value.PointsInto array

/-- An element address points to an object that exists. -/
def Value.PointsInside (heap : Heap) (value : Value) : Prop :=
  ∀ array, value.PointsInto array → array.index < heap.size

namespace Pins

/-! ## Counts -/

/-- An array has at most the pins that are counted, and exactly those if addresses are sound. -/
def Agree (sound : Prop) (pins counted : Nat) : Prop :=
  pins ≤ counted ∧ (sound → counted ≤ pins)

section

variable {sound : Prop} {pins counted : Nat}

theorem Agree.pin (agree : Agree sound pins counted) : Agree sound (pins + 1) (counted + 1) :=
  ⟨Nat.succ_le_succ agree.1, fun isSound => Nat.succ_le_succ (agree.2 isSound)⟩

theorem Agree.unpin (agree : Agree sound pins (counted + 1)) : Agree sound (pins - 1) counted := by
  obtain ⟨most, least⟩ := agree
  refine ⟨by omega, fun isSound => ?_⟩
  have := least isSound
  omega

theorem Agree.zero (none : sound → counted = 0) : Agree sound 0 counted :=
  ⟨Nat.zero_le _, fun isSound => Nat.le_of_eq (none isSound)⟩

end

/-! ## Stores -/

/-- The values of a machine are known: if addresses are sound, they point to what exists. -/
def Known (sound : Prop) (heap : Heap) (value : Value) : Prop :=
  sound → value.PointsInside heap

/-- The pins of all arrays agree with the pinned locals. -/
structure Held (sound : Prop) (store : Store) (owned pinned : List Value) : Prop where
  known : ∀ value ∈ store.values ++ owned ++ pinned, Known sound store.heap value
  agree : ∀ array element data pins, store.heap.get? array = some (.array element data pins) →
    Agree sound pins (Value.pointersInto array pinned)

/-- Arrays of the later heap were there before, with as many pins. -/
def Kept (heap later : Heap) : Prop :=
  ∀ array element data pins, later.get? array = some (.array element data pins) →
    ∃ element data, heap.get? array = some (.array element data pins)

section Changes

variable {sound : Prop} {heap later : Heap} {store last : Store} {owned pinned : List Value}
variable {value : Value} {object : HeapObject}
variable {ref : ObjRef}

theorem Known.mono (known : Known sound heap value) (grows : heap.Grows later) :
    Known sound later value :=
  fun isSound array points => Nat.lt_of_lt_of_le (known isSound array points) grows.size_le

theorem known_of_not_element (other : value.isElement = false) : Known sound heap value := by
  rintro - array ⟨offset, rfl⟩
  cases other

/-- A change that neither adds arrays nor touches pins, and only brings known values. -/
theorem Held.change (held : Held sound store owned pinned) {given : List Value}
    (grows : store.heap.Grows last.heap) (kept : Kept store.heap last.heap)
    (known : ∀ value ∈ last.values ++ given,
      value ∈ store.values ++ owned ∨ Known sound last.heap value) :
    Held sound last given pinned := by
  refine ⟨fun value member => ?_, fun array element data pins found => ?_⟩
  · rcases List.mem_append.mp member with member | member
    · rcases known value member with before | now
      · exact (held.known value (List.mem_append_left _ before)).mono grows
      · exact now
    · exact (held.known value (List.mem_append_right _ member)).mono grows
  · obtain ⟨element, data, found⟩ := kept array element data pins found
    exact held.agree array element data pins found

theorem kept_refl (heap : Heap) : Kept heap heap :=
  fun _ _ _ _ found => ⟨_, _, found⟩

theorem kept_modify {change : HeapObject → HeapObject}
    (same : ∀ object element data pins, change object = .array element data pins →
      ∃ element data, object = .array element data pins) :
    Kept heap (heap.modify ref change) := by
  intro array element data pins found
  rw [Heap.get?_modify] at found
  split at found
  · obtain ⟨object, isThere, changed⟩ := Option.map_eq_some_iff.mp found
    obtain ⟨element, data, rfl⟩ := same object element data pins changed
    exact ⟨element, data, isThere⟩
  · exact ⟨element, data, found⟩

theorem kept_alloc (notArray : ∀ element data pins, object ≠ .array element data pins) :
    Kept heap (heap.alloc object).2 := by
  intro array element data pins found
  rw [Heap.get?_alloc] at found
  split at found
  · exact (notArray element data pins (Option.some.inj found)).elim
  · exact ⟨element, data, found⟩

theorem kept_append {fresh : List HeapObject}
    (instances : ∀ object ∈ fresh, ∃ type fields, object = .instance type fields) :
    Kept heap (heap.append fresh) := by
  rintro ⟨index⟩ element data pins found
  by_cases inside : index < heap.size
  · rw [Heap.get?_append_of_lt inside] at found
    exact ⟨element, data, found⟩
  · obtain ⟨position, rfl⟩ := Nat.exists_eq_add_of_le (Nat.le_of_not_lt inside)
    rw [Heap.get?_append_add] at found
    obtain ⟨type, fields, isInstance⟩ := instances _ (List.mem_of_getElem? found)
    cases isInstance

/-- A change of the heap that only brings known values. -/
theorem Held.changeHeap (held : Held sound store owned pinned) {given : List Value}
    (grows : store.heap.Grows later) (kept : Kept store.heap later)
    (known : ∀ value ∈ later.values ++ given,
      value ∈ store.heap.values ∨ value ∈ owned ∨ Known sound later value) :
    Held sound { store with heap := later } given pinned := by
  refine held.change grows kept fun value member => ?_
  simp only [Store.values, List.mem_append] at member known ⊢
  rcases member with (inHeap | isStatic) | isGiven
  · rcases known value (.inl inHeap) with before | isOwned | now
    · exact .inl (.inl (.inl before))
    · exact .inl (.inr isOwned)
    · exact .inr now
  · exact .inl (.inl (.inr isStatic))
  · rcases known value (.inr isGiven) with before | isOwned | now
    · exact .inl (.inl (.inl before))
    · exact .inl (.inr isOwned)
    · exact .inr now

/-- An object changes in place, and may take a value that was held. -/
theorem Held.modify (held : Held sound store (value :: owned) pinned)
    {change : HeapObject → HeapObject} (grows : store.heap.Grows (store.heap.modify ref change))
    (same : ∀ object element data pins, change object = .array element data pins →
      ∃ element data, object = .array element data pins)
    (values : (store.heap.modify ref change).values.Subperm (value :: store.heap.values)) :
    Held sound { store with heap := store.heap.modify ref change } owned pinned := by
  refine held.changeHeap grows (kept_modify same) fun each member => ?_
  rcases List.mem_append.mp member with inHeap | isOwned
  · rcases List.mem_cons.mp (values.subset inHeap) with rfl | before
    · exact .inr (.inl List.mem_cons_self)
    · exact .inl before
  · exact .inr (.inl (List.mem_cons_of_mem _ isOwned))

/-- Copies of known values, in a heap with the copied instances. -/
theorem Held.copy (held : Held sound store owned pinned) (known : Known sound store.heap value) :
    Held sound { store with heap := (store.heap.copy value).2 }
      ((store.heap.copy value).1 :: owned) pinned := by
  obtain ⟨copied, fresh, ran, isCopy⟩ :=
    Heap.run_copyUpTo (store.heap.size + 1) store.heap value
  have grows := Heap.grows_append store.heap fresh
  rw [Heap.copy, ran]
  refine held.changeHeap grows (kept_append fun _ => isCopy.instances) fun each member => ?_
  have ofCopy (copied : each ∈ [copied] ++ fresh.flatMap HeapObject.values) :
      each ∈ store.heap.values ∨ each ∈ owned ∨ Known sound (store.heap.append fresh) each := by
    rcases isCopy.origin each copied with isSource | before | ⟨ref, rfl, -⟩
    · rw [List.mem_singleton.mp isSource]
      exact .inr (.inr (known.mono grows))
    · exact .inl before
    · exact .inr (.inr (known_of_not_element rfl))
  simp only [Heap.values_append, List.mem_append, List.mem_cons] at member ofCopy
  rcases member with (before | isFresh) | isCopied | isOwned
  · exact .inl before
  · exact ofCopy (.inr isFresh)
  · exact ofCopy (.inl (.inl isCopied))
  · exact .inr (.inl isOwned)

theorem Held.alloc (held : Held sound store (object.values ++ owned) pinned)
    (notArray : ∀ element data pins, object ≠ .array element data pins) {given : Value}
    (other : given.isElement = false) :
    Held sound { store with heap := (store.heap.alloc object).2 } (given :: owned) pinned := by
  refine held.changeHeap (Heap.grows_alloc _ _) (kept_alloc notArray) fun each member => ?_
  simp only [Heap.values_alloc, List.mem_append, List.mem_cons] at member ⊢
  rcases member with (before | isContent) | rfl | isOwned
  · exact .inl before
  · exact .inr (.inl (.inl isContent))
  · exact .inr (.inr (known_of_not_element other))
  · exact .inr (.inl (.inr isOwned))

/-- A known value can be held. -/
theorem Held.hold (held : Held sound store owned pinned) (known : Known sound store.heap value) :
    Held sound store (value :: owned) pinned := by
  refine held.change (.refl _) (kept_refl _) fun each member => ?_
  simp only [List.mem_append, List.mem_cons] at member ⊢
  rcases member with isStored | rfl | isOwned
  · exact .inl (.inl isStored)
  · exact .inr known
  · exact .inl (.inr isOwned)

theorem Held.setField (held : Held sound store (value :: owned) pinned) {slot : Nat} :
    Held sound { store with heap := store.heap.setField ref slot value } owned pinned := by
  refine held.modify Heap.grows_setField (fun object element data pins changed => ?_)
    Heap.values_setField
  split at changed
  · cases changed
  · exact ⟨element, data, changed⟩

theorem Held.setItem (held : Held sound store (value :: owned) pinned) {index : Nat} :
    Held sound { store with heap := store.heap.setItem ref index value } owned pinned := by
  refine held.modify Heap.grows_setItem (fun object element data pins changed => ?_)
    Heap.values_setItem
  split at changed
  · cases changed
    exact ⟨_, _, rfl⟩
  · exact ⟨element, data, changed⟩

theorem Held.setBytes (held : Held sound store owned pinned) {change : Array UInt8 → Array UInt8}
    (same : ∀ bytes, (change bytes).size = bytes.size) :
    Held sound { store with heap := Memory.setBytes store.heap ref change } owned pinned := by
  refine held.changeHeap (Heap.grows_setBytes same) (kept_modify fun object element data pins changed
    => ?_) fun value member => ?_
  · split at changed
    · cases changed
      exact ⟨_, _, rfl⟩
    · exact ⟨element, data, changed⟩
  · rw [Heap.values_setBytes] at member
    exact (List.mem_append.mp member).imp_right .inl

theorem Held.setStatic (held : Held sound store (value :: owned) pinned) {slot : Nat} :
    Held sound { store with statics := store.statics.setIfInBounds slot value } owned pinned := by
  refine held.change (.refl _) (kept_refl _) fun each member => .inl ?_
  simp only [Store.values, Array.toList_setIfInBounds, List.mem_append, List.mem_cons] at member ⊢
  rcases member with (inHeap | isStatic) | isOwned
  · exact .inl (.inl inHeap)
  · rcases List.mem_or_eq_of_mem_set isStatic with before | rfl
    · exact .inl (.inr before)
    · exact .inr (.inl rfl)
  · exact .inr (.inr isOwned)

theorem Held.makeDelegate (held : Held sound store (value :: owned) pinned) {type : TypeHandle}
    {fields : Array Value} {method : MethodHandle}
    (found : store.heap.get? ref = some (.instance type fields)) :
    Held sound { store with heap := store.heap.modify ref fun _ => .delegate type value method }
      owned pinned :=
  held.modify (Heap.grows_makeDelegate found) (by simp) Heap.values_makeDelegate

/-- No pinned local points into an array that is new, if addresses are sound. -/
theorem pointersInto_new (known : ∀ value ∈ pinned, Known sound heap value) (isSound : sound) :
    Value.pointersInto ⟨heap.size⟩ pinned = 0 := by
  refine List.countP_eq_zero.mpr fun value member points => ?_
  exact Nat.lt_irrefl _ (known value member isSound _ (of_decide_eq_true points))

theorem Held.allocArray (held : Held sound store (object.values ++ owned) pinned)
    {element : RunTy} {data : ArrayData} (isArray : object = .array element data 0) :
    Held sound { store with heap := (store.heap.alloc object).2 }
      (.ref ⟨store.heap.size⟩ :: owned) pinned := by
  have grows := Heap.grows_alloc store.heap object
  constructor
  · intro value member
    simp only [Store.values, Heap.values_alloc, List.mem_append, List.mem_cons] at member
    have before (member : value ∈ store.values ++ (object.values ++ owned) ++ pinned) :=
      (held.known value member).mono grows
    simp only [Store.values, List.mem_append] at before
    rcases member with (((inHeap | isContent) | isStatic) | rfl | isOwned) | isPinned
    · exact before (.inl (.inl (.inl inHeap)))
    · exact before (.inl (.inr (.inl isContent)))
    · exact before (.inl (.inl (.inr isStatic)))
    · exact known_of_not_element rfl
    · exact before (.inl (.inr (.inr isOwned)))
    · exact before (.inr isPinned)
  · intro array element data pins found
    rw [Heap.get?_alloc] at found
    split at found
    · rename_i isNew
      cases isArray.symm.trans (Option.some.inj found)
      obtain ⟨index⟩ := array
      cases isNew
      exact .zero (pointersInto_new fun value member =>
        held.known value (List.mem_append_right _ member))
    · exact held.agree array element data pins found

theorem Held.weaken (held : Held sound store owned pinned) {less same : List Value}
    (fewer : less.Subperm owned) (perm : same.Perm pinned) : Held sound store less same := by
  constructor
  · intro value member
    refine held.known value ?_
    simp only [List.mem_append] at member ⊢
    rcases member with (isStored | isLess) | isSame
    · exact .inl (.inl isStored)
    · exact .inl (.inr (fewer.subset isLess))
    · exact .inr (perm.subset isSame)
  · intro array element data pins found
    rw [Value.pointersInto, perm.countP_eq]
    exact held.agree array element data pins found

/-! ## Pinning -/

theorem pointersInto_cons {array : ObjRef} : Value.pointersInto array (value :: pinned) =
    Value.pointersInto array pinned + if value.PointsInto array then 1 else 0 := by
  simp [Value.pointersInto, List.countP_cons]

theorem get?_adjustPins {change : Nat → Nat} {array : ObjRef} {element : RunTy} {data : ArrayData}
    {pins : Nat}
    (found : (Memory.adjustPins heap value change).get? array = some (.array element data pins)) :
    ∃ before, heap.get? array = some (.array element data before) ∧
      pins = if value.PointsInto array then change before else before := by
  by_cases points : value.PointsInto array
  · obtain ⟨offset, rfl⟩ := points
    unfold Memory.adjustPins at found
    dsimp only at found
    rw [Heap.get?_modify, if_pos rfl] at found
    obtain ⟨object, isThere, changed⟩ := Option.map_eq_some_iff.mp found
    split at changed
    · cases changed
      exact ⟨_, isThere, (if_pos ⟨offset, rfl⟩).symm⟩
    · rename_i notArray
      exact (notArray _ _ _ changed).elim
  · refine ⟨pins, ?_, (if_neg points).symm⟩
    unfold Memory.adjustPins at found
    split at found
    · rename_i other offset
      have apart : other ≠ array := by
        rintro rfl
        exact points ⟨offset, rfl⟩
      rwa [Heap.get?_modify, if_neg apart] at found
    · exact found

/-- The pins change with the pinned locals, array by array. -/
theorem Held.adjust (held : Held sound store owned pinned) {change : Nat → Nat}
    {now : List Value} (known : ∀ value ∈ now, value ∈ pinned ∨ Known sound store.heap value)
    (agree : ∀ array pins, Agree sound pins (Value.pointersInto array pinned) →
      Agree sound (if value.PointsInto array then change pins else pins)
        (Value.pointersInto array now)) :
    Held sound { store with heap := Memory.adjustPins store.heap value change } owned now := by
  have grows : store.heap.Grows (Memory.adjustPins store.heap value change) :=
    Heap.grows_adjustPins
  constructor
  · intro each member
    simp only [Store.values, Heap.values_adjustPins] at member
    refine Known.mono ?_ grows
    rcases List.mem_append.mp member with before | isPinned
    · exact held.known each (List.mem_append_left _ before)
    · exact (known each isPinned).elim
        (fun before => held.known each (List.mem_append_right _ before)) id
  · intro array element data pins found
    obtain ⟨before, isThere, rfl⟩ := get?_adjustPins found
    exact agree array before (held.agree array element data before isThere)

theorem Held.startPinned (held : Held sound store owned pinned) (other : value.isElement = false) :
    Held sound store owned (value :: pinned) := by
  constructor
  · intro each member
    rcases List.mem_append.mp member with before | isPinned
    · exact held.known each (List.mem_append_left _ before)
    · rcases List.mem_cons.mp isPinned with rfl | before
      · exact known_of_not_element other
      · exact held.known each (List.mem_append_right _ before)
  · intro array element data pins found
    have elsewhere : ¬ value.PointsInto array := by
      rintro ⟨offset, rfl⟩
      cases other
    rw [pointersInto_cons, if_neg elsewhere]
    exact held.agree array element data pins found

/-- A pinned local is there no more. -/
theorem Held.unpin (held : Held sound store owned (value :: pinned)) :
    Held sound { store with heap := Memory.unpin store.heap value } owned pinned := by
  refine held.adjust (fun _ member => .inl (List.mem_cons_of_mem _ member)) fun array pins agree => ?_
  rw [pointersInto_cons] at agree
  split
  · rename_i points
    rw [if_pos points] at agree
    exact agree.unpin
  · rename_i elsewhere
    rwa [if_neg elsewhere] at agree

/-- Another pinned local is there. -/
theorem Held.pin (held : Held sound store owned pinned) (known : Known sound store.heap value) :
    Held sound { store with heap := Memory.pin store.heap value } owned (value :: pinned) := by
  refine held.adjust (fun each member => ?_) fun array pins agree => ?_
  · rcases List.mem_cons.mp member with rfl | before
    · exact .inr known
    · exact .inl before
  · rw [pointersInto_cons]
    split
    · exact agree.pin
    · exact agree

end Changes

end Pins

/-- Arrays count the pinned locals that point into them. -/
def pinDiscipline (image : Image) (sound : Prop) : Discipline image where
  held := Pins.Held sound
  known := Pins.Known sound
  known_mono grows known := known.mono grows
  known_plain plain := Pins.known_of_not_element (Value.isElement_of_isPlain plain)
  known_element found := by
    rintro - array ⟨offset, ⟨⟩⟩
    exact Heap.lt_size_of_get? found
  known_held held member := held.known _ (List.mem_append_left _ member)
  weaken held fewer perm := held.weaken fewer perm
  copy held known := held.copy known
  copyField held known _ _ _ := (held.copy known).setField
  setText held := (held.hold (Pins.known_of_not_element rfl)).setField
  makesFunctions := True
  allocStruct held _ := held.alloc (by simp) rfl
  allocShared held _ _ := held.alloc (by simp) rfl
  allocBox held := held.alloc (by simp) rfl
  allocArray held _ := held.allocArray rfl
  setStatic held := held.setStatic
  setItem held := held.setItem
  setBytes same held := held.setBytes same
  makeDelegate _ held found := held.makeDelegate found
  setOutput held := ⟨held.known, held.agree⟩
  startPinned other held := held.startPinned other
  repin held known := held.unpin.pin (known.mono Heap.grows_adjustPins)
  unpin held := held.unpin

/-! ## Entry calls -/

/-- The element addresses in a machine at rest, and those that a call passes, point to objects that
exist. -/
def EntryCall.SoundAddresses (machine : Machine) (call : EntryCall) : Prop :=
  ∀ value ∈ machine.store.values ++ (call.args ++ call.receiver?.toList),
    value.PointsInside machine.store.heap

/-- No array is pinned exactly if none has pins. -/
theorem Heap.hasPins_eq_false {heap : Heap} : heap.hasPins = false ↔
    ∀ array element data pins, heap.get? array = some (.array element data pins) → pins = 0 := by
  rw [hasPins, ← Bool.not_eq_true, Array.any_eq_true]
  constructor
  · rintro nonePinned ⟨index⟩ element data pins found
    obtain ⟨inside, isArray⟩ := Array.getElem?_eq_some_iff.mp found
    refine Nat.eq_zero_of_not_pos fun isPinned => nonePinned ⟨index, inside, ?_⟩
    rw [isArray]
    exact decide_eq_true isPinned
  · rintro nonePinned ⟨index, inside, isPinned⟩
    split at isPinned
    · rename_i element data pins isArray
      have found : heap.get? ⟨index⟩ = some (.array element data pins) :=
        Array.getElem?_eq_some_iff.mpr ⟨inside, isArray⟩
      rw [nonePinned _ _ _ _ found] at isPinned
      cases isPinned
    · cases isPinned

namespace Pins

variable {machine : Machine} {call : EntryCall}

theorem accepts (atRest : machine.store.heap.hasPins = false) :
    (pinDiscipline machine.image (call.SoundAddresses machine)).Accepts call := by
  have known : ∀ value ∈ machine.store.values ++ (call.args ++ call.receiver?.toList),
      Known (call.SoundAddresses machine) machine.store.heap value :=
    fun value member sound => sound value member
  refine ⟨⟨?_, ?_⟩, trivial⟩
  · refine ⟨fun value member => known value ?_, fun array element data pins found => ?_⟩
    · rw [List.append_nil] at member
      rw [← List.append_assoc]
      exact List.mem_append_left _ member
    · rw [Heap.hasPins_eq_false.mp atRest array element data pins found]
      exact .zero fun _ => rfl
  · intro receiver isReceiver _
    refine known receiver (List.mem_append_right _ (List.mem_append_right _ ?_))
    rw [isReceiver]
    exact List.mem_singleton_self receiver

end Pins

/-- An entry call leaves the machine clean, however it ends. -/
theorem EntryCall.leaves_clean (machine : Machine) (call : EntryCall)
    (atRest : machine.store.heap.hasPins = false) :
    (∀ fuel answer later, call.perform machine fuel = some (answer, later) →
      later.store.heap.hasPins = false ∧ later = { machine with store := later.store } ∧
      (call.SoundAddresses machine →
        ∀ value ∈ later.store.values, value.PointsInside later.store.heap)) ∧
    ∀ config receivers, call.Visits machine config receivers →
      config.depth + config.room = machine.maxDepth ∧
      (∀ outcome store,
        Machine.step machine.image machine.maxDepth config = .finished outcome store →
        config.depth = 1 ∨ ∃ error, outcome = .error error) ∧
      ∀ array element data pins,
        config.store.heap.get? array = some (.array element data pins) →
        pins ≤ Value.pointersInto array (Frame.allPins config.frames) ∧
        (call.SoundAddresses machine →
          pins = Value.pointersInto array (Frame.allPins config.frames)) := by
  have accepts : (pinDiscipline machine.image (call.SoundAddresses machine)).Accepts call :=
    Pins.accepts atRest
  refine ⟨fun fuel answer later replied => ?_, fun config receivers visits => ?_⟩
  · have held : Pins.Held _ later.store [] [] := Discipline.call_held accepts replied
    refine ⟨Heap.hasPins_eq_false.mpr fun array element data pins found => ?_, ?_,
      fun sound value member => ?_⟩
    · exact Nat.le_zero.mp (held.agree array element data pins found).1
    · exact EntryCall.perform_machine replied
    · exact held.known value (by simpa using member) sound
  · have fits := Discipline.visits_fits accepts visits
    have held : Pins.Held _ config.store _ _ := fits.held
    refine ⟨visits.depth, fun outcome store isEnd => ?_, fun array element data pins found => ?_⟩
    · have accounts : Machine.Accounts _ (config.depth = 1)
          (Machine.step machine.image machine.maxDepth config) := Machine.step_accounts config
      rwa [isEnd] at accounts
    · obtain ⟨most, least⟩ := held.agree array element data pins found
      exact ⟨most, fun sound => Nat.le_antisymm most (least sound)⟩

/-- A class with two methods that read through a pinned local: one makes the array and takes the
address of its element, the other is given an address before it makes an array. -/
def pinning : List Image.Command :=
  [.declareType "Probe" .publicClass none [],
    .declareMethod ⟨45⟩ "read" .publicStatic [] .int32,
    .declareMethod ⟨45⟩ "readAt" .publicStatic [.object] .int32,
    .defineMethod ⟨56⟩
      { instrs := #[.const (.int32 1), .newArray .int32, .const (.int32 0),
          .elementAddress .int32, .storeLocal 0, .loadLocal 0, .loadIndirect .int32, .ret]
        labels := #[]
        locals := #[⟨.object, true⟩]
        regions := [] },
    .defineMethod ⟨57⟩
      { instrs := #[.loadArg 0, .storeLocal 0, .const (.int32 1), .newArray .int32,
          .storeLocal 1, .loadLocal 0, .loadIndirect .int32, .ret]
        labels := #[]
        locals := #[⟨.object, true⟩, ⟨.array .int32, false⟩]
        regions := [] },
    .sealType ⟨45⟩]

/-- The machine in which they run. -/
def pinningMachine : Machine :=
  .start (pinning.foldl Image.after .library) 10

/-- The array that the method makes is pinned while it is read, and not afterwards. -/
theorem EntryCall.leaves_clean_read :
    pinningMachine.store.heap.hasPins = false ∧
      ∃ later, (invokeStatic "Probe" "read" []).perform pinningMachine 20 =
          some (.ok (.int32 0), later) ∧ later.store.heap.hasPins = false ∧
        ∃ config receivers,
          (invokeStatic "Probe" "read" []).Visits pinningMachine config receivers ∧
          config.store.heap.hasPins = true ∧ config.depth + config.room = 10 := by
  have atRest : pinningMachine.store.heap.hasPins = false := by decide +kernel
  have answers : (((invokeStatic "Probe" "read" []).perform pinningMachine 20).map
      (·.1.toOption)) = some (some (.int32 0)) := by decide +kernel
  have pinsNow : ((invokeStatic "Probe" "read" []).visited? pinningMachine 6).any
      (fun visited => visited.1.store.heap.hasPins) = true := by decide +kernel
  obtain ⟨⟨answer, later⟩, replied, isOk⟩ := Option.map_eq_some_iff.mp answers
  obtain ⟨⟨config, receivers⟩, visited, isPinned⟩ := (Option.any_eq_true _ _).mp pinsNow
  obtain ⟨clean, during⟩ := leaves_clean pinningMachine (invokeStatic "Probe" "read" []) atRest
  cases answer with
  | error error => cases isOk
  | ok value =>
      cases isOk
      exact ⟨atRest, later, replied, (clean _ _ _ replied).1, config, receivers, ⟨6, visited⟩,
        isPinned, (during config receivers ⟨6, visited⟩).1⟩

/-- An address of an array that is yet to be made is not counted when it is pinned: the counts
need not agree if a host passes one. -/
theorem EntryCall.pins_ne_pointersInto :
    ¬ ∀ (machine : Machine) (call : EntryCall), machine.store.heap.hasPins = false →
      ∀ config receivers, call.Visits machine config receivers →
      ∀ array element data pins,
        config.store.heap.get? array = some (.array element data pins) →
        pins = Value.pointersInto array (Frame.allPins config.frames) := by
  intro agrees
  have evaluates : ((invokeStatic "Probe" "readAt" [.element ⟨0⟩ 0]).visited? pinningMachine 6).any
      (fun visited =>
        visited.1.store.heap.get? ⟨0⟩ =
            some (.array .int32 (.bytes .int32 (Array.replicate 4 0)) 0) &&
          0 ≠ Value.pointersInto ⟨0⟩ (Frame.allPins visited.1.frames)) = true := by
    decide +kernel
  obtain ⟨⟨config, receivers⟩, visited, differ⟩ := (Option.any_eq_true _ _).mp evaluates
  obtain ⟨found, differs⟩ := Bool.and_eq_true_iff.mp differ
  have same := agrees pinningMachine _ (by decide +kernel) config receivers ⟨6, visited⟩ ⟨0⟩ _ _ _
    (of_decide_eq_true found)
  exact of_decide_eq_true differs same

end ClassForge
