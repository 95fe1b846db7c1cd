import ClassForge.Proofs.Machine.Disciplines

/-!
# Intact heaps

A heap is intact when every value refers to an object that exists, every instance has the fields
that its type asks for, and every array of primitives has whole elements.  Objects stay what they
are from some heap on; whether instances may become functions in between is left open.  All of this
is a discipline, so whatever a machine does keeps heaps intact.
-/

namespace ClassForge

variable {type : TypeHandle} {fields : Array Value}

/-- The object that a value refers to, or whose elements it points to. -/
def Value.target? : Value → Option ObjRef
  | .ref object | .struct object => some object
  | .element array _ => some array
  | _ => none

/-- The object of a value exists. -/
def Heap.Covers (heap : Heap) (value : Value) : Prop :=
  ∀ ref, value.target? = some ref → ∃ object, heap.get? ref = some object

namespace HeapObject

/-- Whether an object is a function. -/
def isFunction : HeapObject → Bool
  | .delegate _ _ _ => true
  | _ => false

/-- An instance of a complete type has its fields, and an array its elements. -/
def WellFormed (image : Image) : HeapObject → Prop
  | .instance type fields => image.HasSlots type fields.size
  | .array element data _ => data.Fits element
  | .boxed _ _ | .delegate _ _ _ => True

/-- An object keeps its kind, its type and its size; it may become a function if functions are
made. -/
def Lasts (makes : Prop) (before after : HeapObject) : Prop :=
  before.Grows after ∧ (after.isFunction = true → makes ∨ after = before)

variable {image : Image} {makes : Prop} {before after later : HeapObject}

theorem wellFormed_instance :
    (HeapObject.instance type fields).WellFormed image ↔ image.HasSlots type fields.size :=
  Iff.rfl

theorem wellFormed_array {element : RunTy} {data : ArrayData} {pins : Nat} :
    (HeapObject.array element data pins).WellFormed image ↔ data.Fits element :=
  Iff.rfl

theorem wellFormed_boxed {value : Value} :
    (HeapObject.boxed type value).WellFormed image :=
  trivial

theorem WellFormed.grow (formed : before.WellFormed image) (grows : before.Grows after) :
    after.WellFormed image := by
  cases grows with
  | refl => exact formed
  | fields same =>
      rwa [wellFormed_instance, same]
  | delegate => trivial
  | bytes same =>
      obtain ⟨isPrim, count, isSize⟩ := formed
      exact ⟨isPrim, count, same.trans isSize⟩
  | items => exact formed

theorem Lasts.refl (object : HeapObject) : object.Lasts makes object :=
  ⟨.refl object, fun _ => .inr rfl⟩

theorem Lasts.trans (early : before.Lasts makes after) (late : after.Lasts makes later) :
    before.Lasts makes later := by
  refine ⟨early.1.trans late.1, fun isFunction => ?_⟩
  rcases late.2 isFunction with made | rfl
  · exact .inl made
  · exact early.2 isFunction

/-- What was not made a function lasts. -/
theorem lasts_of_not_function (grows : before.Grows after) (other : after.isFunction = false) :
    before.Lasts makes after :=
  ⟨grows, fun isFunction => by rw [other] at isFunction; cases isFunction⟩

end HeapObject

namespace Heap

variable {makes : Prop} {heap later : Heap} {ref : ObjRef} {value : Value}

/-- Every object lasts. -/
def Lasts (makes : Prop) (heap later : Heap) : Prop :=
  Persists (HeapObject.Lasts makes) heap.objects later.objects

theorem Lasts.refl (heap : Heap) : heap.Lasts makes heap :=
  Persists.refl .refl _

theorem Lasts.trans {first second third : Heap} (early : first.Lasts makes second)
    (late : second.Lasts makes third) : first.Lasts makes third :=
  Persists.trans .trans early late

theorem Lasts.grows (lasts : heap.Lasts makes later) : heap.Grows later := by
  intro index object found
  obtain ⟨after, isAfter, grows, -⟩ := lasts index object found
  exact ⟨after, isAfter, grows⟩

theorem lasts_alloc (heap : Heap) (object : HeapObject) : heap.Lasts makes (heap.alloc object).2 :=
  (Persists.refl .refl _).push object

theorem lasts_append (heap : Heap) (fresh : List HeapObject) :
    heap.Lasts makes (heap.append fresh) := by
  intro index object found
  obtain ⟨inside, -⟩ := Array.getElem?_eq_some_iff.mp found
  exact ⟨object, (Array.getElem?_append_left inside).trans found, .refl object⟩

theorem lasts_modify {change : HeapObject → HeapObject}
    (lasts : ∀ object, heap.get? ref = some object → object.Lasts makes (change object)) :
    heap.Lasts makes (heap.modify ref change) :=
  .modify .refl lasts

/-! ## Objects that exist -/

theorem covers_plain (plain : value.isPlain = true) : heap.Covers value := by
  intro ref isTarget
  cases value with
  | ref | struct | element => cases plain
  | _ => cases isTarget

theorem Covers.mono (covers : heap.Covers value) (grows : heap.Grows later) :
    later.Covers value := by
  intro ref isTarget
  obtain ⟨object, found⟩ := covers ref isTarget
  obtain ⟨after, isAfter, -⟩ := grows.get? found
  exact ⟨after, isAfter⟩

theorem covers_of_lt (inside : ∀ ref, value.target? = some ref → ref.index < heap.size) :
    heap.Covers value :=
  fun ref isTarget => get?_of_lt_size (inside ref isTarget)

end Heap

namespace Intact

/-- The values of a store, and others, refer to objects that exist and have lasted since some heap
was there. -/
structure Held (image : Image) (base : Heap) (makes : Prop) (store : Store) (owned : List Value) :
    Prop where
  lasts : base.Lasts makes store.heap
  covers : ∀ value ∈ store.values ++ owned, store.heap.Covers value
  formed : ∀ ref object, store.heap.get? ref = some object → object.WellFormed image

section Changes

variable {image : Image} {base later : Heap} {makes : Prop} {store last : Store}
variable {owned : List Value} {value : Value} {object : HeapObject} {ref : ObjRef}
variable {change : HeapObject → HeapObject}

section

variable (held : Held image base makes store owned)
include held

theorem Held.weaken {less : List Value} (fewer : less.Subperm owned) :
    Held image base makes store less where
  lasts := held.lasts
  covers value member := held.covers value
    ((List.mem_append.mp member).elim (List.mem_append_left _)
      fun isLess => List.mem_append_right _ (fewer.subset isLess))
  formed := held.formed

theorem Held.hold (covers : store.heap.Covers value) :
    Held image base makes store (value :: owned) where
  lasts := held.lasts
  covers each member := by
    rcases List.mem_append.mp member with isStored | isGiven
    · exact held.covers each (List.mem_append_left _ isStored)
    · rcases List.mem_cons.mp isGiven with rfl | isOwned
      · exact covers
      · exact held.covers each (List.mem_append_right _ isOwned)
  formed := held.formed

/-- The heap changes; values that were there before are covered as before. -/
theorem Held.changeHeap {given : List Value}
    (lasts : store.heap.Lasts makes later)
    (formed : ∀ ref object, later.get? ref = some object → object.WellFormed image)
    (covers : ∀ value ∈ later.values ++ given,
      value ∈ store.heap.values ∨ value ∈ owned ∨ later.Covers value) :
    Held image base makes { store with heap := later } given := by
  have before (value : Value) (member : value ∈ store.values ++ owned) : later.Covers value :=
    (held.covers value member).mono lasts.grows
  refine ⟨held.lasts.trans lasts, fun value member => ?_, formed⟩
  simp only [Store.values, List.mem_append] at member before covers
  rcases member with (inHeap | isStatic) | isGiven
  · rcases covers value (.inl inHeap) with old | isOwned | now
    · exact before value (.inl (.inl old))
    · exact before value (.inr isOwned)
    · exact now
  · exact before value (.inl (.inr isStatic))
  · rcases covers value (.inr isGiven) with old | isOwned | now
    · exact before value (.inl (.inl old))
    · exact before value (.inr isOwned)
    · exact now

/-- An object changes in place, and may take a value that is covered. -/
theorem Held.modify
    (lasts : ∀ object, store.heap.get? ref = some object → object.Lasts makes (change object))
    (brings : ∀ each ∈ (store.heap.modify ref change).values,
      each ∈ store.heap.values ∨ store.heap.Covers each) :
    Held image base makes { store with heap := store.heap.modify ref change } owned := by
  have lastsAll := Heap.lasts_modify lasts
  refine held.changeHeap lastsAll (fun other object found => ?_) fun each member => ?_
  · rw [Heap.get?_modify] at found
    split at found
    next same =>
      subst same
      obtain ⟨before, isBefore, rfl⟩ := Option.map_eq_some_iff.mp found
      exact (held.formed ref before isBefore).grow (lasts before isBefore).1
    next => exact held.formed other object found
  · rcases List.mem_append.mp member with inHeap | isOwned
    · exact (brings each inHeap).imp_right fun covers => .inr (covers.mono lastsAll.grows)
    · exact .inr (.inl isOwned)

/-- An object that keeps its values changes in place. -/
theorem Held.modify_same
    (lasts : ∀ object, store.heap.get? ref = some object → object.Lasts makes (change object))
    (same : (store.heap.modify ref change).values = store.heap.values) :
    Held image base makes { store with heap := store.heap.modify ref change } owned :=
  held.modify lasts fun _ member => .inl (same ▸ member)

end

section

variable (held : Held image base makes store (value :: owned))
include held

/-- The value that an object takes is one that was held. -/
theorem Held.modify_taking
    (lasts : ∀ object, store.heap.get? ref = some object → object.Lasts makes (change object))
    (values : (store.heap.modify ref change).values.Subperm (value :: store.heap.values)) :
    Held image base makes { store with heap := store.heap.modify ref change } owned := by
  refine (held.weaken (List.sublist_cons_self _ _).subperm).modify lasts fun each member => ?_
  rcases List.mem_cons.mp (values.subset member) with rfl | before
  · exact .inr (held.covers each (List.mem_append_right _ List.mem_cons_self))
  · exact .inl before

theorem Held.setField {slot : Nat} :
    Held image base makes { store with heap := store.heap.setField ref slot value } owned := by
  refine held.modify_taking (fun object _ => ?_) Heap.values_setField
  cases object with
  | «instance» type fields =>
      exact HeapObject.lasts_of_not_function (.fields (Array.size_setIfInBounds ..)) rfl
  | _ => exact .refl _

theorem Held.setItem {index : Nat} :
    Held image base makes { store with heap := store.heap.setItem ref index value } owned := by
  refine held.modify_taking (fun object _ => ?_) Heap.values_setItem
  split
  · exact HeapObject.lasts_of_not_function (.items (Array.size_setIfInBounds ..)) rfl
  · exact .refl _

end

theorem Held.setBytes (held : Held image base makes store owned)
    {change : Array UInt8 → Array UInt8} (same : ∀ bytes, (change bytes).size = bytes.size) :
    Held image base makes { store with heap := Memory.setBytes store.heap ref change } owned := by
  refine held.modify_same (fun object _ => ?_) Heap.values_setBytes
  split
  · exact HeapObject.lasts_of_not_function (.bytes (same _)) rfl
  · exact .refl _

theorem Held.adjustPins (held : Held image base makes store owned) {change : Nat → Nat} :
    Held image base makes { store with heap := Memory.adjustPins store.heap value change }
      owned := by
  have sameValues := @Heap.values_adjustPins store.heap value change
  unfold Memory.adjustPins at sameValues ⊢
  cases value with
  | element array offset =>
      refine held.modify_same (fun object _ => ?_) sameValues
      cases object with
      | array element data pins =>
          cases data with
          | bytes => exact HeapObject.lasts_of_not_function (.bytes rfl) rfl
          | values => exact HeapObject.lasts_of_not_function (.items rfl) rfl
      | _ => exact .refl _
  | _ => exact held

theorem Held.makeDelegate (made : makes) (held : Held image base makes store (value :: owned))
    {method : MethodHandle} (found : store.heap.get? ref = some (.instance type fields)) :
    Held image base makes
      { store with heap := store.heap.modify ref fun _ => .delegate type value method } owned := by
  refine held.modify_taking (fun object isThere => ⟨?_, fun _ => .inl made⟩) Heap.values_makeDelegate
  obtain rfl := Option.some.inj (found.symm.trans isThere)
  exact .delegate

theorem Held.setStatic (held : Held image base makes store (value :: owned)) {slot : Nat} :
    Held image base makes { store with statics := store.statics.setIfInBounds slot value }
      owned := by
  refine ⟨held.lasts, fun each member => held.covers each ?_, held.formed⟩
  simp only [Store.values, Array.toList_setIfInBounds, List.mem_append, List.mem_cons] at member ⊢
  rcases member with (inHeap | isStatic) | isOwned
  · exact .inl (.inl inHeap)
  · rcases List.mem_or_eq_of_mem_set isStatic with before | rfl
    · exact .inl (.inr before)
    · exact .inr (.inl rfl)
  · exact .inr (.inr isOwned)

/-- A new object takes values that were held. -/
theorem Held.alloc (held : Held image base makes store (object.values ++ owned))
    (formed : object.WellFormed image) {given : Value}
    (isNew : given.target? = some ⟨store.heap.size⟩) :
    Held image base makes { store with heap := (store.heap.alloc object).2 } (given :: owned) := by
  refine held.changeHeap (Heap.lasts_alloc _ _) (fun ref other found => ?_) fun each member => ?_
  · rw [Heap.get?_alloc] at found
    split at found
    · obtain rfl := Option.some.inj found
      exact formed
    · exact held.formed ref other found
  · simp only [Heap.values_alloc, List.mem_append, List.mem_cons] at member ⊢
    rcases member with (before | isContent) | rfl | isOwned
    · exact .inl before
    · exact .inr (.inl (.inl isContent))
    · refine .inr (.inr (Heap.covers_of_lt fun ref isTarget => ?_))
      obtain rfl := Option.some.inj (isNew.symm.trans isTarget)
      rw [Heap.size_alloc]
      exact Nat.lt_succ_self _
    · exact .inr (.inl (.inr isOwned))

/-- Copies have the types and sizes of what they are copies of. -/
theorem formed_append {heap : Heap} {sources copies : List Value} {fresh : List HeapObject}
    (formed : ∀ ref object, heap.get? ref = some object → object.WellFormed image)
    (copied : heap.Copied sources copies fresh) (ref : ObjRef) (object : HeapObject)
    (found : (heap.append fresh).get? ref = some object) : object.WellFormed image := by
  by_cases inside : ref.index < heap.size
  · rw [Heap.get?_append_of_lt inside] at found
    exact formed ref object found
  · obtain ⟨position, isBeyond⟩ := Nat.exists_eq_add_of_le (Nat.le_of_not_lt inside)
    obtain ⟨index⟩ := ref
    obtain rfl : index = heap.size + position := isBeyond
    rw [Heap.get?_append_add] at found
    obtain ⟨type, fields, rfl, source, original, isSource, sameSize⟩ :=
      copied.shapes object (List.mem_of_getElem? found)
    have formedSource := HeapObject.wellFormed_instance.mp (formed source _ isSource)
    rwa [HeapObject.wellFormed_instance, sameSize]

theorem Held.copy (held : Held image base makes store owned)
    (covers : store.heap.Covers value) :
    Held image base makes { store with heap := (store.heap.copy value).2 }
      ((store.heap.copy value).1 :: owned) := by
  obtain ⟨copied, fresh, ran, isCopy⟩ :=
    Heap.run_copyUpTo (store.heap.size + 1) store.heap value
  have lasts := @Heap.lasts_append makes store.heap fresh
  rw [Heap.copy, ran]
  refine held.changeHeap lasts (formed_append held.formed isCopy) fun each member => ?_
  have ofCopy (now : each ∈ [copied] ++ fresh.flatMap HeapObject.values) :
      each ∈ store.heap.values ∨ each ∈ owned ∨ (store.heap.append fresh).Covers each := by
    rcases isCopy.origin each now with isSource | before | ⟨ref, rfl, -, inside⟩
    · rw [List.mem_singleton.mp isSource]
      exact .inr (.inr (covers.mono lasts.grows))
    · exact .inl before
    · refine .inr (.inr (Heap.covers_of_lt fun other isTarget => ?_))
      obtain rfl := Option.some.inj isTarget
      rw [Heap.size_append]
      exact inside
  simp only [Heap.values_append, List.mem_append, List.mem_cons] at member ofCopy
  rcases member with (before | isFresh) | isCopied | isOwned
  · exact .inl before
  · exact ofCopy (.inr isFresh)
  · exact ofCopy (.inl (.inl isCopied))
  · exact .inr (.inl isOwned)

end Changes

end Intact

/-- Machines keep heaps intact. -/
def intactDiscipline (image : Image) (base : Heap) (makes : Prop) : Discipline image where
  held store owned _ := Intact.Held image base makes store owned
  known := Heap.Covers
  makesFunctions := makes
  known_mono grows covers := covers.mono grows
  known_plain := Heap.covers_plain
  known_element found ref isTarget := by
    obtain rfl := Option.some.inj isTarget
    exact ⟨_, found⟩
  known_held held member := held.covers _ member
  weaken held fewer _ := held.weaken fewer
  copy held covers := held.copy covers
  copyField held covers _ _ _ := (held.copy covers).setField
  setText held := (held.hold (Heap.covers_plain rfl)).setField
  allocStruct held hasSlots := held.alloc (HeapObject.wellFormed_instance.mpr hasSlots) rfl
  allocShared held hasSlots _ := held.alloc (HeapObject.wellFormed_instance.mpr hasSlots) rfl
  allocBox held := held.alloc HeapObject.wellFormed_boxed rfl
  allocArray held fits := held.alloc (HeapObject.wellFormed_array.mpr fits) rfl
  setStatic held := held.setStatic
  setItem held := held.setItem
  setBytes same held := held.setBytes same
  makeDelegate made held found := held.makeDelegate made found
  setOutput held := ⟨held.lasts, held.covers, held.formed⟩
  startPinned _ held := held
  repin held _ := held.adjustPins.adjustPins
  unpin held := held.adjustPins

end ClassForge
