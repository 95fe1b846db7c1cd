import ClassForge.Proofs.Image.Transactions
import ClassForge.Proofs.Image.TypeTests
import ClassForge.Proofs.Machine.DeepCopies
import ClassForge.Proofs.Machine.EntryCalls

/-!
# Unshared instances

An instance of a value type is held in one place: a field, an element, a box, a function, a static
field or a variable of a frame.  Whatever stores a value copies it first, so the copy is held where
it was stored and nowhere else; receivers, which are not copied, hold nothing.  A reference never
refers to an instance of a value type.
-/

namespace ClassForge

/-! ## Types of shared objects -/

namespace Image

variable {image : Image}

theorem library_exceptions_shared : ∀ exception ∈ SystemException.all,
    ∃ handle ∈ library.typeNamed? exception.typeName, ∃ info ∈ library.type? handle,
      info.attrs.isValueType = false := by
  decide +kernel

/-- Objects that are made to be shared are no instances of value types. -/
theorem Built.isValueHandle_of_isShared (built : image.Built) {type : TypeHandle}
    (shared : image.IsShared type) : image.isValueHandle type = false := by
  rcases shared with isClass | ⟨exception, named⟩
  · exact isClass
  · have listed : exception ∈ SystemException.all := by cases exception <;> decide
    obtain ⟨handle, isHandle, info, isInfo, isClass⟩ := library_exceptions_shared exception listed
    obtain ⟨later, isLater, grows⟩ := built.extends_library.types _ info isInfo
    have same : image.typeNamed? exception.typeName = some handle :=
      built.extends_library.findType? (fun _ _ grows => by rw [grows.origin, grows.name]) isHandle
    obtain rfl := Option.some.inj (named.symm.trans same)
    have isType : image.type? type = some later := isLater
    rw [isValueHandle, isType, Option.any_some, grows.attrs, isClass]

end Image

namespace Sharing

/-! ## Stores -/

/-- A value that refers to an object refers to one that exists, and a reference does not refer to
an instance of a value type. -/
structure Known (image : Image) (heap : Heap) (value : Value) : Prop where
  inside : ∀ ref, value.object? = some ref → ref.index < heap.size
  shared : ∀ ref type fields, value = .ref ref → heap.get? ref = some (.instance type fields) →
    image.isValueHandle type = false

/-- The instances of a heap are nested to a depth that the number of objects bounds. -/
structure Ranked (heap : Heap) (rank : Nat → Nat) : Prop where
  nested : heap.Nested rank
  bounded : ∀ index < heap.size, rank index < heap.size

/-- Every instance is held at most once. -/
structure Held (image : Image) (store : Store) (owned : List Value) : Prop where
  ranked : ∃ rank, Ranked store.heap rank
  known : ∀ value ∈ store.values ++ owned, Known image store.heap value
  once : ∀ ref, store.heap.HasFields ref → (store.values ++ owned).count (.struct ref) ≤ 1

section Changes

variable {image : Image} {heap later : Heap} {store last : Store} {owned given : List Value}
variable {value : Value} {object : HeapObject}
variable {rank : Nat → Nat} {ref : ObjRef} {slot : Nat}

theorem known_plain (plain : value.isPlain = true) : Known image heap value := by
  constructor
  · intro ref isRef
    cases value with
    | ref | struct => cases plain
    | _ => cases isRef
  · rintro ref type fields rfl
    cases plain

theorem Known.mono (known : Known image heap value) (grows : heap.Grows later) :
    Known image later value := by
  refine ⟨fun ref isRef => Nat.lt_of_lt_of_le (known.inside ref isRef) grows.size_le, ?_⟩
  rintro ref type fields rfl found
  obtain ⟨object, isThere⟩ := Heap.get?_of_lt_size (known.inside ref rfl)
  obtain ⟨after, isAfter, grown⟩ := grows.get? isThere
  obtain rfl := Option.some.inj (found.symm.trans isAfter)
  cases grown with
  | refl => exact known.shared ref type _ rfl isThere
  | fields => exact known.shared ref type _ rfl isThere

/-- An instance of the later heap was there before, and contains nothing new but instances of
lower rank. -/
def Kept (heap later : Heap) (rank : Nat → Nat) : Prop :=
  ∀ ref type fields, later.get? ref = some (.instance type fields) →
    ∃ before, heap.get? ref = some (.instance type before) ∧
      ∀ inner, .struct inner ∈ fields.toList → .struct inner ∈ before.toList ∨
        (heap.HasFields inner → rank inner.index < rank ref.index)

/-- A change in place that moves values, but makes none. -/
theorem Held.change (held : Held image store owned) (ranked : Ranked store.heap rank)
    (grows : store.heap.Grows last.heap) (sameSize : last.heap.size = store.heap.size)
    (kept : Kept store.heap last.heap rank)
    (fewer : (last.values ++ given).Subperm (store.values ++ owned)) : Held image last given := by
  have before {ref : ObjRef} (has : last.heap.HasFields ref) : store.heap.HasFields ref := by
    obtain ⟨type, fields, found⟩ := has
    obtain ⟨fields, isThere, -⟩ := kept ref type fields found
    exact ⟨type, fields, isThere⟩
  refine ⟨⟨rank, fun ref type fields found inner member has => ?_, ?_⟩, fun value member => ?_,
    fun ref has => ?_⟩
  · obtain ⟨before', isThere, isOld⟩ := kept ref type fields found
    rcases isOld inner member with old | lower
    · exact ranked.nested ref type _ isThere inner old (before has)
    · exact lower (before has)
  · rw [sameSize]
    exact ranked.bounded
  · exact (held.known value (fewer.subset member)).mono grows
  · exact (fewer.count_le _).trans (held.once ref (before has))

theorem kept_refl (heap : Heap) (rank : Nat → Nat) : Kept heap heap rank :=
  fun _ _ _ found => ⟨_, found, fun _ => .inl⟩

theorem kept_modify {change : HeapObject → HeapObject}
    (keeps : ∀ object type fields, change object = .instance type fields →
      ∃ before, object = .instance type before ∧
        ∀ inner, .struct inner ∈ fields.toList → .struct inner ∈ before.toList ∨
          (heap.HasFields inner → rank inner.index < rank ref.index)) :
    Kept heap (heap.modify ref change) rank := by
  intro other type fields found
  rw [Heap.get?_modify] at found
  split at found
  · rename_i same
    subst same
    obtain ⟨object, isThere, changed⟩ := Option.map_eq_some_iff.mp found
    obtain ⟨before, rfl, isOld⟩ := keeps object type fields changed
    exact ⟨before, isThere, isOld⟩
  · exact ⟨fields, found, fun _ => .inl⟩

/-- A change of objects that does not make or change instances. -/
theorem kept_modify_of_eq {change : HeapObject → HeapObject}
    (same : ∀ object type fields, change object = .instance type fields →
      object = .instance type fields) : Kept heap (heap.modify ref change) rank :=
  kept_modify fun object type fields changed =>
    ⟨fields, same object type fields changed, fun _ => .inl⟩

theorem Held.weaken (held : Held image store owned) (fewer : given.Subperm owned) :
    Held image store given := by
  obtain ⟨rank, ranked⟩ := held.ranked
  exact held.change ranked (.refl _) rfl (kept_refl _ _) (List.Subperm.append (.refl _) fewer)

theorem Held.modify (held : Held image store (value :: owned)) (ranked : Ranked store.heap rank)
    {change : HeapObject → HeapObject} (grows : store.heap.Grows (store.heap.modify ref change))
    (kept : Kept store.heap (store.heap.modify ref change) rank)
    (values : (store.heap.modify ref change).values.Subperm (value :: store.heap.values)) :
    Held image { store with heap := store.heap.modify ref change } owned := by
  refine held.change ranked grows Heap.size_modify kept ?_
  refine (List.Subperm.append (values.append (.refl store.statics.toList)) (.refl owned)).trans ?_
  refine List.Perm.subperm ?_
  simp only [Store.values, List.cons_append]
  exact List.perm_middle.symm

/-- A change of objects that keeps their values, and instances as they are. -/
theorem Held.modify_same (held : Held image store owned)
    (grows : store.heap.Grows later) (sameSize : later.size = store.heap.size)
    (kept : ∀ rank, Kept store.heap later rank) (values : later.values = store.heap.values) :
    Held image { store with heap := later } owned := by
  obtain ⟨rank, ranked⟩ := held.ranked
  refine held.change ranked grows sameSize (kept rank) ?_
  rw [Store.values, Store.values, values]

/-- A field takes a value that was held, which contains only instances of lower rank. -/
theorem Held.setField (held : Held image store (value :: owned)) (ranked : Ranked store.heap rank)
    (lower : ∀ inner, value = .struct inner → store.heap.HasFields inner →
      rank inner.index < rank ref.index) :
    Held image { store with heap := store.heap.setField ref slot value } owned := by
  refine held.modify ranked Heap.grows_setField (kept_modify fun object type fields changed => ?_)
    Heap.values_setField
  split at changed
  · rename_i before
    cases changed
    refine ⟨before, rfl, fun inner member => ?_⟩
    rw [Array.toList_setIfInBounds] at member
    exact (List.mem_or_eq_of_mem_set member).imp_right fun same => lower inner same.symm
  · exact ⟨fields, changed, fun _ => .inl⟩

theorem Held.setItem (held : Held image store (value :: owned)) {index : Nat} :
    Held image { store with heap := store.heap.setItem ref index value } owned := by
  obtain ⟨rank, ranked⟩ := held.ranked
  refine held.modify ranked Heap.grows_setItem
    (kept_modify_of_eq fun object type fields changed => ?_) Heap.values_setItem
  split at changed
  · cases changed
  · exact changed

theorem Held.setBytes (held : Held image store owned) {change : Array UInt8 → Array UInt8}
    (same : ∀ bytes, (change bytes).size = bytes.size) :
    Held image { store with heap := Memory.setBytes store.heap ref change } owned := by
  refine held.modify_same (Heap.grows_setBytes same) Heap.size_modify
    (fun rank => kept_modify_of_eq fun object type fields changed => ?_) Heap.values_setBytes
  split at changed
  · cases changed
  · exact changed

theorem Held.adjustPins (held : Held image store owned) {change : Nat → Nat} :
    Held image { store with heap := Memory.adjustPins store.heap value change } owned := by
  refine held.modify_same Heap.grows_adjustPins ?_ (fun rank => ?_) Heap.values_adjustPins
  · unfold Memory.adjustPins
    split
    · exact Heap.size_modify
    · rfl
  · unfold Memory.adjustPins
    split
    · refine kept_modify_of_eq fun object type fields changed => ?_
      split at changed
      · cases changed
      · exact changed
    · exact kept_refl _ _

theorem Held.makeDelegate (held : Held image store (value :: owned)) {type : TypeHandle}
    {fields : Array Value} {method : MethodHandle}
    (found : store.heap.get? ref = some (.instance type fields)) :
    Held image { store with heap := store.heap.modify ref fun _ => .delegate type value method }
      owned := by
  obtain ⟨rank, ranked⟩ := held.ranked
  exact held.modify ranked (Heap.grows_makeDelegate found)
    (kept_modify_of_eq fun _ _ _ changed => by cases changed) Heap.values_makeDelegate

theorem Held.setStatic (held : Held image store (value :: owned)) :
    Held image { store with statics := store.statics.setIfInBounds slot value } owned := by
  obtain ⟨rank, ranked⟩ := held.ranked
  refine held.change ranked (.refl _) rfl (kept_refl _ _) ?_
  simp only [Store.values, Array.toList_setIfInBounds, List.append_assoc]
  refine List.Subperm.append (.refl _) ?_
  refine (List.Subperm.append (List.set_subperm_cons _ _ _) (.refl owned)).trans ?_
  exact List.perm_middle.symm.subperm

/-- A value that refers to nothing can be held. -/
theorem Held.hold (held : Held image store owned) (known : Known image store.heap value)
    (other : ∀ ref, value ≠ .struct ref) : Held image store (value :: owned) := by
  refine ⟨held.ranked, fun each member => ?_, fun ref has => ?_⟩
  · rcases List.mem_cons.mp (List.perm_middle.mem_iff.mp member) with rfl | before
    · exact known
    · exact held.known each before
  · rw [List.perm_middle.count_eq, List.count_cons_of_ne (other ref)]
    exact held.once ref has

/-- A new instance has the highest rank. -/
theorem Ranked.alloc (ranked : Ranked heap rank)
    (known : ∀ value ∈ heap.values ++ object.values, Known image heap value) :
    ∃ rank, Ranked (heap.alloc object).2 rank := by
  have size : (heap.alloc object).2.size = heap.size + 1 := Heap.size_alloc
  refine ⟨fun index => if index = heap.size then heap.size else rank index,
    fun ref type fields found inner member has => ?_, fun index inside => ?_⟩
  · have isOld : inner.index < heap.size := by
      refine (known (.struct inner) ?_).inside inner rfl
      rw [← Heap.values_alloc]
      exact Heap.mem_values found member
    obtain ⟨otherType, otherFields, isThere⟩ := has
    rw [Heap.get?_alloc, if_neg (Nat.ne_of_lt isOld)] at isThere
    rw [Heap.get?_alloc] at found
    rw [if_neg (Nat.ne_of_lt isOld)]
    split at found
    · rename_i isNew
      rw [if_pos isNew]
      exact ranked.bounded _ isOld
    · rename_i isNew
      rw [if_neg isNew]
      exact ranked.nested ref type fields found inner member ⟨otherType, otherFields, isThere⟩
  · split
    · omega
    · have := ranked.bounded index (by omega)
      omega

theorem lt_size_alloc : heap.size < (heap.alloc object).2.size := by
  rw [Heap.size_alloc]
  exact Nat.lt_succ_self _

theorem known_struct_new : Known image (heap.alloc object).2 (.struct ⟨heap.size⟩) := by
  refine ⟨?_, nofun⟩
  rintro ref ⟨⟩
  exact lt_size_alloc

/-- A new object can be shared if it is no instance of a value type. -/
theorem known_ref_new (shared : ∀ type fields, object = .instance type fields →
    image.isValueHandle type = false) : Known image (heap.alloc object).2 (.ref ⟨heap.size⟩) := by
  constructor
  · rintro ref ⟨⟩
    exact lt_size_alloc
  · rintro ref type fields ⟨⟩ found
    rw [Heap.get?_alloc, if_pos rfl] at found
    exact shared type fields (Option.some.inj found)

/-- A new object takes the values that it holds. -/
theorem Held.alloc (held : Held image store (object.values ++ owned))
    (isGiven : value = .struct ⟨store.heap.size⟩ ∨ value = .ref ⟨store.heap.size⟩)
    (known : Known image (store.heap.alloc object).2 value) :
    Held image { store with heap := (store.heap.alloc object).2 } (value :: owned) := by
  have grows := Heap.grows_alloc store.heap object
  have shuffled : (Store.values { store with heap := (store.heap.alloc object).2 } ++
      (value :: owned)).Perm (value :: (store.values ++ (object.values ++ owned))) := by
    refine List.Perm.trans ?_ List.perm_middle
    simp only [Store.values, Heap.values_alloc, List.append_assoc]
    refine List.Perm.append_left _ ((List.perm_append_comm_assoc ..).trans ?_)
    exact List.Perm.append_left _ List.perm_middle
  obtain ⟨rank, ranked⟩ := held.ranked
  refine ⟨ranked.alloc fun each member => held.known each ?_, fun each member => ?_, fun ref has => ?_⟩
  · simp only [Store.values, List.mem_append] at member ⊢
    exact member.elim (.inl ∘ .inl) (.inr ∘ .inl)
  · rcases List.mem_cons.mp (shuffled.mem_iff.mp member) with rfl | before
    · exact known
    · exact (held.known each before).mono grows
  · rw [shuffled.count_eq]
    by_cases isOld : ref.index < store.heap.size
    · have other : value ≠ .struct ref := by
        rcases isGiven with rfl | rfl
        · rintro ⟨⟩
          exact Nat.lt_irrefl _ isOld
        · exact nofun
      rw [List.count_cons_of_ne other]
      refine held.once ref ?_
      obtain ⟨type, fields, found⟩ := has
      rw [Heap.get?_alloc, if_neg (Nat.ne_of_lt isOld)] at found
      exact ⟨type, fields, found⟩
    · have nowhere : .struct ref ∉ store.values ++ (object.values ++ owned) := fun member =>
        isOld ((held.known _ member).inside ref rfl)
      rw [List.count_cons, List.count_eq_zero_of_not_mem nowhere]
      split <;> omega

/-! ## Copies -/

/-- New instances have lower ranks than those that were there. -/
theorem Ranked.append {rank : Nat → Nat} (ranked : Ranked heap rank) {copies : List Value}
    {fresh : List HeapObject} (isFresh : heap.Fresh copies fresh)
    (known : ∀ value ∈ heap.values, Known image heap value) :
    Ranked (heap.append fresh) fun index =>
      if index < heap.size then rank index + fresh.length else index - heap.size := by
  refine ⟨fun ref type fields found inner member has => ?_, fun index inside => ?_⟩
  · by_cases isOld : ref.index < heap.size
    · rw [Heap.get?_append_of_lt isOld] at found
      have innerOld := (known _ (Heap.mem_values found member)).inside inner rfl
      rw [if_pos isOld, if_pos innerOld]
      exact Nat.add_lt_add_right
        (ranked.nested ref type fields found inner member (has.of_append innerOld)) _
    · obtain ⟨index⟩ := ref
      obtain ⟨position, rfl⟩ := Nat.exists_eq_add_of_le (Nat.le_of_not_lt isOld)
      rw [Heap.get?_append_add] at found
      have held : .struct inner ∈ fresh.flatMap HeapObject.values :=
        List.mem_flatMap.mpr ⟨_, List.mem_of_getElem? found, member⟩
      have innerNew : ¬ inner.index < heap.size := fun innerOld =>
        isFresh.apart inner (has.of_append innerOld) (List.mem_append_right _ held)
      have := isFresh.earlier position type fields found inner member
      rw [if_neg isOld, if_neg innerNew]
      change inner.index - heap.size < heap.size + position - heap.size
      omega
  · rw [Heap.size_append] at inside ⊢
    split
    · rename_i isOld
      have := ranked.bounded index isOld
      omega
    · omega

/-- A copy can be held, and has a lower rank than the instances that were there. -/
theorem Held.copy_ranked (held : Held image store owned) (known : Known image store.heap value) :
    ∃ rank, Ranked (store.heap.copy value).2 rank ∧
      Held image { store with heap := (store.heap.copy value).2 }
        ((store.heap.copy value).1 :: owned) ∧
      ∀ inner, (store.heap.copy value).1 = .struct inner →
        (store.heap.copy value).2.HasFields inner →
        ∀ ref : ObjRef, ref.index < store.heap.size → rank inner.index < rank ref.index := by
  obtain ⟨rank, ranked⟩ := held.ranked
  have knownHeap : ∀ each ∈ store.heap.values, Known image store.heap each := fun each member =>
    held.known each (List.mem_append_left _ (List.mem_append_left _ member))
  obtain ⟨copied, fresh, ran, isFresh, isCopied⟩ :=
    Heap.copy_fresh ranked.nested ranked.bounded
      (fun ref member => (knownHeap _ member).inside ref rfl) value
      fun ref isRef => known.inside ref (isRef ▸ rfl)
  rw [ran]
  have grows := Heap.grows_append store.heap fresh
  have rankedLater := ranked.append isFresh knownHeap
  have shuffled : (Store.values { store with heap := store.heap.append fresh } ++
      (copied :: owned)).Perm
      ((store.values ++ owned) ++ ([copied] ++ fresh.flatMap HeapObject.values)) := by
    simp only [Store.values, Heap.values_append, List.append_assoc, List.singleton_append]
    refine List.Perm.append_left _ ((List.perm_append_comm_assoc ..).trans (.append_left _ ?_))
    exact List.perm_middle.trans ((List.perm_append_comm.cons copied).trans List.perm_middle.symm)
  refine ⟨_, rankedLater, ⟨⟨_, rankedLater⟩, fun each member => ?_, fun ref has => ?_⟩,
    fun inner isInner has ref isOld => ?_⟩
  · rcases List.mem_append.mp (shuffled.mem_iff.mp member) with before | now
    · exact (held.known each before).mono grows
    · rcases isCopied.origin each now with isSource | before | ⟨ref, rfl, -, inside⟩
      · rw [List.mem_singleton.mp isSource]
        exact known.mono grows
      · exact (knownHeap each before).mono grows
      · rw [← Heap.size_append] at inside
        exact ⟨by rintro _ ⟨⟩; exact inside, nofun⟩
  · rw [shuffled.count_eq, List.count_append]
    by_cases isOld : ref.index < store.heap.size
    · have before := has.of_append isOld
      rw [List.count_eq_zero_of_not_mem (isFresh.apart ref before)]
      exact held.once ref before
    · have nowhere : .struct ref ∉ store.values ++ owned := fun member =>
        isOld ((held.known _ member).inside ref rfl)
      obtain ⟨index⟩ := ref
      obtain ⟨position, rfl⟩ := Nat.exists_eq_add_of_le (Nat.le_of_not_lt isOld)
      have inside := has.lt_size
      rw [Heap.size_append] at inside
      rw [List.count_eq_zero_of_not_mem nowhere, Nat.zero_add]
      exact isFresh.once position (Nat.lt_of_add_lt_add_left inside)
  · have isNew : ¬ inner.index < store.heap.size := fun innerOld =>
      isFresh.apart inner (has.of_append innerOld)
        (List.mem_append_left _ (List.mem_singleton.mpr isInner.symm))
    have inside := has.lt_size
    rw [Heap.size_append] at inside
    rw [if_neg isNew, if_pos isOld]
    omega

theorem Held.copy (held : Held image store owned) (known : Known image store.heap value) :
    Held image { store with heap := (store.heap.copy value).2 }
      ((store.heap.copy value).1 :: owned) :=
  have ⟨_, _, copied, _⟩ := held.copy_ranked known
  copied

/-- A field of an instance that was there takes a copy. -/
theorem Held.copyField (held : Held image store owned) (known : Known image store.heap value)
    (isThere : ref.index < store.heap.size) :
    Held image { store with
      heap := (store.heap.copy value).2.setField ref slot (store.heap.copy value).1 } owned := by
  obtain ⟨rank, ranked, copied, lower⟩ := held.copy_ranked known
  exact copied.setField ranked fun inner isInner has => lower inner isInner has ref isThere

end Changes

end Sharing

/-- Instances of value types are not shared. -/
def unsharedDiscipline {image : Image} (built : image.Built) : Discipline image where
  held store owned _ := Sharing.Held image store owned
  known := Sharing.Known image
  known_mono grows known := known.mono grows
  known_plain := Sharing.known_plain
  known_element _ := ⟨nofun, nofun⟩
  known_held held member := held.known _ member
  weaken held fewer _ := held.weaken fewer
  copy held known := held.copy known
  copyField held known knownObject isRef _ := held.copyField known (knownObject.inside _ isRef)
  setText held :=
    have ⟨_, ranked⟩ := held.ranked
    (held.hold (Sharing.known_plain rfl) (by simp)).setField ranked (by simp)
  makesFunctions := True
  allocStruct held _ := held.alloc (.inl rfl) Sharing.known_struct_new
  allocShared held _ shared := held.alloc (.inr rfl) (Sharing.known_ref_new fun _ _ isInstance => by
    cases isInstance
    exact built.isValueHandle_of_isShared shared)
  allocBox held := held.alloc (.inr rfl) (Sharing.known_ref_new fun _ _ => nofun)
  allocArray held _ := held.alloc (.inr rfl) (Sharing.known_ref_new fun _ _ => nofun)
  setStatic held := held.setStatic
  setItem held := held.setItem
  setBytes same held := held.setBytes same
  makeDelegate _ held found := held.makeDelegate found
  setOutput held := ⟨held.ranked, held.known, held.once⟩
  startPinned _ held := held
  repin held _ := held.adjustPins.adjustPins
  unpin held := held.adjustPins

/-! ## Entry calls -/

/-- A host passes no instance of a value type, and refers to objects that exist; the object that it
calls a method of may be an instance of a value type. -/
structure EntryCall.PassesReferences (machine : Machine) (call : EntryCall) : Prop where
  args : ∀ value ∈ call.args, (∀ ref, value ≠ .struct ref) ∧
    Sharing.Known machine.image machine.store.heap value
  receiver : ∀ ref type fields, call.receiver? = some (.ref ref) →
    machine.store.heap.get? ref = some (.instance type fields) →
    machine.image.isValueHandle type = false

/-- The machines that entry calls lead to from a new one. -/
inductive Machine.Served (image : Image) (maxDepth : Nat) : Machine → Prop where
  | start : Served image maxDepth (.start image maxDepth)
  | call {machine later : Machine} {call : EntryCall} {fuel : Nat}
      {answer : Except RunError Value} :
      Served image maxDepth machine → call.PassesReferences machine →
      call.perform machine fuel = some (answer, later) → Served image maxDepth later

/-- Each instance of a value type is in one of some places at most. -/
def Heap.Unshared (image : Image) (heap : Heap) (places : List Value) : Prop :=
  ∀ ref type fields, heap.get? ref = some (.instance type fields) →
    image.isValueHandle type = true →
    places.countP (fun value => value.object? = some ref) ≤ 1

namespace Sharing

variable {image : Image} {store : Store} {owned : List Value}

theorem Held.unshared (held : Held image store owned) :
    store.heap.Unshared image (store.values ++ owned) := by
  intro ref type fields found isValue
  have isStruct : ∀ value ∈ store.values ++ owned,
      decide (value.object? = some ref) = true ↔ (value == .struct ref) = true := by
    intro value member
    rw [decide_eq_true_iff, beq_iff_eq]
    constructor
    · intro isRef
      cases value with
      | ref other =>
          cases isRef
          have isClass := (held.known _ member).shared ref type fields rfl found
          rw [isValue] at isClass
          cases isClass
      | struct other =>
          cases isRef
          rfl
      | _ => cases isRef
    · rintro rfl
      rfl
  rw [List.countP_congr isStruct]
  exact held.once ref ⟨type, fields, found⟩

theorem held_empty (count : Nat) :
    Held image { heap := .empty, statics := Array.replicate count .null, output := "" } [] := by
  have values : ∀ value ∈ Store.values
      { heap := Heap.empty, statics := Array.replicate count Value.null, output := "" } ++ [],
      value = Value.null := by
    simp [Store.values, Heap.values, Heap.empty]
  refine ⟨⟨id, ⟨?_, fun index inside => ?_⟩⟩, fun value member => ?_, ?_⟩
  · rintro ref type fields ⟨⟩
  · cases inside
  · rw [values value member]
    exact known_plain rfl
  · rintro ref ⟨type, fields, ⟨⟩⟩

variable {machine : Machine} {call : EntryCall}

/-- References can be held along with what is there. -/
theorem Held.hold_all (held : Held image store []) {args : List Value}
    (known : ∀ value ∈ args, (∀ ref, value ≠ .struct ref) ∧ Known image store.heap value) :
    Held image store args := by
  induction args with
  | nil => exact held
  | cons value args ih =>
      obtain ⟨⟨other, knownValue⟩, knownArgs⟩ := List.forall_mem_cons.mp known
      exact (ih knownArgs).hold knownValue other

theorem accepts (built : machine.image.Built) (held : Held machine.image machine.store [])
    (passes : call.PassesReferences machine) : (unsharedDiscipline built).Accepts call := by
  refine ⟨⟨held.hold_all passes.args, fun receiver isReceiver hasType => ⟨fun ref isRef => ?_, ?_⟩⟩,
    trivial⟩
  · cases found : machine.store.heap.get? ref with
    | some object => exact Heap.lt_size_of_get? found
    | none =>
        have noType : Store.typeOf? machine.image machine.store.heap receiver = none := by
          cases receiver with
          | ref | struct =>
              cases isRef
              rw [Store.typeOf?, found]
          | _ => cases isRef
        rw [noType] at hasType
        cases hasType
  · rintro ref type fields rfl found
    exact passes.receiver ref type fields isReceiver found

theorem served_held (built : image.Built) {maxDepth : Nat}
    (served : Machine.Served image maxDepth machine) :
    machine.image = image ∧ Held image machine.store [] := by
  induction served with
  | start =>
      have held : (unsharedDiscipline built).held (.initial image) [] [] :=
        Discipline.initial_held held_empty
      exact ⟨rfl, held⟩
  | call served passes replied ih =>
      obtain ⟨rfl, held⟩ := ih
      have heldLater : Held _ _ [] := Discipline.call_held (accepts built held passes) replied
      rw [EntryCall.perform_machine replied]
      exact ⟨rfl, heldLater⟩

end Sharing

/-- Instances of value types are never shared, in a machine that is served and in all that entry
calls of it go through. -/
theorem Machine.instances_unshared {image : Image} (built : image.Built) {maxDepth : Nat}
    {machine : Machine} (served : Machine.Served image maxDepth machine) :
    machine.store.heap.Unshared image machine.store.values ∧
    ∀ call : EntryCall, call.PassesReferences machine →
      ∀ config receivers, call.Visits machine config receivers →
        receivers.length = config.frames.length ∧
        config.store.heap.Unshared image
          (config.store.values ++ Frame.storages config.frames receivers) := by
  obtain ⟨rfl, held⟩ := Sharing.served_held built served
  refine ⟨?_, fun call passes config receivers visits => ?_⟩
  · have unshared := held.unshared
    rwa [List.append_nil] at unshared
  · have fits := Discipline.visits_fits (Sharing.accepts built held passes) visits
    have heldNow : Sharing.Held _ config.store _ := fits.held
    exact ⟨fits.count, (heldNow.weaken (List.sublist_append_right _ _).subperm).unshared⟩

/-- A value type with a field, and a class with two methods that write to it and read what another
local holds: one writes to a copy of it, the other to whatever it is given. -/
def pointing : List Image.Command :=
  [.declareType "Point" .publicValueType none [],
    .declareField ⟨45⟩ "x" .int32 { isPublic := true },
    .sealType ⟨45⟩,
    .declareType "Probe" .publicClass none [],
    .declareMethod ⟨46⟩ "copied" .publicStatic [] .int32,
    .declareMethod ⟨46⟩ "given" .publicStatic [.object] .int32,
    .defineMethod ⟨56⟩
      { instrs := #[.loadLocal 0, .storeLocal 1, .loadLocal 1, .const (.int32 5),
          .storeField ⟨2⟩, .loadLocal 0, .loadField ⟨2⟩, .ret]
        labels := #[]
        locals := #[⟨.declared ⟨45⟩, false⟩, ⟨.declared ⟨45⟩, false⟩]
        regions := [] },
    .defineMethod ⟨57⟩
      { instrs := #[.loadArg 0, .const (.int32 5), .storeField ⟨2⟩, .loadLocal 0,
          .loadField ⟨2⟩, .ret]
        labels := #[]
        locals := #[⟨.declared ⟨45⟩, false⟩]
        regions := [] },
    .sealType ⟨46⟩]

/-- The machine in which they run. -/
def pointingMachine : Machine :=
  .start (pointing.foldl Image.after .library) 10

/-- Three points are there after one was stored: those that the locals started with, and the copy
that the second one holds now. -/
theorem Machine.instances_unshared_copied :
    ∃ config receivers,
      (EntryCall.invokeStatic "Probe" "copied" []).Visits pointingMachine config receivers ∧
      (config.store.heap.get? ⟨2⟩).isSome = true ∧ receivers.length = config.frames.length ∧
      config.store.heap.Unshared (pointing.foldl Image.after .library)
        (config.store.values ++ Frame.storages config.frames receivers) := by
  have evaluates : ((EntryCall.invokeStatic "Probe" "copied" []).visited? pointingMachine 3).any
      (fun visited => (visited.1.store.heap.get? ⟨2⟩).isSome) = true := by decide +kernel
  obtain ⟨⟨config, receivers⟩, visited, hasThird⟩ := (Option.any_eq_true _ _).mp evaluates
  have passes : (EntryCall.invokeStatic "Probe" "copied" []).PassesReferences pointingMachine :=
    ⟨nofun, nofun⟩
  obtain ⟨count, unshared⟩ := (instances_unshared (Image.built_foldl_after pointing) .start).2 _
    passes config receivers ⟨3, visited⟩
  exact ⟨config, receivers, ⟨3, visited⟩, hasThird, count, unshared⟩

/-- A reference to an object that is yet to be made may come to refer to an instance of a value type,
which a local holds as well. -/
theorem Machine.reference_shares_instance :
    ¬ ∀ (image : Image) (maxDepth : Nat) (call : EntryCall), image.Built →
      (∀ value ∈ call.args, (∀ ref, value ≠ .struct ref) ∧
        ∀ ref type fields, value = .ref ref →
          (start image maxDepth).store.heap.get? ref = some (.instance type fields) →
          image.isValueHandle type = false) →
      ∀ config receivers, call.Visits (start image maxDepth) config receivers →
        config.store.heap.Unshared image
          (config.store.values ++ Frame.storages config.frames receivers) := by
  intro unshared
  have evaluates : ((EntryCall.invokeStatic "Probe" "given" [.ref ⟨0⟩]).visited? pointingMachine 1).any
      (fun visited =>
        visited.1.store.heap.get? ⟨0⟩ = some (.instance ⟨45⟩ #[.int32 0]) &&
          1 < (visited.1.store.values ++ Frame.storages visited.1.frames visited.2).countP
            fun value => value.object? = some ⟨0⟩) = true := by decide +kernel
  have isValue : (pointing.foldl Image.after .library).isValueHandle ⟨45⟩ = true := by
    decide +kernel
  have nothing : pointingMachine.store.heap.get? ⟨0⟩ = none := by decide +kernel
  obtain ⟨⟨config, receivers⟩, visited, shares⟩ := (Option.any_eq_true _ _).mp evaluates
  obtain ⟨found, twice⟩ := Bool.and_eq_true_iff.mp shares
  have once := unshared _ 10 (.invokeStatic "Probe" "given" [.ref ⟨0⟩])
    (Image.built_foldl_after pointing) ?_ config receivers ⟨1, visited⟩ ⟨0⟩ ⟨45⟩ #[.int32 0]
    (of_decide_eq_true found) isValue
  · exact Nat.not_lt.mpr once (of_decide_eq_true twice)
  · intro value member
    rw [List.mem_singleton.mp member]
    refine ⟨nofun, ?_⟩
    rintro ref type fields ⟨⟩ found
    cases nothing.symm.trans found

end ClassForge
