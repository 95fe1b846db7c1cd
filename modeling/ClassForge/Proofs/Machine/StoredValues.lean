import ClassForge.Machine.Execute
import ClassForge.Proofs.Image.ImageGrowth
import Mathlib.Data.List.Perm.Subperm

/-!
# What a store holds

The values in a store are the contents of its objects and of the static fields.  Every change
of a store adds an object, or puts a value in the place of another one, so the values after it
are among those before it and the new one.  Objects are never removed and stay what they are,
and a copy of a value consists of new instances.
-/

namespace ClassForge

/-! ## Objects over time -/

/-- An object keeps its kind, its type and its size; only an instance may become a function. -/
inductive HeapObject.Grows : HeapObject → HeapObject → Prop where
  | refl (object : HeapObject) : Grows object object
  | fields {type : TypeHandle} {fields later : Array Value} :
      later.size = fields.size → Grows (.instance type fields) (.instance type later)
  | delegate {type : TypeHandle} {fields : Array Value} {target : Value} {method : MethodHandle} :
      Grows (.instance type fields) (.delegate type target method)
  | bytes {element : RunTy} {prim : Prim} {content later : Array UInt8} {pins laterPins : Nat} :
      later.size = content.size →
      Grows (.array element (.bytes prim content) pins) (.array element (.bytes prim later) laterPins)
  | items {element : RunTy} {items later : Array Value} {pins laterPins : Nat} :
      later.size = items.size →
      Grows (.array element (.values items) pins) (.array element (.values later) laterPins)

theorem HeapObject.Grows.trans {first second third : HeapObject} (early : first.Grows second)
    (late : second.Grows third) : first.Grows third := by
  cases early with
  | refl => exact late
  | fields same =>
      cases late with
      | refl => exact .fields same
      | fields alsoSame => exact .fields (alsoSame.trans same)
      | delegate => exact .delegate
  | delegate =>
      cases late
      exact .delegate
  | bytes same =>
      cases late with
      | refl => exact .bytes same
      | bytes alsoSame => exact .bytes (alsoSame.trans same)
  | items same =>
      cases late with
      | refl => exact .items same
      | items alsoSame => exact .items (alsoSame.trans same)

namespace Heap

variable {heap later : Heap} {ref : ObjRef} {object : HeapObject}

/-- Every object is still there. -/
def Grows (heap later : Heap) : Prop :=
  Persists HeapObject.Grows heap.objects later.objects

theorem Grows.refl (heap : Heap) : heap.Grows heap :=
  Persists.refl .refl _

theorem Grows.trans {first second third : Heap} (early : first.Grows second)
    (late : second.Grows third) : first.Grows third :=
  Persists.trans .trans early late

theorem Grows.get? (grows : heap.Grows later) (found : heap.get? ref = some object) :
    ∃ after, later.get? ref = some after ∧ object.Grows after :=
  grows ref.index object found

theorem Grows.size_le (grows : heap.Grows later) : heap.size ≤ later.size :=
  Persists.size_le grows

theorem grows_alloc (heap : Heap) (object : HeapObject) : heap.Grows (heap.alloc object).2 :=
  (Persists.refl .refl _).push object

theorem grows_modify {change : HeapObject → HeapObject}
    (grows : ∀ object, heap.get? ref = some object → object.Grows (change object)) :
    heap.Grows (heap.modify ref change) :=
  .modify .refl grows

theorem lt_size_of_get? (found : heap.get? ref = some object) : ref.index < heap.size :=
  (Array.getElem?_eq_some_iff.mp found).1

theorem get?_of_lt_size (inside : ref.index < heap.size) : ∃ object, heap.get? ref = some object :=
  ⟨_, Array.getElem?_eq_getElem inside⟩

theorem size_alloc : (heap.alloc object).2.size = heap.size + 1 :=
  Array.size_push _

theorem size_modify {change : HeapObject → HeapObject} : (heap.modify ref change).size = heap.size :=
  Array.size_modify ..

theorem get?_alloc : (heap.alloc object).2.get? ref =
    if ref.index = heap.size then some object else heap.get? ref := by
  rw [get?, alloc, Array.getElem?_push]
  rfl

theorem get?_modify {other : ObjRef} {change : HeapObject → HeapObject} :
    (heap.modify ref change).get? other =
      if ref = other then (heap.get? other).map change else heap.get? other := by
  rw [get?, modify, Array.getElem?_modify]
  by_cases same : ref = other
  · rw [if_pos same, if_pos (congrArg ObjRef.index same)]
    rfl
  · rw [if_neg same, if_neg fun sameIndex => same (congrArg ObjRef.mk sameIndex)]
    rfl

end Heap

/-! ## Values in lists -/

theorem List.set_subperm_cons {α : Type} (items : List α) (index : Nat) (value : α) :
    (items.set index value).Subperm (value :: items) := by
  induction items generalizing index with
  | nil => exact List.nil_subperm
  | cons item items ih =>
      cases index with
      | zero => exact ((List.sublist_cons_self item items).cons_cons value).subperm
      | succ index => exact ((List.subperm_cons item).mpr (ih index)).trans (List.Perm.swap value item items).subperm

theorem List.flatMap_modify_subperm {α β : Type} {values : α → List β} {extra : List β}
    {change : α → α} (items : List α) (index : Nat)
    (adds : ∀ item, items[index]? = some item →
      (values (change item)).Subperm (extra ++ values item)) :
    ((items.modify index change).flatMap values).Subperm (extra ++ items.flatMap values) := by
  induction items generalizing index with
  | nil => simp
  | cons item items ih =>
      cases index with
      | zero =>
          rw [List.modify_zero_cons, List.flatMap_cons, List.flatMap_cons, ← List.append_assoc]
          exact (adds item rfl).append (List.Subperm.refl _)
      | succ index =>
          rw [List.modify_succ_cons, List.flatMap_cons, List.flatMap_cons]
          refine ((List.Subperm.refl _).append (ih index adds)).trans ?_
          rw [← List.append_assoc, ← List.append_assoc]
          exact (List.perm_append_comm.append_right _).subperm

/-! ## Values in a store -/

/-- The values that an object holds. -/
def HeapObject.values : HeapObject → List Value
  | .instance _ fields => fields.toList
  | .boxed _ value => [value]
  | .array _ (.bytes _ _) _ => []
  | .array _ (.values items) _ => items.toList
  | .delegate _ target _ => [target]

/-- The contents of all objects. -/
def Heap.values (heap : Heap) : List Value :=
  heap.objects.toList.flatMap HeapObject.values

/-- The values that a store holds, those of static fields last. -/
def Store.values (store : Store) : List Value :=
  store.heap.values ++ store.statics.toList

namespace Heap

variable {heap : Heap} {ref : ObjRef} {object : HeapObject} {value : Value}

theorem mem_values (found : heap.get? ref = some object) (holds : value ∈ object.values) :
    value ∈ heap.values :=
  List.mem_flatMap.mpr
    ⟨object, Array.mem_toList_iff.mpr (Array.mem_of_getElem? found), holds⟩

theorem values_alloc : (heap.alloc object).2.values = heap.values ++ object.values := by
  simp [values, alloc]

theorem values_modify {extra : List Value} {change : HeapObject → HeapObject}
    (adds : ∀ object, heap.get? ref = some object →
      (change object).values.Subperm (extra ++ object.values)) :
    (heap.modify ref change).values.Subperm (extra ++ heap.values) := by
  rw [values, modify, Array.toList_modify]
  refine List.flatMap_modify_subperm _ _ fun object found => adds object ?_
  rw [get?, ← Array.getElem?_toList]
  exact found

theorem values_setField {slot : Nat} :
    (heap.setField ref slot value).values.Subperm (value :: heap.values) := by
  refine @values_modify _ _ [value] _ fun object _ => ?_
  cases object with
  | «instance» type fields =>
      simp only [HeapObject.values, Array.toList_setIfInBounds]
      exact List.set_subperm_cons _ _ _
  | _ => exact (List.sublist_cons_self _ _).subperm

/-- Replace an element of an array of values; anything else stays as it is. -/
def setItem (heap : Heap) (ref : ObjRef) (index : Nat) (value : Value) : Heap :=
  heap.modify ref fun
    | .array element (.values items) pins =>
        .array element (.values (items.setIfInBounds index value)) pins
    | object => object

theorem values_setItem {index : Nat} :
    (heap.setItem ref index value).values.Subperm (value :: heap.values) := by
  refine @values_modify _ _ [value] _ fun object _ => ?_
  split
  · simp only [HeapObject.values, Array.toList_setIfInBounds]
    exact List.set_subperm_cons _ _ _
  · exact (List.sublist_cons_self _ _).subperm

theorem values_makeDelegate {type : TypeHandle} {method : MethodHandle} :
    (heap.modify ref fun _ => .delegate type value method).values.Subperm
      (value :: heap.values) := by
  refine @values_modify _ _ [value] _ fun object _ => ?_
  exact ((List.nil_sublist _).cons_cons value).subperm

/-- A change of objects that leaves their values alone. -/
theorem values_modify_eq {change : HeapObject → HeapObject}
    (same : ∀ object, (change object).values = object.values) :
    (heap.modify ref change).values = heap.values := by
  rw [values, values, modify, Array.toList_modify]
  generalize heap.objects.toList = objects
  induction objects generalizing ref with
  | nil => simp
  | cons object objects ih =>
      obtain ⟨index⟩ := ref
      cases index with
      | zero => simp [same]
      | succ index => simpa using @ih ⟨index⟩

theorem values_setBytes {change : Array UInt8 → Array UInt8} :
    (Memory.setBytes heap ref change).values = heap.values := by
  refine values_modify_eq fun object => ?_
  split <;> rfl

theorem values_adjustPins {change : Nat → Nat} :
    (Memory.adjustPins heap value change).values = heap.values := by
  unfold Memory.adjustPins
  split
  · refine values_modify_eq fun object => ?_
    cases object with
    | array element data pins => cases data <;> rfl
    | _ => rfl
  · rfl

/-! ## Growth of the changes -/

theorem grows_setField {slot : Nat} : heap.Grows (heap.setField ref slot value) := by
  refine grows_modify fun object _ => ?_
  split
  · exact .fields (Array.size_setIfInBounds ..)
  · exact .refl _

theorem grows_setItem {index : Nat} : heap.Grows (heap.setItem ref index value) := by
  refine grows_modify fun object _ => ?_
  split
  · exact .items (Array.size_setIfInBounds ..)
  · exact .refl _

theorem grows_makeDelegate {type : TypeHandle} {fields : Array Value} {method : MethodHandle}
    (isInstance : heap.get? ref = some (.instance type fields)) :
    heap.Grows (heap.modify ref fun _ => .delegate type value method) := by
  refine grows_modify fun object found => ?_
  obtain rfl := Option.some.inj (isInstance.symm.trans found)
  exact .delegate

theorem grows_setBytes {change : Array UInt8 → Array UInt8}
    (same : ∀ bytes, (change bytes).size = bytes.size) :
    heap.Grows (Memory.setBytes heap ref change) := by
  refine grows_modify fun object _ => ?_
  split
  · exact .bytes (same _)
  · exact .refl _

theorem grows_adjustPins {change : Nat → Nat} :
    heap.Grows (Memory.adjustPins heap value change) := by
  unfold Memory.adjustPins
  split
  · refine grows_modify fun object _ => ?_
    cases object with
    | array element data pins =>
        cases data with
        | bytes => exact .bytes rfl
        | values => exact .items rfl
    | _ => exact .refl _
  · exact .refl heap

end Heap

/-! ## Raw memory -/

namespace Memory

variable {heap later : Heap}

theorem size_overwrite (bytes : Array UInt8) (offset : Nat) (data : List UInt8) :
    (overwrite bytes offset data).size = bytes.size := by
  induction data generalizing bytes offset with
  | nil => rfl
  | cons byte data ih =>
      rw [overwrite, ih, Array.size_setIfInBounds]

/-- A change of raw memory overwrites bytes of one array. -/
def Overwrites (heap later : Heap) : Prop :=
  ∃ array offset data, later = setBytes heap array fun bytes => overwrite bytes offset data

theorem store?_overwrites {address : Int64} {prim : Prim} {value : Value}
    (done : store? heap address prim value = some later) : Overwrites heap later := by
  simp only [store?, Option.bind_eq_bind, Option.bind_eq_some_iff] at done
  obtain ⟨⟨array, bytes, offset⟩, -, word, -, changed⟩ := done
  exact ⟨array, offset, _, (Option.some.inj changed).symm⟩

theorem copy?_overwrites {target source : Int64} {count : Nat}
    (done : copy? heap target source count = some later) : Overwrites heap later := by
  simp only [copy?, Option.bind_eq_bind, Option.bind_eq_some_iff] at done
  obtain ⟨⟨_, bytes, start⟩, -, ⟨array, _, offset⟩, -, changed⟩ := done
  exact ⟨array, offset, _, (Option.some.inj changed).symm⟩

theorem fill?_overwrites {target : Int64} {byte : UInt8} {count : Nat}
    (done : fill? heap target byte count = some later) : Overwrites heap later := by
  simp only [fill?, Option.bind_eq_bind, Option.bind_eq_some_iff] at done
  obtain ⟨⟨array, bytes, offset⟩, -, changed⟩ := done
  exact ⟨array, offset, _, (Option.some.inj changed).symm⟩

end Memory

/-! ## Copies -/

namespace Heap

/-- A heap with more objects. -/
def append (heap : Heap) (fresh : List HeapObject) : Heap :=
  ⟨heap.objects ++ fresh.toArray⟩

/-- An object that has fields. -/
def HasFields (heap : Heap) (ref : ObjRef) : Prop :=
  ∃ type fields, heap.get? ref = some (.instance type fields)

variable {heap : Heap} {fresh more : List HeapObject} {ref : ObjRef}

theorem append_nil : heap.append [] = heap := by
  simp [append]

theorem append_append : (heap.append fresh).append more = heap.append (fresh ++ more) := by
  simp [append]

theorem append_singleton {object : HeapObject} : heap.append [object] = (heap.alloc object).2 := by
  simp [append, alloc]

theorem size_append : (heap.append fresh).size = heap.size + fresh.length := by
  simp [append, size]

theorem values_append :
    (heap.append fresh).values = heap.values ++ fresh.flatMap HeapObject.values := by
  simp [append, values]

theorem get?_append_of_lt (inside : ref.index < heap.size) :
    (heap.append fresh).get? ref = heap.get? ref :=
  Array.getElem?_append_left inside

theorem get?_append_add (index : Nat) :
    (heap.append fresh).get? ⟨heap.size + index⟩ = fresh[index]? := by
  have beyond : heap.objects.size ≤ heap.size + index := Nat.le_add_right _ _
  simp only [get?, append, Array.getElem?_append_right beyond]
  simp [size]

theorem grows_append (heap : Heap) (fresh : List HeapObject) : heap.Grows (heap.append fresh) := by
  intro index object found
  refine ⟨object, ?_, .refl object⟩
  obtain ⟨inside, -⟩ := Array.getElem?_eq_some_iff.mp found
  exact (Array.getElem?_append_left inside).trans found

/-- What copying some values gives, and the objects that are added for it: they are instances,
and hold what was there before and references to each other. -/
structure Copied (heap : Heap) (sources copies : List Value) (fresh : List HeapObject) : Prop where
  length : copies.length = sources.length
  /-- Each new instance has the type and the size of one that was there before. -/
  shapes : ∀ object ∈ fresh, ∃ type fields, object = .instance type fields ∧
    ∃ ref original, heap.get? ref = some (.instance type original) ∧ fields.size = original.size
  origin : ∀ value ∈ copies ++ fresh.flatMap HeapObject.values,
    value ∈ sources ∨ value ∈ heap.values ∨
      ∃ ref : ObjRef, value = .struct ref ∧ heap.size ≤ ref.index ∧
        ref.index < heap.size + fresh.length

theorem Copied.instances {sources copies : List Value} (copied : heap.Copied sources copies fresh)
    {object : HeapObject} (member : object ∈ fresh) : ∃ type fields, object = .instance type fields := by
  obtain ⟨type, fields, isInstance, -⟩ := copied.shapes object member
  exact ⟨type, fields, isInstance⟩

theorem Copied.refl (heap : Heap) (sources : List Value) : heap.Copied sources sources [] :=
  ⟨rfl, nofun, fun value member => .inl (by simpa using member)⟩

theorem Copied.append {first rest firstCopies restCopies : List Value}
    (early : heap.Copied first firstCopies fresh)
    (late : (heap.append fresh).Copied rest restCopies more) :
    heap.Copied (first ++ rest) (firstCopies ++ restCopies) (fresh ++ more) := by
  have ofEarly : ∀ value ∈ firstCopies ++ fresh.flatMap HeapObject.values,
      value ∈ first ++ rest ∨ value ∈ heap.values ∨
        ∃ ref : ObjRef, value = .struct ref ∧ heap.size ≤ ref.index ∧
          ref.index < heap.size + (fresh ++ more).length := by
    intro value member
    rcases early.origin value member with source | held | ⟨ref, isRef, lower, upper⟩
    · exact .inl (List.mem_append_left _ source)
    · exact .inr (.inl held)
    · refine .inr (.inr ⟨ref, isRef, lower, ?_⟩)
      rw [List.length_append]
      omega
  refine ⟨?_, fun object member => ?_, fun value member => ?_⟩
  · rw [List.length_append, List.length_append, early.length, late.length]
  · rcases List.mem_append.mp member with isEarly | isLate
    · exact early.shapes object isEarly
    · obtain ⟨type, fields, isInstance, ref, original, found, sameSize⟩ := late.shapes object isLate
      by_cases inside : ref.index < heap.size
      · rw [get?_append_of_lt inside] at found
        exact ⟨type, fields, isInstance, ref, original, found, sameSize⟩
      · -- The copied instance is itself one of the new ones.
        obtain ⟨position, isBeyond⟩ := Nat.exists_eq_add_of_le (Nat.le_of_not_lt inside)
        obtain ⟨index⟩ := ref
        obtain rfl : index = heap.size + position := isBeyond
        rw [get?_append_add] at found
        obtain ⟨_, _, isFirst, ref, first, foundFirst, sameFirst⟩ :=
          early.shapes _ (List.mem_of_getElem? found)
        cases isFirst
        exact ⟨type, fields, isInstance, ref, first, foundFirst, sameSize.trans sameFirst⟩
  · simp only [List.flatMap_append, List.mem_append] at member
    rcases member with (isFirst | isRest) | (isFresh | isMore)
    · exact ofEarly value (List.mem_append_left _ isFirst)
    rotate_left
    · exact ofEarly value (List.mem_append_right _ isFresh)
    all_goals
      have origin := late.origin value (by simp [*])
      rw [values_append, List.mem_append, size_append] at origin
      rcases origin with source | (held | isFresh) | ⟨ref, isRef, lower, upper⟩
      · exact .inl (List.mem_append_right _ source)
      · exact .inr (.inl held)
      · exact ofEarly value (List.mem_append_right _ isFresh)
      · refine .inr (.inr ⟨ref, isRef, by omega, ?_⟩)
        rw [List.length_append]
        omega

/-- An instance is copied after its fields. -/
theorem Copied.alloc {type : TypeHandle} {fields : Array Value} {copies : List Value}
    {source : Value} (found : heap.get? ref = some (.instance type fields))
    (copied : heap.Copied fields.toList copies fresh) :
    heap.Copied [source] [.struct ⟨(heap.append fresh).size⟩]
      (fresh ++ [HeapObject.instance type copies.toArray]) := by
  refine ⟨rfl, fun object member => ?_, fun value member => ?_⟩
  · rcases List.mem_append.mp member with isFresh | isLast
    · exact copied.shapes object isFresh
    · exact ⟨type, _, List.mem_singleton.mp isLast, ref, fields, found,
        copied.length.trans Array.length_toList⟩
  · rw [List.length_append, List.length_singleton]
    simp only [List.flatMap_append, List.mem_append, List.mem_singleton, List.flatMap_singleton,
      HeapObject.values] at member
    rcases member with rfl | isFresh | isCopy
    · rw [size_append]
      exact .inr (.inr ⟨_, rfl, Nat.le_add_right _ _, Nat.lt_succ_self _⟩)
    all_goals
      rcases copied.origin value (by simp [*]) with source | isHeld | ⟨ref, isRef, lower, upper⟩
      · exact .inr (.inl (mem_values found source))
      · exact .inr (.inl isHeld)
      · exact .inr (.inr ⟨ref, isRef, lower, by omega⟩)

/-- Copying values one after the other. -/
theorem run_mapM_copied {copy : Value → StateM Heap Value}
    (each : ∀ heap value, ∃ copied fresh, (copy value).run heap = (copied, heap.append fresh) ∧
      heap.Copied [value] [copied] fresh) (heap : Heap) (values : List Value) :
    ∃ copies fresh, (values.mapM copy).run heap = (copies, heap.append fresh) ∧
      heap.Copied values copies fresh := by
  induction values generalizing heap with
  | nil => exact ⟨[], [], by rw [append_nil]; rfl, .refl heap []⟩
  | cons value values ih =>
      obtain ⟨copied, fresh, ran, isCopied⟩ := each heap value
      obtain ⟨copies, more, ranRest, areCopied⟩ := ih (heap.append fresh)
      refine ⟨copied :: copies, fresh ++ more, ?_, isCopied.append areCopied⟩
      have unfolded : ((value :: values).mapM copy).run heap =
          let (first, between) := (copy value).run heap
          let (rest, later) := (values.mapM copy).run between
          (first :: rest, later) := by
        rw [List.mapM_cons]
        rfl
      rw [unfolded, ran, ← append_append]
      dsimp only
      rw [ranRest]

/-- Copying an instance copies its fields first. -/
theorem run_copyUpTo_instance {bound : Nat} {type : TypeHandle} {fields : Array Value}
    {copies : List Value} {later : Heap} (found : heap.get? ref = some (.instance type fields))
    (ran : (fields.toList.mapM (copyUpTo bound)).run heap = (copies, later)) :
    (copyUpTo (bound + 1) (.struct ref)).run heap =
      (.struct ⟨later.size⟩, (later.alloc (.instance type copies.toArray)).2) := by
  rw [copyUpTo, StateT.run_bind, StateT.run_get]
  simp only [pure_bind, found]
  rw [StateT.run_bind, ran]
  rfl

/-- Values other than instances of value types are their own copies. -/
theorem run_copyUpTo_itself {bound : Nat} {value : Value}
    (other : ∀ ref, value = .struct ref → ¬ heap.HasFields ref) :
    (copyUpTo bound value).run heap = (value, heap) := by
  cases bound with
  | zero => rfl
  | succ bound =>
      cases value with
      | struct ref =>
          rw [copyUpTo, StateT.run_bind, StateT.run_get, pure_bind]
          split
          · rename_i type fields found
            exact (other ref rfl ⟨type, fields, found⟩).elim
          · rfl
      | _ => rfl

/-- A copy of a value is the value itself or a new instance. -/
theorem run_copyUpTo (bound : Nat) (heap : Heap) (value : Value) :
    ∃ copied fresh, (copyUpTo bound value).run heap = (copied, heap.append fresh) ∧
      heap.Copied [value] [copied] fresh := by
  induction bound generalizing heap value with
  | zero => exact ⟨value, [], by rw [append_nil]; rfl, .refl heap [value]⟩
  | succ bound ih =>
      by_cases isInstance : ∃ ref, value = .struct ref ∧ heap.HasFields ref
      · obtain ⟨ref, rfl, type, fields, found⟩ := isInstance
        obtain ⟨copies, fresh, ran, copied⟩ := run_mapM_copied ih heap fields.toList
        refine ⟨_, fresh ++ [HeapObject.instance type copies.toArray], ?_, copied.alloc found⟩
        rw [run_copyUpTo_instance found ran, ← append_append, append_singleton]
      · refine ⟨value, [], ?_, .refl heap [value]⟩
        rw [append_nil]
        exact run_copyUpTo_itself fun ref isRef hasFields => isInstance ⟨ref, isRef, hasFields⟩

end Heap

end ClassForge
