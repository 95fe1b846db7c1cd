import ClassForge.Proofs.Machine.StoredValues
import Mathlib.Data.List.Nodup
import Mathlib.Logic.Relation

/-!
# Deep copies and defaults

A copy of an instance of a value type shares no instance with what is there already, provided that
instances contain each other to a bounded depth: it consists of new instances, and each of them is
in one place of the copy.  How deep an instance nests is told by its rank, which goes down from an
instance to those in its fields.  The default of a value type is settled unless a value type that
it holds contains itself.
-/

namespace ClassForge

namespace Heap

/-- Instances contain instances of lower rank only. -/
def Nested (heap : Heap) (rank : Nat → Nat) : Prop :=
  ∀ ref type fields, heap.get? ref = some (.instance type fields) →
    ∀ inner, .struct inner ∈ fields.toList → heap.HasFields inner → rank inner.index < rank ref.index

/-- The values that copying gives consist of new instances: none of those that were there is in
them, every new one is in one place at most, and new ones contain earlier ones. -/
structure Fresh (heap : Heap) (copies : List Value) (fresh : List HeapObject) : Prop where
  instances : ∀ object ∈ fresh, ∃ type fields, object = .instance type fields
  apart : ∀ ref, heap.HasFields ref → .struct ref ∉ copies ++ fresh.flatMap HeapObject.values
  once : ∀ index < fresh.length,
    (copies ++ fresh.flatMap HeapObject.values).count (.struct ⟨heap.size + index⟩) ≤ 1
  inside : ∀ ref, .struct ref ∈ copies ++ fresh.flatMap HeapObject.values →
    ref.index < heap.size + fresh.length
  earlier : ∀ index type fields, fresh[index]? = some (.instance type fields) →
    ∀ inner, .struct inner ∈ fields.toList → inner.index < heap.size + index

variable {heap : Heap} {fresh more : List HeapObject} {copies rest : List Value} {ref : ObjRef}

theorem HasFields.lt_size (has : heap.HasFields ref) : ref.index < heap.size :=
  have ⟨_, _, found⟩ := has
  lt_size_of_get? found

theorem HasFields.append (has : heap.HasFields ref) : (heap.append fresh).HasFields ref := by
  obtain ⟨type, fields, found⟩ := has
  exact ⟨type, fields, (get?_append_of_lt (lt_size_of_get? found)).trans found⟩

theorem HasFields.of_append (has : (heap.append fresh).HasFields ref)
    (inside : ref.index < heap.size) : heap.HasFields ref := by
  obtain ⟨type, fields, found⟩ := has
  exact ⟨type, fields, (get?_append_of_lt inside).symm.trans found⟩

namespace Fresh

/-- The new instances are instances of the later heap. -/
theorem hasFields (isFresh : heap.Fresh copies fresh) {index : Nat} (isNew : index < fresh.length) :
    (heap.append fresh).HasFields ⟨heap.size + index⟩ := by
  obtain ⟨type, fields, isInstance⟩ := isFresh.instances _ (List.getElem_mem isNew)
  exact ⟨type, fields, by rw [get?_append_add, List.getElem?_eq_getElem isNew, isInstance]⟩

/-- A value that is no instance is its own copy. -/
theorem itself {value : Value} (other : ∀ ref, value = .struct ref → ¬ heap.HasFields ref)
    (inside : ∀ ref, value = .struct ref → ref.index < heap.size) : heap.Fresh [value] [] where
  instances := nofun
  apart ref has member := other ref (List.mem_singleton.mp member).symm has
  once := nofun
  inside ref member := inside ref (List.mem_singleton.mp member).symm
  earlier := nofun

theorem nil : heap.Fresh [] [] where
  instances := nofun
  apart := nofun
  once := nofun
  inside := nofun
  earlier := nofun

/-- Copies of some values, and of more values in the later heap. -/
theorem append (first : heap.Fresh copies fresh) (second : (heap.append fresh).Fresh rest more) :
    heap.Fresh (copies ++ rest) (fresh ++ more) := by
  have shuffled : ((copies ++ rest) ++ (fresh ++ more).flatMap HeapObject.values).Perm
      ((copies ++ fresh.flatMap HeapObject.values) ++
        (rest ++ more.flatMap HeapObject.values)) := by
    rw [List.flatMap_append, List.append_assoc, List.append_assoc]
    exact (List.perm_append_comm_assoc ..).append_left copies
  have size : (heap.append fresh).size = heap.size + fresh.length := size_append
  constructor
  · exact List.forall_mem_append.mpr ⟨first.instances, second.instances⟩
  · intro ref has member
    rcases List.mem_append.mp (shuffled.mem_iff.mp member) with inFirst | inSecond
    · exact first.apart ref has inFirst
    · exact second.apart ref has.append inSecond
  · intro index isNew
    rw [shuffled.count_eq, List.count_append]
    rw [List.length_append] at isNew
    by_cases isEarly : index < fresh.length
    · rw [List.count_eq_zero_of_not_mem (second.apart _ (first.hasFields isEarly))]
      exact first.once index isEarly
    · have onlyFirst : Value.struct ⟨heap.size + index⟩ ∉
          copies ++ fresh.flatMap HeapObject.values := fun member =>
        isEarly (Nat.lt_of_add_lt_add_left (first.inside _ member))
      obtain ⟨late, rfl⟩ := Nat.exists_eq_add_of_le (Nat.le_of_not_lt isEarly)
      have one := second.once late (by omega)
      rw [size] at one
      rwa [List.count_eq_zero_of_not_mem onlyFirst, Nat.zero_add, ← Nat.add_assoc]
  · intro ref member
    rw [List.length_append]
    rcases List.mem_append.mp (shuffled.mem_iff.mp member) with inFirst | inSecond
    · have := first.inside ref inFirst
      omega
    · have := second.inside ref inSecond
      omega
  · intro index type fields found inner member
    by_cases isEarly : index < fresh.length
    · rw [List.getElem?_append_left isEarly] at found
      exact first.earlier index type fields found inner member
    · rw [List.getElem?_append_right (Nat.le_of_not_lt isEarly)] at found
      have := second.earlier _ type fields found inner member
      omega

/-- An instance is copied after its fields. -/
theorem alloc {type : TypeHandle} (isFresh : heap.Fresh copies fresh) :
    heap.Fresh [.struct ⟨heap.size + fresh.length⟩]
      (fresh ++ [HeapObject.instance type copies.toArray]) := by
  have shuffled : ([Value.struct ⟨heap.size + fresh.length⟩] ++
      (fresh ++ [HeapObject.instance type copies.toArray]).flatMap HeapObject.values).Perm
      (.struct ⟨heap.size + fresh.length⟩ :: (copies ++ fresh.flatMap HeapObject.values)) := by
    rw [List.flatMap_append, List.flatMap_singleton, HeapObject.values, List.singleton_append,
      List.toList_toArray]
    exact List.perm_append_comm.cons _
  constructor
  · exact List.forall_mem_append.mpr ⟨isFresh.instances, by simp⟩
  · intro ref has member
    rcases List.mem_cons.mp (shuffled.mem_iff.mp member) with isRoot | inCopies
    · cases isRoot
      exact absurd has.lt_size (by simp)
    · exact isFresh.apart ref has inCopies
  · intro index isNew
    rw [shuffled.count_eq, List.count_cons]
    rw [List.length_append, List.length_singleton] at isNew
    by_cases isEarly : index < fresh.length
    · have other : ((Value.struct ⟨heap.size + fresh.length⟩) == .struct ⟨heap.size + index⟩) =
          false := by
        simp only [beq_eq_false_iff_ne, ne_eq, Value.struct.injEq, ObjRef.mk.injEq]
        omega
      rw [other]
      exact isFresh.once index isEarly
    · obtain rfl : index = fresh.length := by omega
      have onlyRoot : Value.struct ⟨heap.size + fresh.length⟩ ∉
          copies ++ fresh.flatMap HeapObject.values := fun member =>
        Nat.lt_irrefl _ (isFresh.inside _ member)
      rw [List.count_eq_zero_of_not_mem onlyRoot]
      simp
  · intro ref member
    rw [List.length_append, List.length_singleton]
    rcases List.mem_cons.mp (shuffled.mem_iff.mp member) with isRoot | inCopies
    · cases isRoot
      simp
    · have := isFresh.inside ref inCopies
      omega
  · intro index other fields found inner member
    by_cases isEarly : index < fresh.length
    · rw [List.getElem?_append_left isEarly] at found
      exact isFresh.earlier index other fields found inner member
    · obtain rfl : index = fresh.length := by
        have := (List.getElem?_eq_some_iff.mp found).1
        simp only [List.length_append, List.length_singleton] at this
        omega
      rw [List.getElem?_append_right (Nat.le_refl _), Nat.sub_self] at found
      cases found
      exact isFresh.inside inner (List.mem_append_left _ member)

end Fresh

/-! ## Copying -/

section Copying

variable {rank : Nat → Nat} {bound : Nat}

/-- A value that is there, with an instance of low rank if it is one. -/
structure Shallow (heap : Heap) (rank : Nat → Nat) (bound : Nat) (value : Value) : Prop where
  inside : ∀ ref, value = .struct ref → ref.index < heap.size
  below : ∀ ref, value = .struct ref → heap.HasFields ref → rank ref.index < bound

/-- An action copies a value in the heap and in any that has more objects. -/
def CopiesFresh (heap : Heap) (copy : Value → StateM Heap Value) (value : Value) : Prop :=
  ∀ done, ∃ copied fresh, (copy value).run (heap.append done) =
      (copied, (heap.append done).append fresh) ∧ (heap.append done).Fresh [copied] fresh

theorem run_mapM_fresh {copy : Value → StateM Heap Value} {values : List Value}
    (each : ∀ value ∈ values, heap.CopiesFresh copy value) (done : List HeapObject) :
    ∃ copies fresh, (values.mapM copy).run (heap.append done) =
        (copies, (heap.append done).append fresh) ∧
      (heap.append done).Fresh copies fresh := by
  induction values generalizing done with
  | nil => exact ⟨[], [], by rw [append_nil]; rfl, .nil⟩
  | cons value values ih =>
      obtain ⟨eachFirst, eachRest⟩ := List.forall_mem_cons.mp each
      obtain ⟨copied, fresh, ran, isFresh⟩ := eachFirst done
      obtain ⟨copies, more, ranRest, areFresh⟩ := ih eachRest (done ++ fresh)
      rw [← append_append] at ranRest areFresh
      refine ⟨copied :: copies, fresh ++ more, ?_, isFresh.append areFresh⟩
      have unfolded : ((value :: values).mapM copy).run (heap.append done) =
          let (first, between) := (copy value).run (heap.append done)
          let (rest, later) := (values.mapM copy).run between
          (first :: rest, later) := by
        rw [List.mapM_cons]
        rfl
      rw [unfolded, ran, ← append_append]
      dsimp only
      rw [ranRest]

theorem copyUpTo_fresh (nested : heap.Nested rank)
    (known : ∀ ref, .struct ref ∈ heap.values → ref.index < heap.size) (bound : Nat) (value : Value)
    (shallow : heap.Shallow rank bound value) : heap.CopiesFresh (copyUpTo bound) value := by
  induction bound generalizing value with
  | zero =>
      intro done
      have other : ∀ ref, value = .struct ref → ¬ (heap.append done).HasFields ref :=
        fun ref isRef has =>
          Nat.not_lt_zero _ (shallow.below ref isRef (has.of_append (shallow.inside ref isRef)))
      refine ⟨value, [], ?_, .itself other fun ref isRef => ?_⟩
      · rw [append_nil]
        exact run_copyUpTo_itself other
      · exact Nat.lt_of_lt_of_le (shallow.inside ref isRef) (grows_append heap done).size_le
  | succ bound ih =>
      intro done
      by_cases isInstance : ∃ ref, value = .struct ref ∧ heap.HasFields ref
      · obtain ⟨ref, rfl, type, fields, found⟩ := isInstance
        have each : ∀ field ∈ fields.toList, heap.CopiesFresh (copyUpTo bound) field := by
          intro field member
          refine ih field ⟨fun inner isRef => ?_, fun inner isRef has => ?_⟩
          · exact known inner (isRef ▸ mem_values found member)
          · have lower := nested ref type fields found inner (isRef ▸ member) has
            have := shallow.below ref rfl ⟨type, fields, found⟩
            omega
        obtain ⟨copies, fresh, ran, areFresh⟩ := run_mapM_fresh each done
        have foundLater : (heap.append done).get? ref = some (.instance type fields) :=
          (get?_append_of_lt (lt_size_of_get? found)).trans found
        refine ⟨_, fresh ++ [HeapObject.instance type copies.toArray], ?_, areFresh.alloc⟩
        rw [run_copyUpTo_instance foundLater ran, ← append_append, append_singleton, size_append]
      · have other : ∀ ref, value = .struct ref → ¬ (heap.append done).HasFields ref :=
          fun ref isRef has => isInstance ⟨ref, isRef, has.of_append (shallow.inside ref isRef)⟩
        refine ⟨value, [], ?_, .itself other fun ref isRef => ?_⟩
        · rw [append_nil]
          exact run_copyUpTo_itself other
        · exact Nat.lt_of_lt_of_le (shallow.inside ref isRef) (grows_append heap done).size_le

/-- Ranks that are below the number of objects bound how deep a copy goes. -/
theorem copy_fresh (nested : heap.Nested rank) (ranked : ∀ index < heap.size, rank index < heap.size)
    (known : ∀ ref, .struct ref ∈ heap.values → ref.index < heap.size) (value : Value)
    (isThere : ∀ ref, value = .struct ref → ref.index < heap.size) :
    ∃ copied fresh, heap.copy value = (copied, heap.append fresh) ∧
      heap.Fresh [copied] fresh ∧ heap.Copied [value] [copied] fresh := by
  have shallow : heap.Shallow rank (heap.size + 1) value :=
    ⟨isThere, fun ref isRef _ => Nat.lt_succ_of_lt (ranked _ (isThere ref isRef))⟩
  obtain ⟨copied, fresh, ran, isFresh⟩ := copyUpTo_fresh nested known _ value shallow []
  obtain ⟨same, sameFresh, ranSame, isCopied⟩ := run_copyUpTo (heap.size + 1) heap value
  rw [append_nil] at ran isFresh
  obtain ⟨rfl, sameHeap⟩ := Prod.mk.inj (ran.symm.trans ranSame)
  have sameObjects : fresh = sameFresh := by
    have sameLists := congrArg (fun later => later.objects.toList) sameHeap
    simpa [append] using sameLists
  subst sameObjects
  exact ⟨copied, fresh, ran, isFresh, isCopied⟩

end Copying

end Heap

/-! ## Defaults of value types -/

open Relation

/-- A field of a value type holds instances of another one. -/
def Image.Contains (image : Image) (outer inner : TypeHandle) : Prop :=
  image.isValueHandle outer = true ∧ ∃ info ∈ image.lineage outer,
    ∃ field ∈ image.fieldsOf info, field.2.attrs.isStatic = false ∧ field.2.type = .declared inner

namespace Exec

variable {image : Image}
variable {handle : TypeHandle} {seen : List TypeHandle}

/-- An instance depends on the defaults of its fields only. -/
theorem instanceWith_congr {default other : RunTy → StateM Heap Value}
    (same : ∀ info ∈ image.lineage handle, ∀ field ∈ image.fieldsOf info,
      field.2.attrs.isStatic = false → default field.2.type = other field.2.type)
    (info : TypeInfo) :
    instanceWith image default handle info = instanceWith image other handle info := by
  have filled : ∀ (fields : List FieldInfo) (slots : Array Value),
      (∀ field ∈ fields, default field.type = other field.type) →
      (fields.foldlM (fun slots field => do
        let value ← default field.type
        return slots.setIfInBounds field.slot value) slots : StateM Heap _) =
      fields.foldlM (fun slots field => do
        let value ← other field.type
        return slots.setIfInBounds field.slot value) slots := by
    intro fields slots each
    induction fields generalizing slots with
    | nil => rfl
    | cons field fields ih =>
        obtain ⟨first, rest⟩ := List.forall_mem_cons.mp each
        simp only [List.foldlM_cons, first, ih _ rest]
  unfold instanceWith
  dsimp only
  rw [filled]
  intro field isField
  obtain ⟨info, isInfo, isField⟩ := List.mem_flatMap.mp isField
  obtain ⟨isField, notStatic⟩ := List.mem_filter.mp isField
  obtain ⟨entry, isEntry, rfl⟩ := List.mem_map.mp isField
  exact same info isInfo entry isEntry (by simpa using notStatic)

/-- Only the default of a declared type depends on the bound. -/
theorem defaultUpTo_of_not_declared {type : RunTy} {first second : Nat}
    (other : ∀ handle, type ≠ .declared handle) :
    defaultUpTo image first type = defaultUpTo image second type := by
  cases type with
  | declared handle => exact (other handle rfl).elim
  | builtin builtin => cases first <;> cases second <;> cases builtin <;> rfl
  | _ => cases first <;> cases second <;> rfl

/-- Different types are not more than there are. -/
theorem length_le_of_nodup (distinct : seen.Nodup)
    (inside : ∀ outer ∈ seen, outer.index < image.types.size) :
    seen.length ≤ image.types.size := by
  have indices : (seen.map TypeHandle.index).Nodup :=
    distinct.map fun first second same => by cases first; cases second; simp_all
  have within : seen.map TypeHandle.index ⊆ List.range image.types.size := by
    simpa [List.subset_def] using inside
  simpa using (indices.subperm within).length_le

/-- The default of a type is settled once there is room for the types that it has not come
through: none of them is met again. -/
theorem defaultUpTo_congr {first second : Nat}
    (distinct : seen.Nodup) (inside : ∀ outer ∈ seen, outer.index < image.types.size)
    (through : ∀ outer ∈ seen, TransGen image.Contains outer handle)
    (flat : ∀ inner, ReflTransGen image.Contains handle inner → ¬TransGen image.Contains inner inner)
    (isFirst : image.types.size < seen.length + first)
    (isSecond : image.types.size < seen.length + second) :
    defaultUpTo image first (.declared handle) = defaultUpTo image second (.declared handle) := by
  induction first generalizing seen handle second with
  | zero =>
      have := length_le_of_nodup distinct inside
      omega
  | succ first ih =>
      obtain ⟨second, rfl⟩ : ∃ less, second = less + 1 := by
        have := length_le_of_nodup distinct inside
        exact Nat.exists_eq_succ_of_ne_zero (by omega)
      simp only [defaultUpTo]
      cases found : image.type? handle with
      | none => rfl
      | some info =>
          dsimp only
          split
          case isTrue complete =>
            have isValue : image.isValueHandle handle = true := by
              simp_all [Image.isValueHandle]
            have unseen : handle ∉ seen := fun again => flat handle .refl (through handle again)
            rw [instanceWith_congr]
            intro outer isOuter field isField notStatic
            cases isType : field.2.type with
            | declared inner =>
                have contains : image.Contains handle inner :=
                  ⟨isValue, outer, isOuter, field, isField, notStatic, isType⟩
                refine ih (distinct.cons unseen) (List.forall_mem_cons.mpr ⟨?_, inside⟩)
                  (List.forall_mem_cons.mpr ⟨.single contains, fun outer isOuter =>
                    (through outer isOuter).tail contains⟩)
                  (fun other isOther => flat other (isOther.head contains))
                  (by simp only [List.length_cons]; omega) (by simp only [List.length_cons]; omega)
                exact (Array.getElem?_eq_some_iff.mp found).1
            | _ => exact defaultUpTo_of_not_declared (by simp)
          case isFalse => rfl

/-- The bound on the default of a type is not reached unless a value type that it holds contains
itself: a larger one gives the same value. -/
theorem defaultValue_settled {type : RunTy} {bound : Nat}
    (flat : ∀ handle inner, type = .declared handle → ReflTransGen image.Contains handle inner →
      ¬TransGen image.Contains inner inner)
    (isAbove : image.types.size < bound) :
    onHeap (defaultUpTo image bound type).run = defaultValue image type := by
  unfold defaultValue
  cases type with
  | declared handle =>
      have settled : defaultUpTo image bound (.declared handle) =
          defaultUpTo image (image.types.size + 1) (.declared handle) :=
        defaultUpTo_congr List.nodup_nil nofun nofun (flat handle · rfl) (by simpa) (by simp)
      rw [settled]
  | _ => rw [defaultUpTo_of_not_declared (by simp)]

end Exec

end ClassForge
