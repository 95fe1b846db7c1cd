import ClassForge.Proofs.Code.MadeFunctions

/-!
# The layout of fields

Fields get their slots when their type is completed.  The instance fields of a type go on where
those of its base end, and the static fields go on where those of the types that were completed
before end.  So no two fields of an object share a slot and neither do two static fields, in
whatever order types are declared and completed.  A write to one field therefore leaves all the
others as they are.
-/

namespace ClassForge

variable {info : TypeInfo}

namespace Image

variable {image extended later : Image}
variable {fields : List (FieldHandle × FieldInfo)} {count : Nat}
variable {entry : FieldHandle × FieldInfo} {realized : RealizedType}
variable {handle : TypeHandle}

/-! ## Slots -/

/-- The static fields that a type declares, or its instance fields, in order. -/
def ownFields (image : Image) (isStatic : Bool) (info : TypeInfo) :
    List (FieldHandle × FieldInfo) :=
  (image.fieldsOf info).filter fun (_, field) => field.attrs.isStatic == isStatic

/-- The fields of the instances of a type: those that it declares and those that its bases do. -/
def instanceFields (image : Image) (handle : TypeHandle) : List (FieldHandle × FieldInfo) :=
  (image.lineage handle).flatMap (image.ownFields false)

/-- The finished types. -/
def completeTypes (image : Image) : List TypeInfo :=
  image.types.toList.filter TypeInfo.isComplete

/-- The static fields of all complete types. -/
def staticFields (image : Image) : List (FieldHandle × FieldInfo) :=
  image.completeTypes.flatMap (image.ownFields true)

/-- The slots of some fields. -/
def slots (fields : List (FieldHandle × FieldInfo)) : List Nat :=
  fields.map fun (_, field) => field.slot

/-- Fields occupy the first slots, each exactly once. -/
def Occupy (fields : List (FieldHandle × FieldInfo)) (count : Nat) : Prop :=
  (slots fields).Perm (List.range count)

instance (fields : List (FieldHandle × FieldInfo)) (count : Nat) : Decidable (Occupy fields count) :=
  inferInstanceAs (Decidable (List.Perm _ _))

@[simp] theorem slots_append (fields more : List (FieldHandle × FieldInfo)) :
    slots (fields ++ more) = slots fields ++ slots more :=
  List.map_append

/-- Fields that go on where others end occupy the first slots together with them. -/
theorem Occupy.append {more : List (FieldHandle × FieldInfo)} {added : Nat}
    (occupy : Occupy fields count) (goOn : slots more = List.range' count added) :
    Occupy (more ++ fields) (count + added) := by
  have isRange : List.range (count + added) = List.range count ++ List.range' count added := by
    rw [List.range_add, List.range'_eq_map_range]
  unfold Occupy
  rw [slots_append, goOn, isRange]
  exact List.perm_append_comm.trans (occupy.append_right _)

theorem Occupy.perm {fields others : List (FieldHandle × FieldInfo)} {count : Nat}
    (occupy : Occupy fields count) (perm : others.Perm fields) : Occupy others count :=
  (perm.map _).trans occupy

theorem Occupy.lt (occupy : Occupy fields count) (listed : entry ∈ fields) : entry.2.slot < count :=
  List.mem_range.mp (occupy.mem_iff.mp (List.mem_map_of_mem listed))

/-- Different fields have different slots. -/
theorem Occupy.injective (occupy : Occupy fields count) {other : FieldHandle × FieldInfo}
    (listed : entry ∈ fields) (alsoListed : other ∈ fields) (same : entry.2.slot = other.2.slot) :
    entry = other :=
  List.inj_on_of_nodup_map (occupy.nodup_iff.mpr List.nodup_range) listed alsoListed same

theorem mem_ownFields {isStatic : Bool} {handle : FieldHandle} {field : FieldInfo} :
    (handle, field) ∈ image.ownFields isStatic info ↔
      handle ∈ info.fields ∧ image.field? handle = some field ∧ field.attrs.isStatic = isStatic := by
  rw [ownFields, List.mem_filter, mem_fieldsOf, beq_iff_eq, and_assoc]

/-! ## Giving out slots -/

/-- The slots of some fields of a table that are static, or of those that are not. -/
def slotsIn (fields : Array FieldInfo) (isStatic : Bool) (handles : List FieldHandle) : List Nat :=
  handles.flatMap fun handle =>
    (fields[handle.index]?.toList.filter fun field => field.attrs.isStatic == isStatic).map
      FieldInfo.slot

theorem slots_ownFields (isStatic : Bool) (info : TypeInfo) :
    slots (image.ownFields isStatic info) = slotsIn image.fields isStatic info.fields := by
  unfold slots ownFields slotsIn fieldsOf field?
  induction info.fields with
  | nil => rfl
  | cons handle handles ih =>
      rw [List.flatMap_cons, ← ih, List.filterMap_cons]
      cases image.fields[handle.index]? with
      | none => rfl
      | some field =>
          dsimp only [Option.map_some, Option.toList_some]
          by_cases kind : (field.attrs.isStatic == isStatic) = true <;> simp [kind]

/-- Fields get the slots that follow, one after the other: instance fields from one counter and
static fields from the other. -/
theorem slotsIn_assignSlots {handles : List FieldHandle} (distinct : handles.Nodup)
    (fields : Array FieldInfo) (nextInstance nextStatic : Nat) :
    ∃ instances statics,
      (assignSlots handles fields nextInstance nextStatic).2 =
        (nextInstance + instances, nextStatic + statics) ∧
      slotsIn (assignSlots handles fields nextInstance nextStatic).1 false handles =
        List.range' nextInstance instances ∧
      slotsIn (assignSlots handles fields nextInstance nextStatic).1 true handles =
        List.range' nextStatic statics := by
  induction handles generalizing fields nextInstance nextStatic with
  | nil => exact ⟨0, 0, rfl, rfl, rfl⟩
  | cons handle handles ih =>
      obtain ⟨notListed, distinct⟩ := List.nodup_cons.mp distinct
      -- The slot that the first field gets is not changed for the sake of the others.
      have first := fun fields => @assignSlots_of_notMem handles handle notListed fields
      rw [assignSlots]
      cases isField : fields[handle.index]? with
      | none =>
          obtain ⟨instances, statics, counters, ofInstances, ofStatics⟩ :=
            ih distinct fields nextInstance nextStatic
          refine ⟨instances, statics, counters, ?_, ?_⟩
          all_goals simp_all [slotsIn]
      | some field =>
          obtain ⟨inBounds, -⟩ := Array.getElem?_eq_some_iff.mp isField
          have stored : ∀ changed, (fields.setIfInBounds handle.index changed)[handle.index]? =
              some changed := fun changed => by
            rw [Array.getElem?_setIfInBounds, if_pos rfl, if_pos inBounds]
          dsimp only
          split
          · rename_i isStatic
            obtain ⟨instances, statics, counters, ofInstances, ofStatics⟩ :=
              ih distinct (fields.setIfInBounds handle.index { field with slot := nextStatic })
                nextInstance (nextStatic + 1)
            refine ⟨instances, statics + 1, ?_, ?_, ?_⟩
            · rw [counters, Nat.add_assoc, Nat.add_comm 1]
            · simpa [slotsIn, first, stored, isStatic] using ofInstances
            · simpa [slotsIn, first, stored, isStatic, List.range'_succ] using ofStatics
          · rename_i isInstance
            obtain ⟨instances, statics, counters, ofInstances, ofStatics⟩ :=
              ih distinct (fields.setIfInBounds handle.index { field with slot := nextInstance })
                (nextInstance + 1) nextStatic
            refine ⟨instances + 1, statics, ?_, ?_, ?_⟩
            · rw [counters, Nat.add_assoc, Nat.add_comm 1]
            · simpa [slotsIn, first, stored, isInstance, List.range'_succ] using ofInstances
            · simpa [slotsIn, first, stored, isInstance] using ofStatics

/-! ## Fields of complete types -/

/-- The fields of an instance are those that its type declares and those of its base. -/
theorem Rooted.instanceFields_eq (rooted : image.Rooted) (isInfo : image.type? handle = some info) :
    image.instanceFields handle =
      image.ownFields false info ++ info.base.toList.flatMap image.instanceFields := by
  have founded := rooted handle info isInfo
  unfold instanceFields
  rw [lineage, lineageUpTo, isInfo]
  dsimp only
  rw [List.flatMap_cons]
  cases isBase : info.base with
  | none => rfl
  | some base => simp [rooted.lineageUpTo_eq (founded.earlier base isBase)]

theorem KeepsType.ownFields (keeps : image.KeepsType later handle info) (isStatic : Bool) :
    later.ownFields isStatic info = image.ownFields isStatic info := by
  unfold Image.ownFields fieldsOf
  rw [List.filterMap_congr fun field listed => congrArg (Option.map _) (keeps.fields field listed)]

/-- The instances of a complete type keep their fields and the slots of these. -/
theorem Requests.instanceFields_eq (requests : Requests image later) (built : image.Built)
    (isInfo : image.type? handle = some info) (complete : info.isComplete = true) :
    later.instanceFields handle = image.instanceFields handle := by
  induction isIndex : handle.index using Nat.strong_induction_on generalizing handle info with
  | _ index ih =>
      have keeps := requests.keeps built isInfo complete
      rw [(requests.built built).rooted.instanceFields_eq keeps.type,
        built.rooted.instanceFields_eq isInfo, keeps.ownFields]
      cases isBase : info.base with
      | none => rfl
      | some base =>
          have founded := built.rooted handle info isInfo
          obtain ⟨above, isAbove, passes⟩ := founded.found base isBase
          have earlier := founded.earlier base isBase
          simp [ih base.index (isIndex ▸ earlier) isAbove (passes complete) rfl]

/-- The static fields of some complete types are the same later. -/
theorem Requests.flatMap_ownFields_eq (requests : Requests image later) (built : image.Built)
    (isStatic : Bool) :
    image.completeTypes.flatMap (later.ownFields isStatic) =
      image.completeTypes.flatMap (image.ownFields isStatic) := by
  refine List.flatMap_congr fun info listed => ?_
  obtain ⟨isEntry, complete⟩ := List.mem_filter.mp listed
  obtain ⟨index, isInfo⟩ := Array.mem_iff_getElem?.mp (Array.mem_toList_iff.mp isEntry)
  exact (@Requests.keeps image ⟨index⟩ info later requests built isInfo complete).ownFields isStatic

/-! ## The layout of an image -/

/-- The fields of every complete type occupy the slots of its instances, and the static fields of
all complete types occupy static storage. -/
structure LaidOut (image : Image) : Prop where
  instances : ∀ handle info, image.type? handle = some info → info.isComplete = true →
    Occupy (image.instanceFields handle) info.instanceSlots
  statics : Occupy image.staticFields image.staticCount

theorem library_laidOut : library.LaidOut := by
  have instances : ∀ index : Fin library.types.size, library.types[index].isComplete = true →
      Occupy (library.instanceFields ⟨index⟩) library.types[index].instanceSlots := by
    decide +kernel
  refine ⟨fun handle info isInfo complete => ?_, by decide +kernel⟩
  obtain ⟨inBounds, rfl⟩ := Array.getElem?_eq_some_iff.mp isInfo
  exact instances ⟨handle.index, inBounds⟩ complete

/-- An entry of a list that does not count is changed. -/
theorem filter_modify {α : Type} {entries : List α} {index : Nat} {entry : α} {change : α → α}
    {counts : α → Bool} (isEntry : entries[index]? = some entry) (ignored : counts entry = false) :
    ((entries.modify index change).filter counts).Perm
      ([change entry].filter counts ++ entries.filter counts) := by
  induction entries generalizing index with
  | nil => cases isEntry
  | cons first rest ih =>
      cases index with
      | zero =>
          cases isEntry
          rw [List.modify_zero_cons, ← List.singleton_append, List.filter_append]
          simp [ignored]
      | succ index =>
          rw [List.modify_succ_cons]
          by_cases counted : counts first = true
          · rw [List.filter_cons_of_pos counted, List.filter_cons_of_pos counted]
            exact ((ih isEntry).cons first).trans List.perm_middle.symm
          · rw [List.filter_cons_of_neg counted, List.filter_cons_of_neg counted]
            exact ih isEntry

/-- A request that completes no type. -/
structure CompletesNone (image extended : Image) : Prop where
  entries : ∀ handle info, extended.type? handle = some info → info.isComplete = true →
    image.type? handle = some info
  types : extended.completeTypes.Perm image.completeTypes
  staticCount : extended.staticCount = image.staticCount

theorem CompletesNone.of_types (same : extended.types = image.types)
    (staticCount : extended.staticCount = image.staticCount) : image.CompletesNone extended := by
  refine ⟨fun handle info isInfo _ => ?_, by rw [completeTypes, same, completeTypes], staticCount⟩
  rwa [type?, same] at isInfo

theorem CompletesNone.of_push {added : TypeInfo} (isOpen : added.isComplete = false)
    (isTypes : extended.types = image.types.push added)
    (staticCount : extended.staticCount = image.staticCount) : image.CompletesNone extended := by
  refine ⟨fun handle info isInfo complete => ?_, ?_, staticCount⟩
  · rw [type?, isTypes] at isInfo
    refine getElem?_of_push isInfo ?_
    rintro rfl
    cases complete.symm.trans isOpen
  · rw [completeTypes, isTypes, Array.toList_push, List.filter_append]
    simp [isOpen, completeTypes]

theorem CompletesNone.of_modify {fields : Array FieldInfo} {methods : Array MethodInfo}
    {ctors : Array CtorInfo} {properties : Array PropertyInfo} {owner : TypeHandle}
    {change : TypeInfo → TypeInfo} (isOpen : image.openType owner = .ok info)
    (same : ∀ info, (change info).isComplete = info.isComplete) :
    image.CompletesNone ⟨image.types.modify owner.index change, fields, methods, ctors, properties,
      image.staticCount⟩ := by
  obtain ⟨isInfo, -, incomplete⟩ := openType_eq_ok.mp isOpen
  refine ⟨fun handle after isAfter complete => ?_, ?_, rfl⟩
  · by_cases isOwner : owner = handle
    · subst isOwner
      cases (type?_modifyType isInfo).symm.trans isAfter
      cases ((same info).symm.trans complete).symm.trans incomplete
    · exact (type?_modifyType_of_ne isOwner).symm.trans isAfter
  · have changed := @filter_modify _ _ _ _ change TypeInfo.isComplete
      (Array.getElem?_toList.trans isInfo) incomplete
    rw [List.filter_cons_of_neg (by simp [same, incomplete])] at changed
    rw [completeTypes, Array.toList_modify]
    exact changed

/-- What is complete is laid out as before. -/
theorem LaidOut.mono (laidOut : image.LaidOut) (built : image.Built)
    (request : Request image extended) (none : image.CompletesNone extended) :
    extended.LaidOut := by
  have requests : Requests image extended := .single request
  refine ⟨fun handle info isInfo complete => ?_, ?_⟩
  · have wasInfo := none.entries handle info isInfo complete
    rw [requests.instanceFields_eq built wasInfo complete]
    exact laidOut.instances handle info wasInfo complete
  · rw [none.staticCount]
    refine laidOut.statics.perm ?_
    rw [staticFields, staticFields, ← requests.flatMap_ownFields_eq built]
    exact none.types.flatMap_right _

/-- Completing a type gives slots to its fields. -/
theorem sealType_slots (built : image.Built)
    (done : image.sealType handle = .ok (realized, extended)) :
    ∃ info inherited instances statics, image.openType handle = .ok info ∧
      image.inheritedSlots info = .ok inherited ∧
      extended.types = (image.modifyType handle fun info =>
        { info with instanceSlots := inherited + instances, isComplete := true }).types ∧
      extended.staticCount = image.staticCount + statics ∧
      slots (extended.ownFields false info) = List.range' inherited instances ∧
      slots (extended.ownFields true info) = List.range' image.staticCount statics := by
  obtain ⟨info, inherited, _, isOpen, isInherited, -, -, -, rfl, rfl⟩ := sealType_shape done
  have distinct := (built.owned.fields.members _ info (openType_eq_ok.mp isOpen).1).distinct
  obtain ⟨instances, statics, counters, ofInstances, ofStatics⟩ :=
    slotsIn_assignSlots distinct image.fields inherited image.staticCount
  refine ⟨info, inherited, instances, statics, isOpen, isInherited, ?_, ?_, ?_, ?_⟩
  · exact congrArg (fun counters => (image.modifyType handle fun info =>
      { info with instanceSlots := counters.1, isComplete := true }).types) counters
  · exact congrArg Prod.snd counters
  · rw [slots_ownFields]
    exact ofInstances
  · rw [slots_ownFields]
    exact ofStatics

/-- The fields that a type inherits occupy the slots that it inherits. -/
theorem LaidOut.inherited (laidOut : image.LaidOut)
    (isInherited : image.inheritedSlots info = .ok count) (built : image.Built)
    (requests : Requests image later) :
    Occupy (info.base.toList.flatMap later.instanceFields) count := by
  unfold inheritedSlots at isInherited
  cases isBase : info.base with
  | none =>
      rw [isBase] at isInherited
      cases isInherited
      exact .refl _
  | some base =>
      rw [isBase] at isInherited
      obtain ⟨above, isAbove, counted⟩ := bind_eq_ok.mp isInherited
      split at counted
      · rename_i complete
        cases counted
        have isAbove := type_eq_ok.mp isAbove
        rw [Option.toList_some, List.flatMap_singleton,
          requests.instanceFields_eq built isAbove complete]
        exact laidOut.instances base above isAbove complete
      · cases counted

theorem sealType_laidOut (laidOut : image.LaidOut) (built : image.Built)
    (done : image.sealType handle = .ok (realized, extended)) : extended.LaidOut := by
  have requests : Requests image extended := .single (.sealType done)
  have rooted := (requests.built built).rooted
  obtain ⟨info, inherited, instances, statics, isOpen, isInherited, isTypes, staticCount,
    ofInstances, ofStatics⟩ := sealType_slots built done
  obtain ⟨isInfo, -, incomplete⟩ := openType_eq_ok.mp isOpen
  refine ⟨fun other after isAfter complete => ?_, ?_⟩
  · have isEntry := isAfter
    rw [type?, isTypes] at isEntry
    by_cases isHandle : handle = other
    · subst isHandle
      cases (type?_modifyType isInfo).symm.trans isEntry
      rw [rooted.instanceFields_eq isAfter]
      exact (laidOut.inherited isInherited built requests).append ofInstances
    · have isBefore := (type?_modifyType_of_ne isHandle).symm.trans isEntry
      rw [requests.instanceFields_eq built isBefore complete]
      exact laidOut.instances other after isBefore complete
  · have completed : extended.completeTypes.Perm
        ({ info with instanceSlots := inherited + instances, isComplete := true } ::
          image.completeTypes) := by
      rw [completeTypes, isTypes, modifyType, Array.toList_modify]
      exact filter_modify (Array.getElem?_toList.trans isInfo) incomplete
    refine Occupy.perm ?_ (completed.flatMap_right _)
    rw [staticCount, List.flatMap_cons, requests.flatMap_ownFields_eq built]
    exact laidOut.statics.append ofStatics

/-- The fields of every image are laid out. -/
theorem Built.laidOut (built : image.Built) : image.LaidOut := by
  induction built with
  | library => exact library_laidOut
  | declareType built done laidOut =>
      refine laidOut.mono built (.declareType done) ?_
      obtain ⟨root, above, -, -, -, -, rfl⟩ := declareType_shape done
      exact .of_push rfl rfl rfl
  | declareField built done laidOut =>
      refine laidOut.mono built (.declareField done) ?_
      obtain ⟨info, isOpen, -, -, -, rfl⟩ := declareField_shape done
      dsimp only [modifyType]
      exact .of_modify isOpen fun _ => rfl
  | declareMethod built done laidOut =>
      refine laidOut.mono built (.declareMethod done) ?_
      obtain ⟨info, isOpen, -, -, -, rfl⟩ := declareMethod_shape done
      dsimp only [modifyType]
      exact .of_modify isOpen fun _ => rfl
  | declareCtor built done laidOut =>
      refine laidOut.mono built (.declareCtor done) ?_
      obtain ⟨info, isOpen, -, -, -, rfl⟩ := declareCtor_shape done
      dsimp only [modifyType]
      exact .of_modify isOpen fun _ => rfl
  | declareProperty built done laidOut =>
      refine laidOut.mono built (.declareProperty done) ?_
      obtain ⟨info, isOpen, -, -, -, rfl⟩ := declareProperty_shape done
      dsimp only [modifyType]
      exact .of_modify isOpen fun _ => rfl
  | defineMethod built done laidOut =>
      refine laidOut.mono built (.defineMethod done) ?_
      obtain ⟨_, _, -, -, -, rfl⟩ := defineMethod_shape done
      exact .of_types rfl rfl
  | defineCtor built done laidOut =>
      refine laidOut.mono built (.defineCtor done) ?_
      obtain ⟨_, _, -, -, -, rfl⟩ := defineCtor_shape done
      exact .of_types rfl rfl
  | sealType built done laidOut => exact sealType_laidOut laidOut built done

end Image

/-! ## Writes to fields -/

theorem Heap.get?_copy {heap : Heap} {object : ObjRef} {content : HeapObject} (value : Value)
    (found : heap.get? object = some content) : (heap.copy value).2.get? object = some content := by
  obtain ⟨copied, fresh, ran, -⟩ := run_copyUpTo (heap.size + 1) heap value
  obtain ⟨inside, -⟩ := Array.getElem?_eq_some_iff.mp found
  rw [copy, ran]
  exact (get?_append_of_lt inside).trans found

theorem Exec.run_require_eq_ok {α : Type} {value : Option α} {cause : Malformation} {content : α}
    {store : Store} : (Exec.require value cause).run store = .ok content store ↔ value = some content := by
  cases value with
  | none => exact ⟨nofun, nofun⟩
  | some found =>
      constructor
      · rintro ⟨⟩
        rfl
      · rintro ⟨⟩
        rfl

/-- Something reads the same before and after. -/
def ReadsSame (read : Exec Value) (store later : Store) : Prop :=
  ∀ content, read.run store = .ok content store ↔ read.run later = .ok content later

namespace Image

open FrameStep Machine.Seat

variable {image : Image}
variable {field : FieldHandle × FieldInfo}

/-- A write to a field of an object, where there is one slot for each field, succeeds; and a write
that succeeds leaves the other fields of the object as they are. -/
def WritesApart (image : Image) (type : TypeHandle) : Prop :=
  ∀ (store : Store) (receiver value : Value) (object : ObjRef) (values : Array Value),
    receiver.object? = some object → store.heap.get? object = some (.instance type values) →
    ∀ field ∈ image.instanceFields type,
      (image.HasSlots type values.size →
        ∃ later, (storeField image field.1 receiver value).run store = .ok () later) ∧
      ∀ later, (storeField image field.1 receiver value).run store = .ok () later →
        ∀ other ∈ image.instanceFields type, other ≠ field →
          ReadsSame (loadField image other.1 receiver) store later

/-- A write to a static field of a complete type, where there is one slot for each such field,
succeeds; and a write that succeeds leaves the other static fields as they are. -/
def WritesStaticsApart (image : Image) : Prop :=
  ∀ (store : Store) (value : Value), ∀ field ∈ image.staticFields,
    (store.statics.size = image.staticCount →
      ∃ later, (storeStatic image field.1 value).run store = .ok () later) ∧
    ∀ later, (storeStatic image field.1 value).run store = .ok () later →
      ∀ other ∈ image.staticFields, other ≠ field →
        ReadsSame (loadStatic image other.1) store later

section Statics

variable {field : FieldHandle} {info : FieldInfo} {store : Store}

theorem run_loadStatic (isField : image.field? field = some info) :
    (loadStatic image field).run store =
      (Exec.require store.statics[info.slot]? .staticStorage).run store := by
  unfold loadStatic Image.field
  rw [isField]
  rfl

/-- A static field gets a copy of the value. -/
theorem run_storeStatic {value : Value} (isField : image.field? field = some info) :
    (storeStatic image field value).run store =
      if info.slot < store.statics.size then
        .ok () { store with
          heap := (store.heap.copy value).2
          statics := store.statics.setIfInBounds info.slot (store.heap.copy value).1 }
      else
        (Exec.malformed .staticStorage : Exec Unit).run
          { store with heap := (store.heap.copy value).2 } := by
  unfold storeStatic Image.field
  rw [EStateM.run_bind, Exec.run_copy]
  dsimp only
  rw [isField]
  change (if info.slot < store.statics.size then _ else _ : Exec Unit).run _ = _
  split <;> rfl

end Statics

theorem field?_of_mem_instanceFields {type : TypeHandle}
    (listed : field ∈ image.instanceFields type) : image.field? field.1 = some field.2 := by
  obtain ⟨info, -, own⟩ := List.mem_flatMap.mp listed
  exact (mem_ownFields.mp own).2.1

theorem field?_of_mem_staticFields (listed : field ∈ image.staticFields) :
    image.field? field.1 = some field.2 := by
  obtain ⟨info, -, own⟩ := List.mem_flatMap.mp listed
  exact (mem_ownFields.mp own).2.1

theorem LaidOut.writesApart (laidOut : image.LaidOut) {type : TypeHandle}
    (isInfo : image.type? type = some info) (complete : info.isComplete = true) :
    image.WritesApart type := by
  intro store receiver value object values isReceiver isInstance field listed
  have occupy := laidOut.instances type info isInfo complete
  have isCopied := Heap.get?_copy value isInstance
  rw [run_storeField (field?_of_mem_instanceFields listed) isReceiver
    (Exec.run_copy value store) isCopied]
  refine ⟨fun ⟨_, isAlso, _, sameSize⟩ => ?_, fun later stored other alsoListed differs content => ?_⟩
  · cases isInfo.symm.trans isAlso
    rw [if_pos (sameSize ▸ occupy.lt listed)]
    exact ⟨_, rfl⟩
  · split at stored
    · cases stored
      have isOther := field?_of_mem_instanceFields alsoListed
      have apart : field.2.slot ≠ other.2.slot := fun same =>
        differs (occupy.injective alsoListed listed same.symm)
      have isChanged := Heap.get?_setField_self isCopied field.2.slot (store.heap.copy value).1
      rw [run_loadField isOther isReceiver isInstance, run_loadField isOther isReceiver isChanged,
        Exec.run_require_eq_ok, Exec.run_require_eq_ok, Array.getElem?_setIfInBounds_ne apart]
    · cases stored

theorem LaidOut.writesStaticsApart (laidOut : image.LaidOut) : image.WritesStaticsApart := by
  intro store value field listed
  rw [run_storeStatic (field?_of_mem_staticFields listed)]
  refine ⟨fun sameSize => ?_, fun later stored other alsoListed differs content => ?_⟩
  · rw [if_pos (sameSize ▸ laidOut.statics.lt listed)]
    exact ⟨_, rfl⟩
  · split at stored
    · cases stored
      have isOther := field?_of_mem_staticFields alsoListed
      have apart : field.2.slot ≠ other.2.slot := fun same =>
        differs (laidOut.statics.injective alsoListed listed same.symm)
      rw [run_loadStatic isOther, run_loadStatic isOther, Exec.run_require_eq_ok,
        Exec.run_require_eq_ok, Array.getElem?_setIfInBounds_ne apart]
    · cases stored

/-- The static fields of complete types keep their slots. -/
theorem Requests.mem_staticFields {later : Image} (requests : Requests image later)
    (built : image.Built) (listed : field ∈ image.staticFields) : field ∈ later.staticFields := by
  obtain ⟨info, isComplete, own⟩ := List.mem_flatMap.mp listed
  obtain ⟨isEntry, complete⟩ := List.mem_filter.mp isComplete
  obtain ⟨index, isInfo⟩ := Array.mem_iff_getElem?.mp (Array.mem_toList_iff.mp isEntry)
  have keeps := @Requests.keeps image ⟨index⟩ info later requests built isInfo complete
  refine List.mem_flatMap.mpr ⟨info, List.mem_filter.mpr ⟨?_, complete⟩, ?_⟩
  · exact Array.mem_toList_iff.mpr (Array.mem_of_getElem? keeps.type)
  · rw [keeps.ownFields]
    exact own

/-- Fields never share a slot, whatever is asked of a store.  The fields of every complete type,
declared or inherited, occupy the slots of its instances, each exactly once, and so do the static
fields of all complete types in static storage.  They keep these slots.  So a write to a field
leaves all the others as they are. -/
theorem store_fields_apart (commands : List Command) :
    let image := commands.foldl after library
    (∀ type info, image.type? type = some info → info.isComplete = true →
      Occupy (image.instanceFields type) info.instanceSlots ∧
      (∀ further : List Command,
        (further.foldl after image).instanceFields type = image.instanceFields type) ∧
      image.WritesApart type) ∧
    Occupy image.staticFields image.staticCount ∧
    (∀ further : List Command, image.staticFields ⊆ (further.foldl after image).staticFields) ∧
    image.WritesStaticsApart := by
  intro image
  have built : image.Built := built_foldl_after commands
  have laidOut := built.laidOut
  refine ⟨fun type info isInfo complete => ⟨?_, fun further => ?_, ?_⟩, laidOut.statics,
    fun further field listed => ?_, laidOut.writesStaticsApart⟩
  · exact laidOut.instances type info isInfo complete
  · exact (requests_foldl_after further).instanceFields_eq built isInfo complete
  · exact laidOut.writesApart isInfo complete
  · exact (requests_foldl_after further).mem_staticFields built listed

/-- A class with a field and a static field, and a class that derives from it and has a field and a
static field as well.  The static field of the second one is declared first. -/
def twoClasses : List Command :=
  [.declareType "Point" .publicClass none [], .declareType "Pixel" .publicClass
      (some (.declared ⟨45⟩)) [],
    .declareField ⟨46⟩ "drawn" .int32 { isStatic := true }, .declareField ⟨46⟩ "shade" .int32 {},
    .declareField ⟨45⟩ "made" .int32 { isStatic := true }, .declareField ⟨45⟩ "x" .int32 {},
    .sealType ⟨45⟩, .sealType ⟨46⟩]

/-- An object of the second class, and the static fields. -/
def pixelStore : Store where
  heap := ⟨#[.instance ⟨46⟩ #[.int32 1, .int32 2]]⟩
  statics := #[.int32 3, .int32 4]
  output := ""

theorem store_twoClasses :
    let image := twoClasses.foldl after library
    Occupy (image.instanceFields ⟨46⟩) 2 ∧ Occupy image.staticFields 2 ∧
    ∃ later, (storeField image ⟨3⟩ (.ref ⟨0⟩) (.int32 9)).run pixelStore = .ok () later ∧
      (loadField image ⟨5⟩ (.ref ⟨0⟩)).run later = .ok (.int32 1) later := by
  intro image
  obtain ⟨instances, statics, -, -⟩ := store_fields_apart twoClasses
  have isType : (image.type? ⟨46⟩).any (fun info => info.isComplete && info.instanceSlots == 2) =
      true := by
    decide +kernel
  obtain ⟨info, isInfo, holds⟩ := (Option.any_eq_true _ _).mp isType
  rw [Bool.and_eq_true, beq_iff_eq] at holds
  obtain ⟨occupy, -, apart⟩ := instances ⟨46⟩ info isInfo holds.1
  have fields : ∃ shade ∈ image.instanceFields ⟨46⟩, ∃ x ∈ image.instanceFields ⟨46⟩,
      shade.1 = ⟨3⟩ ∧ x.1 = ⟨5⟩ ∧ x ≠ shade ∧ x.2.slot = 0 := by
    decide +kernel
  obtain ⟨⟨shade, _⟩, isShade, ⟨x, field⟩, isX, rfl, rfl, differs, isFirst⟩ := fields
  have count : image.staticCount = 2 := by decide +kernel
  refine ⟨holds.2 ▸ occupy, count ▸ statics, ?_⟩
  obtain ⟨writes, keeps⟩ := apart pixelStore (.ref ⟨0⟩) (.int32 9) ⟨0⟩ _ rfl rfl _ isShade
  obtain ⟨later, stored⟩ := writes ⟨info, isInfo, holds.1, holds.2.symm⟩
  refine ⟨later, stored, (keeps later stored _ isX differs _).mp ?_⟩
  rw [run_loadField (field?_of_mem_instanceFields isX) rfl rfl, Exec.run_require_eq_ok, isFirst]
  rfl

end Image

end ClassForge
