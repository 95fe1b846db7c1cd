import ClassForge.Proofs.Image.Subtyping
import Mathlib.Data.List.Nodup

/-!
# Integrity of an image

The tables of an image point into each other: types list their members, members name their
owner, and signatures mention types.  Every request keeps these pointers together.  A member is
listed once, on its owner and nowhere else; what a signature mentions is there; names lead back
to the types that they were given to; and a completed type stays as it is.
-/

namespace ClassForge

variable {change : TypeInfo → TypeInfo} {owner : TypeHandle}
variable {methods : Array MethodInfo} {ctors : Array CtorInfo} {properties : Array PropertyInfo}
variable {count : Nat}

/-! ## Lists of members -/

/-- The members of a type, where each member has an owner. -/
structure Members {η : Type} (ownerOf : η → Option TypeHandle) (type : TypeHandle)
    (members : List η) : Prop where
  distinct : members.Nodup
  mem_iff : ∀ member, member ∈ members ↔ ownerOf member = some type

/-- Members are listed by the types that own them. -/
structure Catalogue {η : Type} (types : Array TypeInfo) (ownerOf : η → Option TypeHandle)
    (list : TypeInfo → List η) : Prop where
  owners : ∀ member owner, ownerOf member = some owner → owner.index < types.size
  members : ∀ index info, types[index]? = some info → Members ownerOf ⟨index⟩ (list info)

namespace Catalogue

variable {η : Type} {types : Array TypeInfo} {ownerOf : η → Option TypeHandle}
variable {list : TypeInfo → List η}
variable {later : η → Option TypeHandle}

section

variable (catalogue : Catalogue types ownerOf list)
include catalogue

theorem congr (same : ∀ member, later member = ownerOf member) : Catalogue types later list := by
  rw [funext same]
  exact catalogue

/-- A new type has no members. -/
theorem push {added : TypeInfo} (isNew : list added = []) :
    Catalogue (types.push added) ownerOf list := by
  refine ⟨fun member owner isOwner => ?_, fun index info found => ?_⟩
  · have inBounds := catalogue.owners member owner isOwner
    rw [Array.size_push]
    omega
  · rw [Array.getElem?_push] at found
    split at found
    · rename_i isLast
      cases found
      rw [isNew]
      refine ⟨List.nodup_nil, fun member => ⟨nofun, fun isOwner => ?_⟩⟩
      have inBounds := catalogue.owners member _ isOwner
      dsimp only at inBounds
      omega
    · exact catalogue.members index info found

/-- A type that keeps its members may change otherwise. -/
theorem modify {changed : Nat} (same : ∀ info, list (change info) = list info) :
    Catalogue (types.modify changed change) ownerOf list := by
  refine ⟨fun member owner isOwner => ?_, fun index info found => ?_⟩
  · rw [Array.size_modify]
    exact catalogue.owners member owner isOwner
  · rw [Array.getElem?_modify] at found
    split at found
    · obtain ⟨before, isBefore, rfl⟩ := Option.map_eq_some_iff.mp found
      rw [same]
      exact catalogue.members index before isBefore
    · exact catalogue.members index info found

/-- A new member is added to the list of its owner. -/
theorem add [DecidableEq η] {new : η} (inBounds : owner.index < types.size)
    (free : ownerOf new = none)
    (isLater : ∀ member, later member = if member = new then some owner else ownerOf member)
    (isListed : ∀ info, list (change info) = list info ++ [new]) :
    Catalogue (types.modify owner.index change) later list := by
  have notListed : ∀ (index : Nat) (info : TypeInfo), types[index]? = some info →
      new ∉ list info := by
    intro index info found listed
    cases free.symm.trans (((catalogue.members index info found).mem_iff new).mp listed)
  refine ⟨fun member isOwner found => ?_, fun index info found => ?_⟩
  · rw [Array.size_modify]
    rw [isLater] at found
    split at found
    · cases found
      exact inBounds
    · exact catalogue.owners member isOwner found
  · rw [Array.getElem?_modify] at found
    split at found
    · rename_i same
      obtain ⟨before, isBefore, rfl⟩ := Option.map_eq_some_iff.mp found
      have members := catalogue.members index before isBefore
      have isOwner : owner = ⟨index⟩ := congrArg TypeHandle.mk same
      rw [isListed]
      refine ⟨?_, fun member => ?_⟩
      · refine List.nodup_append'.mpr ⟨members.distinct, List.nodup_singleton _, ?_⟩
        exact List.disjoint_singleton.mpr (notListed index before isBefore)
      · rw [isLater, List.mem_append, List.mem_singleton, members.mem_iff]
        split
        · rename_i isNew
          simp [isNew, isOwner]
        · simp [*]
    · rename_i different
      have members := catalogue.members index info found
      refine ⟨members.distinct, fun member => ?_⟩
      rw [isLater, members.mem_iff]
      split
      · rename_i isNew
        rw [isNew, free]
        refine ⟨nofun, fun isOwner => ?_⟩
        exact (different (congrArg TypeHandle.index (Option.some.inj isOwner))).elim
      · rfl

end

/-- The lists of all types are right where each leads to its owner and each member to its
list. -/
theorem of_lists {α : Type} {table : Array α} {index : η → Nat} {make : Nat → η}
    {owner : α → TypeHandle} (made : ∀ member, make (index member) = member)
    (lists : ∀ type : Fin types.size, (list types[type]).Nodup ∧
      ∀ member ∈ list types[type], table[index member]?.map owner = some ⟨type⟩)
    (listed : ∀ position : Fin table.size,
      ∃ info ∈ types[(owner table[position]).index]?, make position ∈ list info) :
    Catalogue types (fun member => table[index member]?.map owner) list := by
  have isListed : ∀ member type, table[index member]?.map owner = some type →
      ∃ info ∈ types[type.index]?, member ∈ list info := by
    intro member type isOwner
    obtain ⟨entry, isEntry, rfl⟩ := Option.map_eq_some_iff.mp isOwner
    obtain ⟨inBounds, rfl⟩ := Array.getElem?_eq_some_iff.mp isEntry
    have inList := listed ⟨index member, inBounds⟩
    rw [made] at inList
    exact inList
  refine ⟨fun member type isOwner => ?_, fun type info found => ?_⟩
  · obtain ⟨info, isInfo, -⟩ := isListed member type isOwner
    exact (Array.getElem?_eq_some_iff.mp isInfo).1
  · obtain ⟨inBounds, rfl⟩ := Array.getElem?_eq_some_iff.mp found
    obtain ⟨distinct, owned⟩ := lists ⟨type, inBounds⟩
    refine ⟨distinct, fun member => ⟨owned member, fun isOwner => ?_⟩⟩
    obtain ⟨info, isInfo, inList⟩ := isListed member _ isOwner
    obtain rfl := Option.some.inj (isInfo.symm.trans found)
    exact inList

end Catalogue

namespace Image

variable {image extended : Image}

/-- Fields, methods and constructors are listed once, on the types that own them. -/
structure Owned (image : Image) : Prop where
  fields : Catalogue image.types (fun field => (image.field? field).map FieldInfo.owner)
    TypeInfo.fields
  methods : Catalogue image.types (fun method => (image.method? method).map MethodInfo.owner)
    TypeInfo.methods
  ctors : Catalogue image.types (fun ctor => (image.ctor? ctor).map CtorInfo.owner)
    TypeInfo.ctors

/-! ## Tables -/

section Tables

variable {α β : Type} {table : Array α} {read : α → β}

theorem map_getElem?_push (added : α) (index : Nat) :
    (table.push added)[index]?.map read =
      if index = table.size then some (read added) else table[index]?.map read := by
  rw [Array.getElem?_push]
  split <;> rfl

theorem map_getElem?_modify {change : α → α} (same : ∀ entry, read (change entry) = read entry)
    (changed index : Nat) :
    (table.modify changed change)[index]?.map read = table[index]?.map read := by
  rw [Array.getElem?_modify]
  split
  · rw [Option.map_map]
    exact congrArg (table[index]?.map ·) (funext same)
  · rfl

theorem map_getElem?_size : table[table.size]?.map read = none := by
  simp

end Tables

/-- Slots are all that fields get. -/
theorem map_assignSlots {β : Type} {read : FieldInfo → β}
    (same : ∀ (entry : FieldInfo) (slot : Nat), read { entry with slot } = read entry)
    (handles : List FieldHandle) (fields : Array FieldInfo) (nextInstance nextStatic index : Nat) :
    (assignSlots handles fields nextInstance nextStatic).1[index]?.map read =
      fields[index]?.map read := by
  induction handles generalizing fields nextInstance nextStatic with
  | nil => rfl
  | cons handle handles ih =>
      have set : ∀ (entry : FieldInfo) (slot : Nat), fields[handle.index]? = some entry →
          (fields.setIfInBounds handle.index { entry with slot })[index]?.map read =
            fields[index]?.map read := by
        intro entry slot isEntry
        rw [Array.getElem?_setIfInBounds]
        split
        · rename_i isIndex
          obtain ⟨inBounds, -⟩ := Array.getElem?_eq_some_iff.mp isEntry
          rw [if_pos inBounds, ← isIndex, isEntry]
          exact congrArg some (same entry slot)
        · rfl
      rw [assignSlots]
      split
      · exact ih _ _ _
      · rename_i entry isEntry
        split
        all_goals exact (ih _ _ _).trans (set _ _ isEntry)

/-- Fields of other types keep their slots. -/
theorem assignSlots_of_notMem {handles : List FieldHandle} {handle : FieldHandle}
    (other : handle ∉ handles) (fields : Array FieldInfo) (nextInstance nextStatic : Nat) :
    (assignSlots handles fields nextInstance nextStatic).1[handle.index]? =
      fields[handle.index]? := by
  induction handles generalizing fields nextInstance nextStatic with
  | nil => rfl
  | cons first handles ih =>
      rw [List.mem_cons, not_or] at other
      have different : first.index ≠ handle.index := fun same =>
        other.1 (congrArg FieldHandle.mk same.symm)
      rw [assignSlots]
      split
      · exact ih other.2 _ _ _
      · split
        all_goals
          rw [ih other.2, Array.getElem?_setIfInBounds, if_neg different]

/-! ## Owners -/

/-- The platform library lists its members on their owners. -/
theorem library_owned : library.Owned := by
  refine ⟨@Catalogue.of_lists _ _ _ _ _ FieldHandle.index FieldHandle.mk _ (fun _ => rfl) ?_ ?_,
    @Catalogue.of_lists _ _ _ _ _ MethodHandle.index MethodHandle.mk _ (fun _ => rfl) ?_ ?_,
    @Catalogue.of_lists _ _ _ _ _ CtorHandle.index CtorHandle.mk _ (fun _ => rfl) ?_ ?_⟩
  all_goals decide +kernel

/-- A new member of an open type is listed on it. -/
theorem catalogue_push {η α : Type} [DecidableEq η] {index : η → Nat} (injective : index.Injective)
    {table : Array α} {ownerOf : α → TypeHandle} {list : TypeInfo → List η} {info : TypeInfo}
    {added : α} (new : η)
    (catalogue : Catalogue image.types (fun member => table[index member]?.map ownerOf) list)
    (isOpen : image.openType owner = .ok info) (isNew : index new = table.size)
    (isOwner : ownerOf added = owner) (isListed : ∀ info, list (change info) = list info ++ [new]) :
    Catalogue (image.types.modify owner.index change)
      (fun member => (table.push added)[index member]?.map ownerOf) list := by
  obtain ⟨isInfo, -⟩ := openType_eq_ok.mp isOpen
  obtain ⟨inBounds, -⟩ := Array.getElem?_eq_some_iff.mp isInfo
  refine catalogue.add inBounds ?_ (fun member => ?_) isListed
  · rw [isNew, map_getElem?_size]
  · rw [map_getElem?_push, isOwner, ← isNew]
    simp only [injective.eq_iff]

/-- Members are listed as they should be if they are in the tables. -/
theorem Owned.of_tables {types : Array TypeInfo} {fields : Array FieldInfo}
    (ofFields : Catalogue types (fun field => fields[field.index]?.map FieldInfo.owner)
      TypeInfo.fields)
    (ofMethods : Catalogue types (fun method => methods[method.index]?.map MethodInfo.owner)
      TypeInfo.methods)
    (ofCtors : Catalogue types (fun ctor => ctors[ctor.index]?.map CtorInfo.owner)
      TypeInfo.ctors) :
    Owned ⟨types, fields, methods, ctors, properties, count⟩ :=
  ⟨ofFields, ofMethods, ofCtors⟩

/-- Members are listed on their owners in every image. -/
theorem Built.owned (built : image.Built) : image.Owned := by
  induction built with
  | library => exact library_owned
  | declareType _ done owned =>
      obtain ⟨root, above, -, -, -, -, rfl⟩ := declareType_shape done
      exact ⟨owned.fields.push rfl, owned.methods.push rfl, owned.ctors.push rfl⟩
  | declareField _ done owned =>
      obtain ⟨info, isOpen, -, -, -, rfl⟩ := declareField_shape done
      dsimp only [modifyType]
      refine .of_tables (catalogue_push (fun _ _ => congrArg FieldHandle.mk) ⟨_⟩ owned.fields isOpen rfl ?_ ?_) (owned.methods.modify ?_)
        (owned.ctors.modify ?_)
      all_goals simp
  | declareMethod _ done owned =>
      obtain ⟨info, isOpen, -, -, -, rfl⟩ := declareMethod_shape done
      dsimp only [modifyType]
      refine .of_tables (owned.fields.modify ?_) (catalogue_push (fun _ _ => congrArg MethodHandle.mk) ⟨_⟩ owned.methods isOpen rfl ?_ ?_)
        (owned.ctors.modify ?_)
      all_goals simp
  | declareCtor _ done owned =>
      obtain ⟨info, isOpen, -, -, -, rfl⟩ := declareCtor_shape done
      dsimp only [modifyType]
      refine .of_tables (owned.fields.modify ?_) (owned.methods.modify ?_)
        (catalogue_push (fun _ _ => congrArg CtorHandle.mk) ⟨_⟩ owned.ctors isOpen rfl ?_ ?_)
      all_goals simp
  | declareProperty _ done owned =>
      obtain ⟨info, isOpen, -, -, -, rfl⟩ := declareProperty_shape done
      dsimp only [modifyType]
      refine .of_tables (owned.fields.modify ?_) (owned.methods.modify ?_) (owned.ctors.modify ?_)
      all_goals simp
  | defineMethod _ done owned =>
      obtain ⟨_, _, -, -, -, rfl⟩ := defineMethod_shape done
      refine ⟨owned.fields, owned.methods.congr fun _ => ?_, owned.ctors⟩
      exact map_getElem?_modify (by simp) _ _
  | defineCtor _ done owned =>
      obtain ⟨_, _, -, -, -, rfl⟩ := defineCtor_shape done
      refine ⟨owned.fields, owned.methods, owned.ctors.congr fun _ => ?_⟩
      exact map_getElem?_modify (by simp) _ _
  | sealType _ done owned =>
      obtain ⟨info, inherited, slots, -, -, -, -, -, rfl, rfl⟩ := sealType_shape done
      dsimp only [modifyType]
      refine .of_tables (.congr (owned.fields.modify ?_) fun _ => ?_)
        (owned.methods.modify ?_) (owned.ctors.modify ?_)
      case refine_2 => exact map_assignSlots (fun _ _ => rfl) _ _ _ _ _
      all_goals simp

/-! ## Signatures -/

end Image

/-- The declared types that a type mentions are among the first of their table. -/
def RunTy.Within (count : Nat) (type : RunTy) : Prop :=
  ∀ handle ∈ type.mentions, handle.index < count

/-- A field mentions no type beyond a number of them. -/
def FieldInfo.Within (count : Nat) (info : FieldInfo) : Prop :=
  RunTy.Within count info.type

/-- A method mentions no type beyond a number of them. -/
def MethodInfo.Within (count : Nat) (info : MethodInfo) : Prop :=
  ∀ type ∈ info.params ++ [info.ret], RunTy.Within count type

/-- A constructor mentions no type beyond a number of them. -/
def CtorInfo.Within (count : Nat) (info : CtorInfo) : Prop :=
  ∀ type ∈ info.params, RunTy.Within count type

/-- The accessors of a property are among the first methods. -/
def PropertyInfo.Within (count : Nat) (info : PropertyInfo) : Prop :=
  ∀ accessor ∈ info.getter.toList ++ info.setter.toList, accessor.index < count

/-- The properties of a type are among the first of their table. -/
def TypeInfo.PropertiesWithin (count : Nat) (info : TypeInfo) : Prop :=
  ∀ property ∈ info.properties, property.index < count

instance (count : Nat) (type : RunTy) : Decidable (RunTy.Within count type) :=
  inferInstanceAs (Decidable (∀ handle ∈ type.mentions, handle.index < count))

instance (count : Nat) (info : FieldInfo) : Decidable (info.Within count) :=
  inferInstanceAs (Decidable (RunTy.Within count info.type))

instance (count : Nat) (info : MethodInfo) : Decidable (info.Within count) :=
  inferInstanceAs (Decidable (∀ type ∈ info.params ++ [info.ret], RunTy.Within count type))

instance (count : Nat) (info : CtorInfo) : Decidable (info.Within count) :=
  inferInstanceAs (Decidable (∀ type ∈ info.params, RunTy.Within count type))

instance (count : Nat) (info : PropertyInfo) : Decidable (info.Within count) :=
  inferInstanceAs
    (Decidable (∀ accessor ∈ info.getter.toList ++ info.setter.toList, accessor.index < count))

instance (count : Nat) (info : TypeInfo) : Decidable (info.PropertiesWithin count) :=
  inferInstanceAs (Decidable (∀ property ∈ info.properties, property.index < count))

theorem RunTy.Within.mono {later : Nat} {type : RunTy} (within : RunTy.Within count type)
    (more : count ≤ later) : RunTy.Within later type :=
  fun handle mentioned => Nat.lt_of_lt_of_le (within handle mentioned) more

namespace Image

variable {name : Name}
variable {fields : Array FieldInfo}

section Entries

variable {α : Type} {holds later : α → Prop} {table : Array α}

theorem forall_mem_push {added : α} (all : ∀ entry ∈ table, later entry) (new : later added) :
    ∀ entry ∈ table.push added, later entry := by
  intro entry member
  rcases Array.mem_push.mp member with old | rfl
  · exact all entry old
  · exact new

theorem forall_mem_modify {changed : Nat} {change : α → α} (all : ∀ entry ∈ table, holds entry)
    (keeps : ∀ entry, holds entry → holds (change entry)) :
    ∀ entry ∈ table.modify changed change, holds entry := by
  intro entry member
  obtain ⟨index, found⟩ := Array.mem_iff_getElem?.mp member
  rw [Array.getElem?_modify] at found
  split at found
  · obtain ⟨before, isBefore, rfl⟩ := Option.map_eq_some_iff.mp found
    exact keeps before (all before (Array.mem_of_getElem? isBefore))
  · exact all entry (Array.mem_of_getElem? found)

end Entries

variable {image extended : Image}

/-- A type that passes its check mentions types that are there. -/
theorem within_of_checkTy (type : RunTy) (checked : image.checkTy type = .ok ()) :
    RunTy.Within image.types.size type := by
  induction type using Ty.induct with
  | builtin builtin => nofun
  | generic definition args ih =>
      obtain ⟨-, -, checked⟩ := bind_eq_ok.mp checked
      intro handle mentioned
      rw [Ty.mentions, Ty.mem_mentionsList] at mentioned
      obtain ⟨arg, isArg, mentioned⟩ := mentioned
      exact ih arg isArg (checkTys_eq_ok.mp checked arg isArg) handle mentioned
  | declared handle =>
      obtain ⟨found, isFound, -⟩ := bind_eq_ok.mp checked
      obtain ⟨info, isInfo, -⟩ := Option.map_eq_some_iff.mp (handleOf_eq_ok.mp isFound)
      intro other mentioned
      rw [Ty.mentions, List.mem_singleton] at mentioned
      rw [mentioned]
      exact (Array.getElem?_eq_some_iff.mp isInfo).1
  | array element ih => exact ih checked

/-- Types that pass their check mention types that are there. -/
theorem within_of_checkTys (types : List RunTy) (checked : image.checkTys types = .ok ()) :
    ∀ type ∈ types, RunTy.Within image.types.size type := fun type isType =>
  within_of_checkTy type (checkTys_eq_ok.mp checked type isType)

/-- Everything that the signatures of members mention is there, and so are the accessors of
properties and the properties of types. -/
structure Signed (image : Image) : Prop where
  fields : ∀ field ∈ image.fields, field.Within image.types.size
  methods : ∀ method ∈ image.methods, method.Within image.types.size
  ctors : ∀ ctor ∈ image.ctors, ctor.Within image.types.size
  accessors : ∀ property ∈ image.properties, property.Within image.methods.size
  properties : ∀ info ∈ image.types, info.PropertiesWithin image.properties.size

theorem library_signed : library.Signed := by
  refine ⟨?_, ?_, ?_, ?_, ?_⟩
  all_goals decide +kernel

/-- The signatures of an image are in order if those in its tables are. -/
theorem Signed.of_tables {types : Array TypeInfo} {typeCount methodCount propertyCount : Nat}
    (typeSize : types.size = typeCount) (methodSize : methods.size = methodCount)
    (propertySize : properties.size = propertyCount)
    (ofFields : ∀ field ∈ fields, field.Within typeCount)
    (ofMethods : ∀ method ∈ methods, method.Within typeCount)
    (ofCtors : ∀ ctor ∈ ctors, ctor.Within typeCount)
    (accessors : ∀ property ∈ properties, property.Within methodCount)
    (ofTypes : ∀ info ∈ types, info.PropertiesWithin propertyCount) :
    Signed ⟨types, fields, methods, ctors, properties, count⟩ := by
  subst typeSize methodSize propertySize
  exact ⟨ofFields, ofMethods, ofCtors, accessors, ofTypes⟩

/-- A type that keeps its properties may change otherwise. -/
theorem Signed.modifyType_properties (signed : image.Signed)
    (keeps : ∀ info, (change info).properties = info.properties) :
    ∀ info ∈ (image.modifyType owner change).types, info.PropertiesWithin image.properties.size :=
  forall_mem_modify signed.properties fun info within property listed =>
    within property (keeps info ▸ listed)

theorem assignSlots_within (all : ∀ field ∈ fields, field.Within count) (handles : List FieldHandle)
    (nextInstance nextStatic : Nat) :
    ∀ field ∈ (assignSlots handles fields nextInstance nextStatic).1, field.Within count := by
  intro field member
  obtain ⟨index, isField⟩ := Array.mem_iff_getElem?.mp member
  have same := @map_assignSlots _ FieldInfo.type (fun _ _ => rfl) handles fields nextInstance
    nextStatic index
  rw [isField, Option.map_some, eq_comm, Option.map_eq_some_iff] at same
  obtain ⟨before, isBefore, sameType⟩ := same
  unfold FieldInfo.Within
  rw [← sameType]
  exact all before (Array.mem_of_getElem? isBefore)

/-- The signatures of members are in order in every image. -/
theorem Built.signed (built : image.Built) : image.Signed := by
  induction built with
  | library => exact library_signed
  | declareType _ done signed =>
      obtain ⟨root, above, -, -, -, -, rfl⟩ := declareType_shape done
      refine .of_tables (Array.size_push _) rfl rfl ?_ ?_ ?_ signed.accessors ?_
      · exact fun field member => (signed.fields field member).mono (Nat.le_succ _)
      · exact fun method member type isType =>
          (signed.methods method member type isType).mono (Nat.le_succ _)
      · exact fun ctor member type isType =>
          (signed.ctors ctor member type isType).mono (Nat.le_succ _)
      · exact forall_mem_push signed.properties nofun
  | declareField _ done signed =>
      obtain ⟨info, -, checked, -, -, rfl⟩ := declareField_shape done
      refine .of_tables (Array.size_modify ..) rfl rfl ?_ signed.methods signed.ctors
        signed.accessors ?_
      · exact forall_mem_push signed.fields (within_of_checkTy _ checked)
      · exact signed.modifyType_properties fun _ => rfl
  | declareMethod _ done signed =>
      obtain ⟨info, -, checked, -, -, rfl⟩ := declareMethod_shape done
      refine .of_tables (Array.size_modify ..) (Array.size_push _) rfl signed.fields ?_
        signed.ctors ?_ ?_
      · exact forall_mem_push signed.methods (within_of_checkTys _ checked)
      · intro property member accessor isAccessor
        exact Nat.lt_succ_of_lt (signed.accessors property member accessor isAccessor)
      · exact signed.modifyType_properties fun _ => rfl
  | declareCtor _ done signed =>
      obtain ⟨info, -, checked, -, -, rfl⟩ := declareCtor_shape done
      refine .of_tables (Array.size_modify ..) rfl rfl signed.fields signed.methods ?_
        signed.accessors ?_
      · exact forall_mem_push signed.ctors (within_of_checkTys _ checked)
      · exact signed.modifyType_properties fun _ => rfl
  | @declareProperty image _ _ _ _ _ _ _ _ done signed =>
      obtain ⟨info, -, checked, -, -, rfl⟩ := declareProperty_shape done
      refine .of_tables (Array.size_modify ..) rfl (Array.size_push _) signed.fields
        signed.methods signed.ctors ?_ ?_
      · refine forall_mem_push signed.accessors fun accessor isAccessor => ?_
        obtain ⟨method, isMethod, -⟩ := bind_eq_ok.mp (checked accessor isAccessor)
        exact (Array.getElem?_eq_some_iff.mp (method_eq_ok.mp isMethod)).1
      · have more : ∀ info ∈ image.types, info.PropertiesWithin (image.properties.size + 1) :=
          fun info member property listed =>
            Nat.lt_succ_of_lt (signed.properties info member property listed)
        dsimp only [modifyType]
        refine forall_mem_modify more fun info within => ?_
        exact List.forall_mem_append.mpr ⟨within, by simp⟩
  | defineMethod _ done signed =>
      obtain ⟨_, _, -, -, -, rfl⟩ := defineMethod_shape done
      refine .of_tables rfl (Array.size_modify ..) rfl signed.fields ?_ signed.ctors
        signed.accessors signed.properties
      exact forall_mem_modify signed.methods fun _ within => within
  | defineCtor _ done signed =>
      obtain ⟨_, _, -, -, -, rfl⟩ := defineCtor_shape done
      refine .of_tables rfl rfl rfl signed.fields signed.methods ?_ signed.accessors
        signed.properties
      exact forall_mem_modify signed.ctors fun _ within => within
  | sealType _ done signed =>
      obtain ⟨info, inherited, slots, -, -, -, -, -, rfl, rfl⟩ := sealType_shape done
      refine .of_tables (Array.size_modify ..) rfl rfl ?_ signed.methods signed.ctors
        signed.accessors ?_
      · exact assignSlots_within signed.fields _ _ _
      · exact signed.modifyType_properties fun _ => rfl

/-! ## Names -/

/-- The name of a declared type leads to it. -/
def Named (image : Image) : Prop :=
  ∀ handle info, image.type? handle = some info → info.origin = .declared →
    image.typeNamed? info.name = some handle

/-- Names lead where they led. -/
theorem Extends.typeNamed? (growth : image.Extends extended) {handle : TypeHandle}
    (found : image.typeNamed? name = some handle) : extended.typeNamed? name = some handle :=
  growth.findType? (fun _ _ grows => by rw [grows.origin, grows.name]) found

/-- Names still lead to their types when no type is added. -/
theorem Named.mono (named : image.Named) (growth : image.Extends extended)
    (sameSize : extended.types.size = image.types.size) : extended.Named := by
  intro handle after isAfter declared
  have present : image.types[handle.index]?.isSome = true := by
    obtain ⟨inBounds, -⟩ := Array.getElem?_eq_some_iff.mp isAfter
    rw [Array.getElem?_eq_getElem (sameSize ▸ inBounds)]
    rfl
  obtain ⟨before, isBefore, grows⟩ := growth.types.exists_before present isAfter
  rw [grows.origin] at declared
  rw [grows.name]
  exact growth.typeNamed? (named handle before isBefore declared)

theorem declareType_named {attrs : TypeAttrs} {base : Option RunTy} {interfaces : List RunTy}
    {handle : TypeHandle} (named : image.Named)
    (done : image.declareType name attrs base interfaces = .ok (handle, extended)) :
    extended.Named := by
  have growth := declareType_extends done
  obtain ⟨root, above, isNew, -, -, -, rfl⟩ := declareType_shape done
  intro other info isInfo declared
  have found : (image.types.push _)[other.index]? = some info := isInfo
  rw [Array.getElem?_push] at found
  split at found
  · rename_i isLast
    cases found
    have noneFound := Option.map_eq_none_iff.mp isNew
    unfold Image.typeNamed? Image.findType?
    rw [Array.findIdx?_push, noneFound]
    simp [Origin.isGeneric, ← isLast]
  · exact growth.typeNamed? (named other info found declared)

/-- Names lead to declared types in every image. -/
theorem Built.named (built : image.Built) : image.Named := by
  induction built with
  | library =>
      have platform : ∀ info ∈ Image.library.types, info.origin ≠ .declared := by decide +kernel
      intro handle info isInfo declared
      exact (platform info (Array.mem_of_getElem? isInfo) declared).elim
  | declareType _ done named => exact declareType_named named done
  | declareField _ done named =>
      obtain ⟨info, -, -, -, -, isExtended⟩ := declareField_shape done
      exact named.mono (declareField_extends done) (isExtended ▸ Array.size_modify ..)
  | declareMethod _ done named =>
      obtain ⟨info, -, -, -, -, isExtended⟩ := declareMethod_shape done
      exact named.mono (declareMethod_extends done) (isExtended ▸ Array.size_modify ..)
  | declareCtor _ done named =>
      obtain ⟨info, -, -, -, -, isExtended⟩ := declareCtor_shape done
      exact named.mono (declareCtor_extends done) (isExtended ▸ Array.size_modify ..)
  | declareProperty _ done named =>
      obtain ⟨info, -, -, -, -, isExtended⟩ := declareProperty_shape done
      exact named.mono (declareProperty_extends done) (isExtended ▸ Array.size_modify ..)
  | defineMethod _ done named =>
      obtain ⟨_, _, -, -, -, isExtended⟩ := defineMethod_shape done
      exact named.mono (defineMethod_extends done) (by rw [isExtended])
  | defineCtor _ done named =>
      obtain ⟨_, _, -, -, -, isExtended⟩ := defineCtor_shape done
      exact named.mono (defineCtor_extends done) (by rw [isExtended])
  | sealType _ done named =>
      obtain ⟨info, inherited, slots, -, -, -, -, -, -, isExtended⟩ := sealType_shape done
      exact named.mono (sealType_extends done) (isExtended ▸ Array.size_modify ..)

/-! ## Members of one type -/

/-- What tells the fields, the methods and the constructors of a type apart. -/
structure Apart (image : Image) (info : TypeInfo) : Prop where
  fields : ((image.fieldsOf info).map fun (_, field) => field.name).Nodup
  methods : ((image.methodsOf info).map fun (_, method) => method.signature).Nodup
  ctors : ((image.ctorsOf info).map fun (_, ctor) => ctor.params).Nodup

instance (image : Image) (info : TypeInfo) : Decidable (image.Apart info) :=
  decidable_of_iff
    (((image.fieldsOf info).map fun (_, field) => field.name).Nodup ∧
      ((image.methodsOf info).map fun (_, method) => method.signature).Nodup ∧
      ((image.ctorsOf info).map fun (_, ctor) => ctor.params).Nodup)
    ⟨fun ⟨fields, methods, ctors⟩ => ⟨fields, methods, ctors⟩,
      fun apart => ⟨apart.fields, apart.methods, apart.ctors⟩⟩

theorem library_apart : ∀ info ∈ library.types, library.Apart info := by
  decide +kernel

section Members

variable {handle : TypeHandle} {info : TypeInfo}

theorem Owned.exists_field (owned : image.Owned) (isInfo : image.type? handle = some info)
    {field : FieldHandle} (listed : field ∈ info.fields) :
    ∃ entry, image.field? field = some entry ∧ entry.owner = handle := by
  have members := owned.fields.members handle.index info isInfo
  exact Option.map_eq_some_iff.mp ((members.mem_iff field).mp listed)

theorem Owned.exists_method (owned : image.Owned) (isInfo : image.type? handle = some info)
    {method : MethodHandle} (listed : method ∈ info.methods) :
    ∃ entry, image.method? method = some entry ∧ entry.owner = handle := by
  have members := owned.methods.members handle.index info isInfo
  exact Option.map_eq_some_iff.mp ((members.mem_iff method).mp listed)

theorem Owned.exists_ctor (owned : image.Owned) (isInfo : image.type? handle = some info)
    {ctor : CtorHandle} (listed : ctor ∈ info.ctors) :
    ∃ entry, image.ctor? ctor = some entry ∧ entry.owner = handle := by
  have members := owned.ctors.members handle.index info isInfo
  exact Option.map_eq_some_iff.mp ((members.mem_iff ctor).mp listed)

/-- Members are apart where their lists are. -/
theorem Apart.of_listed {isField : FieldInfo → Prop} {isMethod : MethodInfo → Prop}
    {isCtor : CtorInfo → Prop} (fields : Listed image.field? FieldInfo.name isField info.fields)
    (methods : Listed image.method? MethodInfo.signature isMethod info.methods)
    (ctors : Listed image.ctor? CtorInfo.params isCtor info.ctors) : image.Apart info := by
  refine ⟨?_, ?_, ?_⟩
  · simpa [fieldsOf, List.map_filterMap, Function.comp_def] using fields.distinct
  · simpa [methodsOf, List.map_filterMap, Function.comp_def] using methods.distinct
  · simpa [ctorsOf, List.map_filterMap, Function.comp_def] using ctors.distinct

/-- The members of a platform type are those that the library gave it. -/
theorem apart_of_library (growth : library.Extends image) (member : info ∈ library.types) :
    image.Apart info := by
  obtain ⟨index, isInfo⟩ := Array.mem_iff_getElem?.mp member
  have apart := library_apart info member
  have found : library.type? ⟨index⟩ = some info := isInfo
  have fields : Listed library.field? FieldInfo.name (fun _ => True) info.fields := by
    refine ⟨fun field listed => ?_, ?_⟩
    · obtain ⟨entry, isEntry, -⟩ := library_owned.exists_field found listed
      exact ⟨entry, isEntry, trivial⟩
    · simpa [fieldsOf, List.map_filterMap, Function.comp_def] using apart.fields
  have methods : Listed library.method? MethodInfo.signature (fun _ => True) info.methods := by
    refine ⟨fun method listed => ?_, ?_⟩
    · obtain ⟨entry, isEntry, -⟩ := library_owned.exists_method found listed
      exact ⟨entry, isEntry, trivial⟩
    · simpa [methodsOf, List.map_filterMap, Function.comp_def] using apart.methods
  have ctors : Listed library.ctor? CtorInfo.params (fun _ => True) info.ctors := by
    refine ⟨fun ctor listed => ?_, ?_⟩
    · obtain ⟨entry, isEntry, -⟩ := library_owned.exists_ctor found listed
      exact ⟨entry, isEntry, trivial⟩
    · simpa [ctorsOf, List.map_filterMap, Function.comp_def] using apart.ctors
  refine .of_listed (growth.fieldsListed fields) (methods.mono fun method entry isEntry => ?_)
    (ctors.mono fun ctor entry isEntry => ?_)
  · obtain ⟨after, isAfter, grows⟩ := growth.methods _ entry isEntry
    refine ⟨after, isAfter, ?_, id⟩
    rw [MethodInfo.signature, MethodInfo.signature, grows.name, grows.params, grows.attrs]
  · obtain ⟨after, isAfter, grows⟩ := growth.ctors _ entry isEntry
    exact ⟨after, isAfter, grows.params, id⟩

/-- The members of every type are apart in every image. -/
theorem Built.apart (built : image.Built) (isInfo : image.type? handle = some info) :
    image.Apart info := by
  by_cases declared : info.origin = .declared
  · have entry := built.orderly handle info isInfo declared
    exact .of_listed entry.fields entry.methods entry.ctors
  · exact apart_of_library built.extends_library
      (built.platform info (Array.mem_of_getElem? isInfo) declared)

/-! ## Completed types -/

/-- A type and its members are the same in another image. -/
structure KeepsType (image later : Image) (handle : TypeHandle) (info : TypeInfo) : Prop where
  type : later.type? handle = some info
  fields : ∀ field ∈ info.fields, later.field? field = image.field? field
  methods : ∀ method ∈ info.methods, later.method? method = image.method? method
  ctors : ∀ ctor ∈ info.ctors, later.ctor? ctor = image.ctor? ctor
  properties : ∀ property ∈ info.properties, later.property? property = image.property? property

theorem KeepsType.refl (isInfo : image.type? handle = some info) : image.KeepsType image handle info :=
  ⟨isInfo, fun _ _ => rfl, fun _ _ => rfl, fun _ _ => rfl, fun _ _ => rfl⟩

theorem KeepsType.trans {later last : Image} (early : image.KeepsType later handle info)
    (late : later.KeepsType last handle info) : image.KeepsType last handle info :=
  ⟨late.type, fun field listed => (late.fields field listed).trans (early.fields field listed),
    fun method listed => (late.methods method listed).trans (early.methods method listed),
    fun ctor listed => (late.ctors ctor listed).trans (early.ctors ctor listed),
    fun property listed =>
      (late.properties property listed).trans (early.properties property listed)⟩

theorem KeepsType.symm {later : Image} (keeps : image.KeepsType later handle info)
    (isInfo : image.type? handle = some info) : later.KeepsType image handle info :=
  ⟨isInfo, fun _ listed => (keeps.fields _ listed).symm, fun _ listed =>
    (keeps.methods _ listed).symm, fun _ listed => (keeps.ctors _ listed).symm,
    fun _ listed => (keeps.properties _ listed).symm⟩

/-- A type that is complete is not the one that is open. -/
theorem ne_of_openType {opened : TypeInfo} (isInfo : image.type? handle = some info)
    (complete : info.isComplete = true) (isOpen : image.openType owner = .ok opened) :
    owner ≠ handle := by
  obtain ⟨isOpened, -, incomplete⟩ := openType_eq_ok.mp isOpen
  rintro rfl
  obtain rfl := Option.some.inj (isOpened.symm.trans isInfo)
  cases complete.symm.trans incomplete

theorem type?_modifyType_of_ne (different : owner ≠ handle) :
    (image.modifyType owner change).type? handle = image.type? handle := by
  rw [type?, modifyType, Array.getElem?_modify, if_neg fun same => ?_]
  · rfl
  · exact different (congrArg TypeHandle.mk same)

theorem Request.keeps (request : Request image extended) (built : image.Built)
    (isInfo : image.type? handle = some info) (complete : info.isComplete = true) :
    image.KeepsType extended handle info := by
  have owned := built.owned
  cases request with
  | declareType done =>
      obtain ⟨root, above, -, -, -, -, rfl⟩ := declareType_shape done
      exact ⟨getElem?_push_of_eq_some isInfo, fun _ _ => rfl, fun _ _ => rfl, fun _ _ => rfl,
        fun _ _ => rfl⟩
  | declareField done =>
      obtain ⟨opened, isOpen, -, -, -, rfl⟩ := declareField_shape done
      refine ⟨(type?_modifyType_of_ne (ne_of_openType isInfo complete isOpen)).trans isInfo,
        fun field listed => ?_, fun _ _ => rfl, fun _ _ => rfl, fun _ _ => rfl⟩
      obtain ⟨entry, isEntry, -⟩ := owned.exists_field isInfo listed
      exact (getElem?_push_of_eq_some isEntry).trans isEntry.symm
  | declareMethod done =>
      obtain ⟨opened, isOpen, -, -, -, rfl⟩ := declareMethod_shape done
      refine ⟨(type?_modifyType_of_ne (ne_of_openType isInfo complete isOpen)).trans isInfo,
        fun _ _ => rfl, fun method listed => ?_, fun _ _ => rfl, fun _ _ => rfl⟩
      obtain ⟨entry, isEntry, -⟩ := owned.exists_method isInfo listed
      exact (getElem?_push_of_eq_some isEntry).trans isEntry.symm
  | declareCtor done =>
      obtain ⟨opened, isOpen, -, -, -, rfl⟩ := declareCtor_shape done
      refine ⟨(type?_modifyType_of_ne (ne_of_openType isInfo complete isOpen)).trans isInfo,
        fun _ _ => rfl, fun _ _ => rfl, fun ctor listed => ?_, fun _ _ => rfl⟩
      obtain ⟨entry, isEntry, -⟩ := owned.exists_ctor isInfo listed
      exact (getElem?_push_of_eq_some isEntry).trans isEntry.symm
  | declareProperty done =>
      obtain ⟨opened, isOpen, -, -, -, rfl⟩ := declareProperty_shape done
      refine ⟨(type?_modifyType_of_ne (ne_of_openType isInfo complete isOpen)).trans isInfo,
        fun _ _ => rfl, fun _ _ => rfl, fun _ _ => rfl, fun property listed => ?_⟩
      have inBounds := built.signed.properties info (Array.mem_of_getElem? isInfo) property listed
      exact Array.getElem?_push_lt inBounds |>.trans (Array.getElem?_eq_getElem inBounds).symm
  | @defineMethod defined body done =>
      obtain ⟨method, opened, isMethod, isOpen, -, rfl⟩ := defineMethod_shape done
      refine ⟨isInfo, fun _ _ => rfl, fun other listed => ?_, fun _ _ => rfl, fun _ _ => rfl⟩
      obtain ⟨entry, isEntry, isOwner⟩ := owned.exists_method isInfo listed
      have different : defined.index ≠ other.index := by
        intro same
        obtain rfl : defined = other := congrArg MethodHandle.mk same
        obtain rfl := Option.some.inj (isEntry.symm.trans isMethod)
        exact ne_of_openType isInfo complete isOpen isOwner
      exact Array.getElem?_modify.trans (if_neg different)
  | @defineCtor defined body done =>
      obtain ⟨ctor, opened, isCtor, isOpen, -, rfl⟩ := defineCtor_shape done
      refine ⟨isInfo, fun _ _ => rfl, fun _ _ => rfl, fun other listed => ?_, fun _ _ => rfl⟩
      obtain ⟨entry, isEntry, isOwner⟩ := owned.exists_ctor isInfo listed
      have different : defined.index ≠ other.index := by
        intro same
        obtain rfl : defined = other := congrArg CtorHandle.mk same
        obtain rfl := Option.some.inj (isEntry.symm.trans isCtor)
        exact ne_of_openType isInfo complete isOpen isOwner
      exact Array.getElem?_modify.trans (if_neg different)
  | sealType done =>
      obtain ⟨opened, inherited, slots, isOpen, -, -, -, -, rfl, rfl⟩ := sealType_shape done
      have different := ne_of_openType isInfo complete isOpen
      refine ⟨(type?_modifyType_of_ne different).trans isInfo,
        fun field listed => ?_, fun _ _ => rfl, fun _ _ => rfl, fun _ _ => rfl⟩
      refine assignSlots_of_notMem (fun alsoListed => ?_) _ _ _
      obtain ⟨entry, isEntry, isOwner⟩ := owned.exists_field isInfo listed
      obtain ⟨other, isOther, isOtherOwner⟩ :=
        owned.exists_field (openType_eq_ok.mp isOpen).1 alsoListed
      obtain rfl := Option.some.inj (isEntry.symm.trans isOther)
      exact different (isOtherOwner.symm.trans isOwner)

/-- A completed type stays as it is, whatever is asked for. -/
theorem Requests.keeps {later : Image} (requests : Requests image later) (built : image.Built)
    (isInfo : image.type? handle = some info) (complete : info.isComplete = true) :
    image.KeepsType later handle info := by
  induction requests with
  | refl => exact .refl isInfo
  | tail early request keeps =>
      exact keeps.trans (request.keeps (Requests.built early built) keeps.type complete)

end Members

/-! ## Everything together -/

/-- The tables of an image point into each other as they should. -/
structure WellFormed (image : Image) : Prop where
  owned : image.Owned
  signed : image.Signed
  named : image.Named
  /-- The base and the interfaces of a type came before it. -/
  earlier : ∀ handle info, image.type? handle = some info →
    ∀ above ∈ info.base.toList ++ info.interfaces, above.index < handle.index
  apart : ∀ handle info, image.type? handle = some info → image.Apart info

/-- Every image that there is is well-formed. -/
theorem Built.wellFormed (built : image.Built) : image.WellFormed := by
  refine ⟨built.owned, built.signed, built.named, fun handle info isInfo above listed => ?_,
    fun _ _ => built.apart⟩
  have founded := built.rooted handle info isInfo
  rcases List.mem_append.mp listed with isBase | isInterface
  · exact founded.earlier above (Option.mem_toList.mp isBase)
  · exact founded.interfaces above isInterface

/-- No walk from types to their bases and interfaces goes on forever. -/
theorem Rooted.wellFounded (rooted : image.Rooted) :
    WellFounded fun upper lower => image.Below lower upper :=
  Subrelation.wf (fun below => rooted.earlier below) (measure TypeHandle.index).wf

/-- A walk along the bases of a type ends within as many steps as types came before it. -/
theorem Rooted.lineageUpTo_eq (rooted : image.Rooted) {bound : Nat} {handle : TypeHandle}
    (enough : handle.index < bound) : image.lineageUpTo bound handle = image.lineage handle := by
  have agree : ∀ first second (handle : TypeHandle), handle.index < first →
      handle.index < second → image.lineageUpTo first handle = image.lineageUpTo second handle := by
    intro first
    induction first with
    | zero => intro _ _ impossible; omega
    | succ first ih =>
        intro second handle isFirst isSecond
        obtain ⟨second, rfl⟩ := Nat.exists_eq_succ_of_ne_zero (Nat.ne_zero_of_lt isSecond)
        rw [lineageUpTo, lineageUpTo]
        cases isInfo : image.type? handle with
        | none => rfl
        | some info =>
            dsimp only
            cases isBase : info.base with
            | none => rfl
            | some base =>
                have smaller := (rooted handle info isInfo).earlier base isBase
                exact congrArg (info :: ·) (ih second base (by omega) (by omega))
  exact agree _ _ handle enough (Nat.lt_succ_self _)

end Image

end ClassForge
