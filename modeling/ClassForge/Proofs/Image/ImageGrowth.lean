import ClassForge.Proofs.Image.Platform

/-!
# How images grow

Requests add entries to the tables of an image.  An entry that is there stays, and of what
it says only a little ever changes: an open type gets members and is completed, a field
gets its slot, and a member without code gets it.  The members of a declared type are told
apart by their signatures, and those of a completed type that need code have it.
-/

namespace ClassForge

variable {type : RunTy} {change : TypeInfo → TypeInfo} {base : Option RunTy}
variable {interfaces params : List RunTy} {getter setter : Option MethodHandle}
variable {realized : RealizedType}

/-! ## Tables -/

section Tables

variable {α : Type} {relation : α → α → Prop} {before middle after : Array α}

/-- Every entry of a table has its counterpart at the same place in another one. -/
def Persists (relation : α → α → Prop) (before after : Array α) : Prop :=
  ∀ index : Nat, ∀ value ∈ before[index]?, ∃ later ∈ after[index]?, relation value later

namespace Persists

theorem refl (reflexive : ∀ value, relation value value) (table : Array α) :
    Persists relation table table :=
  fun _ value found => ⟨value, found, reflexive value⟩

theorem trans (transitive : ∀ {first second third},
      relation first second → relation second third → relation first third)
    (first : Persists relation before middle)
    (second : Persists relation middle after) : Persists relation before after := by
  intro index value found
  obtain ⟨between, isBetween, early⟩ := first index value found
  obtain ⟨later, isLater, late⟩ := second index between isBetween
  exact ⟨later, isLater, transitive early late⟩

theorem push (persists : Persists relation before after) (added : α) :
    Persists relation before (after.push added) := by
  intro index value found
  obtain ⟨later, isLater, holds⟩ := persists index value found
  exact ⟨later, Image.getElem?_push_of_eq_some isLater, holds⟩

/-- An entry may be changed where the change is related to what was there. -/
theorem modify (reflexive : ∀ value, relation value value) {changed : Nat} {change : α → α}
    (changes : ∀ value ∈ before[changed]?, relation value (change value)) :
    Persists relation before (before.modify changed change) := by
  intro index value found
  by_cases same : changed = index
  · subst same
    refine ⟨change value, ?_, changes value found⟩
    rw [Array.getElem?_modify, if_pos rfl, found]
    rfl
  · refine ⟨value, ?_, reflexive value⟩
    rw [Array.getElem?_modify, if_neg same, found]
    rfl

/-- Entries behind those of the first table may be changed at will. -/
theorem modify_beyond (persists : Persists relation before after) {changed : Nat}
    (beyond : before.size ≤ changed) (change : α → α) :
    Persists relation before (after.modify changed change) := by
  intro index value found
  obtain ⟨later, isLater, holds⟩ := persists index value found
  obtain ⟨inBounds, -⟩ := Array.getElem?_eq_some_iff.mp found
  refine ⟨later, ?_, holds⟩
  rw [Array.getElem?_modify, if_neg (by omega)]
  exact isLater

/-- What there was an entry for comes from it. -/
theorem exists_before (persists : Persists relation before after) {index : Nat} {later : α}
    (present : before[index]?.isSome = true) (found : after[index]? = some later) :
    ∃ value, before[index]? = some value ∧ relation value later := by
  obtain ⟨value, isValue⟩ := Option.isSome_iff_exists.mp present
  obtain ⟨other, isOther, holds⟩ := persists index value isValue
  obtain rfl := Option.some.inj (isOther.symm.trans found)
  exact ⟨value, isValue, holds⟩

theorem size_le (persists : Persists relation before after) : before.size ≤ after.size := by
  by_contra smaller
  obtain ⟨later, isLater, -⟩ :=
    persists after.size _ (Array.getElem?_eq_getElem (Nat.lt_of_not_le smaller))
  simp at isLater

end Persists

end Tables

/-! ## What stays of an entry -/

/-- A type keeps what it was declared with and what it has; it may get more members and be
completed. -/
structure TypeInfo.Grows (before after : TypeInfo) : Prop where
  name : after.name = before.name
  attrs : after.attrs = before.attrs
  origin : after.origin = before.origin
  base : after.base = before.base
  interfaces : after.interfaces = before.interfaces
  fields : before.fields ⊆ after.fields
  methods : before.methods ⊆ after.methods
  ctors : before.ctors ⊆ after.ctors
  properties : before.properties ⊆ after.properties
  isComplete : before.isComplete = true → after.isComplete = true

/-- A field keeps all but its slot. -/
structure FieldInfo.Grows (before after : FieldInfo) : Prop where
  name : after.name = before.name
  type : after.type = before.type
  attrs : after.attrs = before.attrs

/-- A member that has no code may get some. -/
def Implementation.Grows (before after : Implementation) : Prop :=
  after = before ∨ before = .missing ∧ ∃ body, after = .code body

/-- A method keeps its signature and the code it has. -/
structure MethodInfo.Grows (before after : MethodInfo) : Prop where
  name : after.name = before.name
  attrs : after.attrs = before.attrs
  params : after.params = before.params
  ret : after.ret = before.ret
  implementation : before.implementation.Grows after.implementation

/-- A constructor keeps its parameters and the code it has. -/
structure CtorInfo.Grows (before after : CtorInfo) : Prop where
  params : after.params = before.params
  implementation : before.implementation.Grows after.implementation

theorem TypeInfo.Grows.refl (info : TypeInfo) : info.Grows info :=
  ⟨rfl, rfl, rfl, rfl, rfl, List.Subset.refl _, List.Subset.refl _, List.Subset.refl _,
    List.Subset.refl _, id⟩

theorem TypeInfo.Grows.trans {first second third : TypeInfo}
    (early : first.Grows second) (late : second.Grows third) : first.Grows third :=
  ⟨late.name.trans early.name, late.attrs.trans early.attrs, late.origin.trans early.origin,
    late.base.trans early.base, late.interfaces.trans early.interfaces,
    List.Subset.trans early.fields late.fields, List.Subset.trans early.methods late.methods,
    List.Subset.trans early.ctors late.ctors, List.Subset.trans early.properties late.properties,
    late.isComplete ∘ early.isComplete⟩

theorem FieldInfo.Grows.refl (info : FieldInfo) : info.Grows info :=
  ⟨rfl, rfl, rfl⟩

theorem FieldInfo.Grows.trans {first second third : FieldInfo}
    (early : first.Grows second) (late : second.Grows third) : first.Grows third :=
  ⟨late.name.trans early.name, late.type.trans early.type, late.attrs.trans early.attrs⟩

theorem Implementation.Grows.refl (implementation : Implementation) :
    implementation.Grows implementation :=
  .inl rfl

theorem Implementation.Grows.trans {first second third : Implementation}
    (early : first.Grows second) (late : second.Grows third) : first.Grows third := by
  rcases early with rfl | ⟨missing, body, rfl⟩
  · exact late
  · rcases late with rfl | ⟨⟨⟩, -⟩
    exact .inr ⟨missing, body, rfl⟩

theorem MethodInfo.Grows.refl (info : MethodInfo) : info.Grows info :=
  ⟨rfl, rfl, rfl, rfl, .refl _⟩

theorem MethodInfo.Grows.trans {first second third : MethodInfo}
    (early : first.Grows second) (late : second.Grows third) : first.Grows third :=
  ⟨late.name.trans early.name, late.attrs.trans early.attrs, late.params.trans early.params,
    late.ret.trans early.ret, early.implementation.trans late.implementation⟩

theorem CtorInfo.Grows.refl (info : CtorInfo) : info.Grows info :=
  ⟨rfl, .refl _⟩

theorem CtorInfo.Grows.trans {first second third : CtorInfo}
    (early : first.Grows second) (late : second.Grows third) : first.Grows third :=
  ⟨late.params.trans early.params, early.implementation.trans late.implementation⟩

namespace Image

/-- Every entry of an image is there in another one, and says what it said. -/
structure Extends (image extended : Image) : Prop where
  types : Persists TypeInfo.Grows image.types extended.types
  fields : Persists FieldInfo.Grows image.fields extended.fields
  methods : Persists MethodInfo.Grows image.methods extended.methods
  ctors : Persists CtorInfo.Grows image.ctors extended.ctors
  properties : Persists Eq image.properties extended.properties

theorem Extends.refl (image : Image) : image.Extends image :=
  ⟨.refl .refl _, .refl .refl _, .refl .refl _, .refl .refl _, .refl (fun _ => rfl) _⟩

theorem Extends.trans {first second third : Image} (early : first.Extends second)
    (late : second.Extends third) : first.Extends third :=
  ⟨.trans .trans early.types late.types, .trans .trans early.fields late.fields,
    .trans .trans early.methods late.methods, .trans .trans early.ctors late.ctors,
    .trans Eq.trans early.properties late.properties⟩

/-- What is found by something that does not change is found in a later image too. -/
theorem Extends.findType? {image extended : Image} (growth : image.Extends extended)
    {test : TypeInfo → Bool} {handle : TypeHandle}
    (stable : ∀ before after, TypeInfo.Grows before after → test after = test before)
    (found : image.findType? test = some handle) : extended.findType? test = some handle := by
  obtain ⟨index, isIndex, rfl⟩ := Option.map_eq_some_iff.mp found
  obtain ⟨inBounds, fits, others⟩ := Array.findIdx?_eq_some_iff_getElem.mp isIndex
  have same : ∀ other (within : other < image.types.size),
      ∃ later, extended.types[other]? = some later ∧
        test later = test image.types[other] := fun other within => by
    obtain ⟨later, isLater, grows⟩ :=
      growth.types other _ (Array.getElem?_eq_getElem within)
    exact ⟨later, isLater, stable _ _ grows⟩
  refine Option.map_eq_some_iff.mpr ⟨index, Array.findIdx?_eq_some_iff_getElem.mpr ?_, rfl⟩
  obtain ⟨later, isLater, sameTest⟩ := same index inBounds
  obtain ⟨laterBounds, rfl⟩ := Array.getElem?_eq_some_iff.mp isLater
  refine ⟨laterBounds, by rwa [sameTest], fun other before => ?_⟩
  obtain ⟨_, isOther, otherTest⟩ := same other (Nat.lt_trans before inBounds)
  obtain ⟨_, rfl⟩ := Array.getElem?_eq_some_iff.mp isOther
  rw [otherTest]
  exact others other before

/-- What types stand for does not change. -/
theorem Extends.handleOf {image extended : Image} (growth : image.Extends extended)
    {handle : TypeHandle} (found : image.handleOf type = .ok handle) :
    extended.handleOf type = .ok handle := by
  have ofOrigin : ∀ {origin : Origin},
      image.findType? (fun info => info.origin == origin) = some handle →
      extended.findType? (fun info => info.origin == origin) = some handle :=
    growth.findType? fun _ _ grows => by rw [grows.origin]
  unfold Image.handleOf at found ⊢
  cases isHandle : image.handleOf? type with
  | none => simp [isHandle] at found
  | some other =>
      rw [isHandle] at found
      cases found
      have later : extended.handleOf? type = some handle := by
        cases type with
        | builtin builtin => exact ofOrigin isHandle
        | generic definition args => exact ofOrigin isHandle
        | array element => cases isHandle
        | declared other =>
            obtain ⟨info, isInfo, rfl⟩ := Option.map_eq_some_iff.mp isHandle
            obtain ⟨later, isLater, -⟩ := growth.types _ info isInfo
            exact Option.map_eq_some_iff.mpr ⟨later, isLater, rfl⟩
      rw [later]

/-- Changing the entry of a type so that it grows. -/
theorem persists_modifyType {image : Image} (owner : TypeHandle)
    (grows : ∀ info, TypeInfo.Grows info (change info)) :
    Persists TypeInfo.Grows image.types (image.modifyType owner change).types :=
  .modify .refl fun info _ => grows info

/-! ## Requests -/

section Requests

variable {image extended : Image} {owner : TypeHandle} {name : Name}
variable {handle : MethodHandle} {body : Body}

theorem declareType_extends {attrs : TypeAttrs} {handle : TypeHandle}
    (done : image.declareType name attrs base interfaces = .ok (handle, extended)) :
    image.Extends extended := by
  obtain ⟨root, above, -, -, -, -, rfl⟩ := declareType_shape done
  have same := Extends.refl image
  exact ⟨same.types.push _, same.fields, same.methods, same.ctors, same.properties⟩

theorem declareField_extends {attrs : FieldAttrs} {handle : FieldHandle}
    (done : image.declareField owner name type attrs = .ok (handle, extended)) :
    image.Extends extended := by
  obtain ⟨info, -, -, -, -, rfl⟩ := declareField_shape done
  have same := Extends.refl image
  refine ⟨persists_modifyType owner fun info => ?_, same.fields.push _, same.methods, same.ctors,
    same.properties⟩
  exact { TypeInfo.Grows.refl info with fields := List.subset_append_left _ _ }

theorem declareMethod_extends {attrs : MethodAttrs} {ret : RunTy}
    (done : image.declareMethod owner name attrs params ret = .ok (handle, extended)) :
    image.Extends extended := by
  obtain ⟨info, -, -, -, -, rfl⟩ := declareMethod_shape done
  have same := Extends.refl image
  refine ⟨persists_modifyType owner fun info => ?_, same.fields, same.methods.push _, same.ctors,
    same.properties⟩
  exact { TypeInfo.Grows.refl info with methods := List.subset_append_left _ _ }

theorem declareCtor_extends {handle : CtorHandle}
    (done : image.declareCtor owner params = .ok (handle, extended)) :
    image.Extends extended := by
  obtain ⟨info, -, -, -, -, rfl⟩ := declareCtor_shape done
  have same := Extends.refl image
  refine ⟨persists_modifyType owner fun info => ?_, same.fields, same.methods, same.ctors.push _,
    same.properties⟩
  exact { TypeInfo.Grows.refl info with ctors := List.subset_append_left _ _ }

theorem declareProperty_extends {handle : PropertyHandle}
    (done : image.declareProperty owner name type getter setter = .ok (handle, extended)) :
    image.Extends extended := by
  obtain ⟨info, -, -, -, -, rfl⟩ := declareProperty_shape done
  have same := Extends.refl image
  refine ⟨persists_modifyType owner fun info => ?_, same.fields, same.methods, same.ctors,
    same.properties.push _⟩
  exact { TypeInfo.Grows.refl info with properties := List.subset_append_left _ _ }

theorem defineMethod_extends (done : image.defineMethod handle body = .ok extended) :
    image.Extends extended := by
  obtain ⟨info, _, isMethod, -, missing, rfl⟩ := defineMethod_shape done
  have same := Extends.refl image
  refine ⟨same.types, same.fields, .modify .refl fun value found => ?_, same.ctors,
    same.properties⟩
  have isInfo : value = info := Option.some.inj (found.symm.trans isMethod)
  exact ⟨rfl, rfl, rfl, rfl, .inr ⟨isInfo ▸ missing, body, rfl⟩⟩

theorem defineCtor_extends {handle : CtorHandle}
    (done : image.defineCtor handle body = .ok extended) : image.Extends extended := by
  obtain ⟨info, _, isCtor, -, missing, rfl⟩ := defineCtor_shape done
  have same := Extends.refl image
  refine ⟨same.types, same.fields, same.methods, .modify .refl fun value found => ?_,
    same.properties⟩
  have isInfo : value = info := Option.some.inj (found.symm.trans isCtor)
  exact ⟨rfl, .inr ⟨isInfo ▸ missing, body, rfl⟩⟩

/-- Slots are all that fields get. -/
theorem assignSlots_persists (handles : List FieldHandle) (fields : Array FieldInfo)
    (nextInstance nextStatic : Nat) :
    Persists FieldInfo.Grows fields (assignSlots handles fields nextInstance nextStatic).1 := by
  have set : ∀ (fields : Array FieldInfo) (handle : FieldHandle) (entry : FieldInfo) (slot : Nat),
      fields[handle.index]? = some entry →
      Persists FieldInfo.Grows fields
        (fields.setIfInBounds handle.index { entry with slot }) := by
    intro fields handle entry slot isEntry index field isField
    rw [Array.getElem?_setIfInBounds]
    by_cases same : handle.index = index
    · subst same
      obtain ⟨inBounds, -⟩ := Array.getElem?_eq_some_iff.mp isEntry
      have isField := Option.some.inj (isEntry.symm.trans isField)
      rw [if_pos rfl, if_pos inBounds]
      exact ⟨_, rfl, isField ▸ ⟨rfl, rfl, rfl⟩⟩
    · rw [if_neg same]
      exact ⟨field, isField, .refl field⟩
  induction handles generalizing fields nextInstance nextStatic with
  | nil => exact .refl .refl _
  | cons handle handles ih =>
      rw [assignSlots]
      split
      · exact ih _ _ _
      · rename_i entry isEntry
        split
        all_goals exact .trans .trans (set _ _ _ _ isEntry) (ih _ _ _)

theorem sealType_extends {handle : TypeHandle}
    (done : image.sealType handle = .ok (realized, extended)) : image.Extends extended := by
  obtain ⟨info, inherited, slots, -, -, -, -, -, rfl, rfl⟩ := sealType_shape done
  have same := Extends.refl image
  refine ⟨persists_modifyType handle fun info => ?_, assignSlots_persists _ _ _ _, same.methods,
    same.ctors, same.properties⟩
  exact { TypeInfo.Grows.refl info with isComplete := fun _ => rfl }

end Requests

end Image

/-! ## Members of declared types -/

section Listed

variable {η α σ : Type} {find later : η → Option α} {signature : α → σ} {good : α → Prop}
variable {handles : List η}

/-- Handles lead to good entries, which are told apart by their signatures. -/
structure Listed (find : η → Option α) (signature : α → σ) (good : α → Prop)
    (handles : List η) : Prop where
  found : ∀ handle ∈ handles, ∃ entry ∈ find handle, good entry
  distinct : (handles.filterMap fun handle => (find handle).map signature).Nodup

theorem Listed.nil : Listed find signature good [] :=
  ⟨by simp, by simp⟩

theorem Listed.mono (listed : Listed find signature good handles)
    (keeps : ∀ handle, ∀ entry ∈ find handle, ∃ after ∈ later handle,
      signature after = signature entry ∧ (good entry → good after)) :
    Listed later signature good handles := by
  refine ⟨fun handle member => ?_, ?_⟩
  · obtain ⟨entry, isEntry, isGood⟩ := listed.found handle member
    obtain ⟨after, isAfter, -, stays⟩ := keeps handle entry isEntry
    exact ⟨after, isAfter, stays isGood⟩
  · rw [List.filterMap_congr fun handle member => ?_]
    · exact listed.distinct
    · obtain ⟨entry, isEntry, -⟩ := listed.found handle member
      obtain ⟨after, isAfter, same, -⟩ := keeps handle entry isEntry
      rw [show find handle = some entry from isEntry, show later handle = some after from isAfter]
      exact congrArg some same

/-- A handle may be added whose entry has a new signature. -/
theorem Listed.append (listed : Listed find signature good handles) {handle : η} {entry : α}
    (isEntry : find handle = some entry) (isGood : good entry)
    (isNew : ∀ other ∈ handles, ∀ value ∈ find other, signature value ≠ signature entry) :
    Listed find signature good (handles ++ [handle]) := by
  refine ⟨fun other member => ?_, ?_⟩
  · rcases List.mem_append.mp member with early | late
    · exact listed.found other early
    · rw [List.mem_singleton.mp late]
      exact ⟨entry, isEntry, isGood⟩
  · rw [List.filterMap_append, List.nodup_append]
    refine ⟨listed.distinct, by simp [isEntry], ?_⟩
    rintro first isFirst second isSecond rfl
    obtain ⟨other, member, mapped⟩ := List.mem_filterMap.mp isFirst
    obtain ⟨value, isValue, rfl⟩ := Option.map_eq_some_iff.mp mapped
    simp only [List.filterMap_cons, isEntry, Option.map_some, List.filterMap_nil,
      List.mem_singleton] at isSecond
    exact isNew other member value isValue isSecond

end Listed

/-- What tells methods of a type apart. -/
def MethodInfo.signature (info : MethodInfo) : Name × List RunTy × Bool :=
  (info.name, info.params, info.attrs.isStatic)

/-- A member that runs code, if it runs at all. -/
def Implementation.IsOwn (implementation : Implementation) : Prop :=
  ∀ native, implementation ≠ .native native

theorem Implementation.Grows.isOwn {before after : Implementation} (grows : before.Grows after)
    (isOwn : before.IsOwn) : after.IsOwn := by
  rcases grows with rfl | ⟨-, body, rfl⟩
  · exact isOwn
  · rintro native ⟨⟩

theorem Implementation.Grows.isMissing {before after : Implementation} (grows : before.Grows after)
    (present : before.isMissing = false) : after.isMissing = false := by
  rcases grows with rfl | ⟨rfl, -⟩
  · exact present
  · cases present

theorem Implementation.exists_code {implementation : Implementation} (isOwn : implementation.IsOwn)
    (present : implementation.isMissing = false) : ∃ body, implementation = .code body := by
  cases implementation with
  | missing => cases present
  | code body => exact ⟨body, rfl⟩
  | native native => exact (isOwn native rfl).elim

namespace Image

variable {handle : MethodHandle}

/-- The members of a declared type are told apart by their signatures, and once the type
is complete those that need code have it. -/
structure DeclaredEntry (image : Image) (info : TypeInfo) : Prop where
  fields : Listed image.field? FieldInfo.name (fun _ => True) info.fields
  methods : Listed image.method? MethodInfo.signature (·.implementation.IsOwn) info.methods
  ctors : Listed image.ctor? CtorInfo.params (·.implementation.IsOwn) info.ctors
  properties : Listed image.property? PropertyInfo.name (fun _ => True) info.properties
  methodBodies : info.isComplete = true → ∀ handle ∈ info.methods,
    ∀ method ∈ image.method? handle, method.attrs.isAbstract = false →
      method.implementation.isMissing = false
  ctorBodies : info.isComplete = true → ∀ handle ∈ info.ctors,
    ∀ ctor ∈ image.ctor? handle, ctor.implementation.isMissing = false

/-- Every declared type of an image has such members. -/
def Orderly (image : Image) : Prop :=
  ∀ handle, ∀ info ∈ image.type? handle, info.origin = .declared → image.DeclaredEntry info

variable {image extended : Image} {owner : TypeHandle} {name : Name} {info : TypeInfo}

section

variable (growth : image.Extends extended)
include growth

theorem Extends.fieldsListed {handles : List FieldHandle}
    (listed : Listed image.field? FieldInfo.name (fun _ => True) handles) :
    Listed extended.field? FieldInfo.name (fun _ => True) handles := by
  refine listed.mono fun handle entry isEntry => ?_
  obtain ⟨after, isAfter, grows⟩ := growth.fields _ entry isEntry
  exact ⟨after, isAfter, grows.name, id⟩

theorem Extends.methodsListed {handles : List MethodHandle}
    (listed : Listed image.method? MethodInfo.signature (·.implementation.IsOwn) handles) :
    Listed extended.method? MethodInfo.signature (·.implementation.IsOwn) handles := by
  refine listed.mono fun handle entry isEntry => ?_
  obtain ⟨after, isAfter, grows⟩ := growth.methods _ entry isEntry
  refine ⟨after, isAfter, ?_, grows.implementation.isOwn⟩
  rw [MethodInfo.signature, MethodInfo.signature, grows.name, grows.params, grows.attrs]

theorem Extends.ctorsListed {handles : List CtorHandle}
    (listed : Listed image.ctor? CtorInfo.params (·.implementation.IsOwn) handles) :
    Listed extended.ctor? CtorInfo.params (·.implementation.IsOwn) handles := by
  refine listed.mono fun handle entry isEntry => ?_
  obtain ⟨after, isAfter, grows⟩ := growth.ctors _ entry isEntry
  exact ⟨after, isAfter, grows.params, grows.implementation.isOwn⟩

theorem Extends.propertiesListed {handles : List PropertyHandle}
    (listed : Listed image.property? PropertyInfo.name (fun _ => True) handles) :
    Listed extended.property? PropertyInfo.name (fun _ => True) handles := by
  refine listed.mono fun handle entry isEntry => ?_
  obtain ⟨after, isAfter, rfl⟩ := growth.properties _ entry isEntry
  exact ⟨entry, isAfter, rfl, id⟩

/-- An entry that itself stays the same keeps its members. -/
theorem Extends.declaredEntry (entry : image.DeclaredEntry info) : extended.DeclaredEntry info := by
  refine ⟨growth.fieldsListed entry.fields, growth.methodsListed entry.methods,
    growth.ctorsListed entry.ctors, growth.propertiesListed entry.properties, ?_, ?_⟩
  · intro complete handle listed method isMethod concrete
    obtain ⟨before, isBefore, -⟩ := entry.methods.found handle listed
    obtain ⟨after, isAfter, grows⟩ := growth.methods _ before isBefore
    obtain rfl := Option.some.inj (isAfter.symm.trans isMethod)
    rw [grows.attrs] at concrete
    exact grows.implementation.isMissing
      (entry.methodBodies complete handle listed before isBefore concrete)
  · intro complete handle listed ctor isCtor
    obtain ⟨before, isBefore, -⟩ := entry.ctors.found handle listed
    obtain ⟨after, isAfter, grows⟩ := growth.ctors _ before isBefore
    obtain rfl := Option.some.inj (isAfter.symm.trans isCtor)
    exact grows.implementation.isMissing
      (entry.ctorBodies complete handle listed before isBefore)

end

/-- Members stay in order when only the entry of one open type changes. -/
theorem Orderly.of_modifyType {fields : Array FieldInfo}
    {methods : Array MethodInfo} {ctors : Array CtorInfo} {properties : Array PropertyInfo}
    {count : Nat} (orderly : image.Orderly) (isOpen : image.openType owner = .ok info)
    (isExtended : extended = { image.modifyType owner change with
      fields, methods, ctors, properties, staticCount := count })
    (growth : image.Extends extended)
    (entry : image.DeclaredEntry info → extended.DeclaredEntry (change info)) :
    extended.Orderly := by
  obtain ⟨isInfo, declared, -⟩ := openType_eq_ok.mp isOpen
  intro handle other isOther isDeclared
  have found : (image.types.modify owner.index change)[handle.index]? = some other := by
    rw [isExtended] at isOther
    exact isOther
  rw [Array.getElem?_modify] at found
  split at found
  · rename_i same
    have isInfo : image.types[handle.index]? = some info := same ▸ isInfo
    rw [isInfo] at found
    cases found
    exact entry (orderly _ _ isInfo declared)
  · exact growth.declaredEntry (orderly handle other found isDeclared)

/-- Members of an open type have no code that is required of them yet. -/
theorem DeclaredEntry.of_open
    (fields : Listed image.field? FieldInfo.name (fun _ => True) info.fields)
    (methods : Listed image.method? MethodInfo.signature (·.implementation.IsOwn) info.methods)
    (ctors : Listed image.ctor? CtorInfo.params (·.implementation.IsOwn) info.ctors)
    (properties : Listed image.property? PropertyInfo.name (fun _ => True) info.properties)
    (isOpen : info.isComplete = false) : image.DeclaredEntry info :=
  ⟨fields, methods, ctors, properties, fun complete => (by simp [isOpen] at complete),
    fun complete => by simp [isOpen] at complete⟩

theorem mem_fieldsOf {handle : FieldHandle} {field : FieldInfo} :
    (handle, field) ∈ image.fieldsOf info ↔
      handle ∈ info.fields ∧ image.field? handle = some field := by
  simp [fieldsOf]

theorem mem_methodsOf {method : MethodInfo} :
    (handle, method) ∈ image.methodsOf info ↔
      handle ∈ info.methods ∧ image.method? handle = some method := by
  simp [methodsOf]

theorem mem_ctorsOf {handle : CtorHandle} {ctor : CtorInfo} :
    (handle, ctor) ∈ image.ctorsOf info ↔
      handle ∈ info.ctors ∧ image.ctor? handle = some ctor := by
  simp [ctorsOf]

theorem mem_propertiesOf {handle : PropertyHandle} {property : PropertyInfo} :
    (handle, property) ∈ image.propertiesOf info ↔
      handle ∈ info.properties ∧ image.property? handle = some property := by
  simp [propertiesOf]

theorem declareType_orderly {attrs : TypeAttrs} {handle : TypeHandle} (orderly : image.Orderly)
    (done : image.declareType name attrs base interfaces = .ok (handle, extended)) :
    extended.Orderly := by
  have growth := declareType_extends done
  obtain ⟨root, above, -, -, -, -, rfl⟩ := declareType_shape done
  intro other info isInfo declared
  have found : (image.types.push _)[other.index]? = some info := isInfo
  rw [Array.getElem?_push] at found
  split at found
  · cases found
    exact .of_open .nil .nil .nil .nil rfl
  · exact growth.declaredEntry (orderly other info found declared)

theorem declareField_orderly {attrs : FieldAttrs} {handle : FieldHandle} (orderly : image.Orderly)
    (done : image.declareField owner name type attrs = .ok (handle, extended)) :
    extended.Orderly := by
  have growth := declareField_extends done
  obtain ⟨info, isOpen, -, isNew, -, isExtended⟩ := declareField_shape done
  refine orderly.of_modifyType isOpen isExtended growth fun entry => ?_
  subst isExtended
  have kept := growth.declaredEntry entry
  refine .of_open (kept.fields.append Array.getElem?_push_size trivial ?_) kept.methods
    kept.ctors kept.properties (openType_eq_ok.mp isOpen).2.2
  intro listed isListed field isField sameName
  obtain ⟨before, isBefore, -⟩ := entry.fields.found listed isListed
  obtain ⟨after, isAfter, grows⟩ := growth.fields _ before isBefore
  obtain rfl := Option.some.inj (isAfter.symm.trans isField)
  exact isNew (listed, before) (mem_fieldsOf.mpr ⟨isListed, isBefore⟩)
    (grows.name.symm.trans sameName)

theorem declareMethod_orderly {attrs : MethodAttrs} {ret : RunTy} (orderly : image.Orderly)
    (done : image.declareMethod owner name attrs params ret = .ok (handle, extended)) :
    extended.Orderly := by
  have growth := declareMethod_extends done
  obtain ⟨info, isOpen, -, isNew, -, isExtended⟩ := declareMethod_shape done
  refine orderly.of_modifyType isOpen isExtended growth fun entry => ?_
  subst isExtended
  have kept := growth.declaredEntry entry
  refine .of_open kept.fields
    (kept.methods.append Array.getElem?_push_size (by rintro _ ⟨⟩) ?_) kept.ctors
    kept.properties (openType_eq_ok.mp isOpen).2.2
  intro listed isListed method isMethod same
  obtain ⟨before, isBefore, -⟩ := entry.methods.found listed isListed
  obtain ⟨after, isAfter, grows⟩ := growth.methods _ before isBefore
  obtain rfl := Option.some.inj (isAfter.symm.trans isMethod)
  refine isNew (listed, before) (mem_methodsOf.mpr ⟨isListed, isBefore⟩) ?_
  simp only [MethodInfo.signature, Prod.mk.injEq] at same
  simp [← grows.name, ← grows.params, ← grows.attrs, same]

theorem declareCtor_orderly {handle : CtorHandle} (orderly : image.Orderly)
    (done : image.declareCtor owner params = .ok (handle, extended)) : extended.Orderly := by
  have growth := declareCtor_extends done
  obtain ⟨info, isOpen, -, isNew, -, isExtended⟩ := declareCtor_shape done
  refine orderly.of_modifyType isOpen isExtended growth fun entry => ?_
  subst isExtended
  have kept := growth.declaredEntry entry
  refine .of_open kept.fields kept.methods
    (kept.ctors.append Array.getElem?_push_size (by rintro _ ⟨⟩) ?_)
    kept.properties (openType_eq_ok.mp isOpen).2.2
  intro listed isListed ctor isCtor same
  obtain ⟨before, isBefore, -⟩ := entry.ctors.found listed isListed
  obtain ⟨after, isAfter, grows⟩ := growth.ctors _ before isBefore
  obtain rfl := Option.some.inj (isAfter.symm.trans isCtor)
  exact isNew (listed, before) (mem_ctorsOf.mpr ⟨isListed, isBefore⟩)
    (grows.params.symm.trans same)

theorem declareProperty_orderly {handle : PropertyHandle} (orderly : image.Orderly)
    (done : image.declareProperty owner name type getter setter = .ok (handle, extended)) :
    extended.Orderly := by
  have growth := declareProperty_extends done
  obtain ⟨info, isOpen, -, isNew, -, isExtended⟩ := declareProperty_shape done
  refine orderly.of_modifyType isOpen isExtended growth fun entry => ?_
  subst isExtended
  have kept := growth.declaredEntry entry
  refine .of_open kept.fields kept.methods kept.ctors
    (kept.properties.append Array.getElem?_push_size trivial ?_) (openType_eq_ok.mp isOpen).2.2
  intro listed isListed property isProperty same
  obtain ⟨before, isBefore, -⟩ := entry.properties.found listed isListed
  obtain ⟨after, isAfter, rfl⟩ := growth.properties _ before isBefore
  obtain rfl := Option.some.inj (isAfter.symm.trans isProperty)
  exact isNew (listed, before) (mem_propertiesOf.mpr ⟨isListed, isBefore⟩) same

/-- A type is completed once what needs code has it. -/
theorem checkBodies_eq_ok (checked : image.checkBodies info = .ok ()) :
    (∀ handle ∈ info.methods, ∀ method ∈ image.method? handle,
      method.attrs.isAbstract = false → method.implementation.isMissing = false) ∧
    ∀ handle ∈ info.ctors, ∀ ctor ∈ image.ctor? handle,
      ctor.implementation.isMissing = false := by
  obtain ⟨⟨⟩, methods, ctors⟩ := bind_eq_ok.mp checked
  have methods := forM_eq_ok.mp methods
  have ctors := forM_eq_ok.mp ctors
  simp only [bind_eq_ok] at methods ctors
  refine ⟨fun handle listed method isMethod concrete => ?_, fun handle listed ctor isCtor => ?_⟩
  · obtain ⟨found, isFound, accepted⟩ := methods handle listed
    obtain rfl := Option.some.inj ((method_eq_ok.mp isFound).symm.trans isMethod)
    split at accepted
    · cases accepted
    · simp_all
  · obtain ⟨found, isFound, accepted⟩ := ctors handle listed
    obtain rfl := Option.some.inj ((ctor_eq_ok.mp isFound).symm.trans isCtor)
    split at accepted
    · cases accepted
    · simp_all

theorem sealType_orderly {handle : TypeHandle} (orderly : image.Orderly)
    (done : image.sealType handle = .ok (realized, extended)) : extended.Orderly := by
  have growth := sealType_extends done
  obtain ⟨info, inherited, slots, isOpen, -, checked, -, -, -, isExtended⟩ := sealType_shape done
  refine orderly.of_modifyType isOpen isExtended growth fun entry => ?_
  obtain ⟨methods, ctors⟩ := checkBodies_eq_ok checked
  have kept := growth.declaredEntry entry
  subst isExtended
  exact ⟨kept.fields, kept.methods, kept.ctors, kept.properties, fun _ => methods, fun _ => ctors⟩

/-- The members of declared types are in order in every image. -/
theorem Built.orderly (built : image.Built) : image.Orderly := by
  induction built with
  | library =>
      have platform : ∀ info ∈ Image.library.types, info.origin ≠ .declared := by decide +kernel
      intro handle info isInfo declared
      exact (platform info (Array.mem_of_getElem? isInfo) declared).elim
  | declareType _ done orderly => exact declareType_orderly orderly done
  | declareField _ done orderly => exact declareField_orderly orderly done
  | declareMethod _ done orderly => exact declareMethod_orderly orderly done
  | declareCtor _ done orderly => exact declareCtor_orderly orderly done
  | declareProperty _ done orderly => exact declareProperty_orderly orderly done
  | defineMethod _ done orderly =>
      have growth := defineMethod_extends done
      obtain ⟨_, _, -, -, -, rfl⟩ := defineMethod_shape done
      exact fun handle info isInfo declared =>
        growth.declaredEntry (orderly handle info isInfo declared)
  | defineCtor _ done orderly =>
      have growth := defineCtor_extends done
      obtain ⟨_, _, -, -, -, rfl⟩ := defineCtor_shape done
      exact fun handle info isInfo declared =>
        growth.declaredEntry (orderly handle info isInfo declared)
  | sealType _ done orderly => exact sealType_orderly orderly done

/-- Every image grew from the library. -/
theorem Built.extends_library (built : image.Built) : Image.library.Extends image := by
  induction built with
  | library => exact .refl _
  | declareType _ done growth => exact growth.trans (declareType_extends done)
  | declareField _ done growth => exact growth.trans (declareField_extends done)
  | declareMethod _ done growth => exact growth.trans (declareMethod_extends done)
  | declareCtor _ done growth => exact growth.trans (declareCtor_extends done)
  | declareProperty _ done growth => exact growth.trans (declareProperty_extends done)
  | defineMethod _ done growth => exact growth.trans (defineMethod_extends done)
  | defineCtor _ done growth => exact growth.trans (defineCtor_extends done)
  | sealType _ done growth => exact growth.trans (sealType_extends done)

end Image

end ClassForge
