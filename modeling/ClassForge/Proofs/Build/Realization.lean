import ClassForge.Proofs.Build.Builds
import ClassForge.Proofs.Image.ImageGrowth
import ClassForge.Proofs.Schedule.Executions

/-!
# What a build leaves in the target

A build changes its target and its resolution in moves: a request, together with the handle
that is recorded for it.  Moves only add to what is there, and they touch nothing that was
there before the build.  Each task that has been carried out is realized: the resolution
has the handles of what it declares, and these lead to entries of the target that say what
the task asked for.
-/

namespace ClassForge

variable {name : Name} {resolved : Resolved} {owner : TypeHandle} {attrs : MethodAttrs}
variable {task : Task}

/-! ## Resolutions -/

namespace Resolution

variable {resolution later : Resolution}
variable {handle : MethodHandle}

theorem type_eq_ok {handle : TypeHandle} :
    resolution.type name = .ok handle ↔ resolution.get? (.type name) = some (.type handle) := by
  unfold type lookup
  cases resolution.get? (.type name) with
  | none => simp
  | some resolved => cases resolved <;> simp

theorem method_eq_ok {key : MethodKey} :
    resolution.method key = .ok handle ↔
      resolution.get? (.method key) = some (.method handle) := by
  unfold method lookup
  cases resolution.get? (.method key) with
  | none => simp
  | some resolved => cases resolved <;> simp

theorem ctor_eq_ok {key : CtorKey} {handle : CtorHandle} :
    resolution.ctor key = .ok handle ↔ resolution.get? (.ctor key) = some (.ctor handle) := by
  unfold ctor lookup
  cases resolution.get? (.ctor key) with
  | none => simp
  | some resolved => cases resolved <;> simp

theorem field_eq_ok {key : FieldKey} {handle : FieldHandle} :
    resolution.field key = .ok handle ↔ resolution.get? (.field key) = some (.field handle) := by
  unfold field lookup
  cases resolution.get? (.field key) with
  | none => simp
  | some resolved => cases resolved <;> simp

/-- What is resolved stays resolved. -/
def Within (resolution later : Resolution) : Prop :=
  ∀ key resolved, resolution.get? key = some resolved → later.get? key = some resolved

theorem Within.refl (resolution : Resolution) : resolution.Within resolution :=
  fun _ _ found => found

theorem Within.trans {middle : Resolution} (first : resolution.Within middle)
    (second : middle.Within later) : resolution.Within later :=
  fun key resolved found => second key resolved (first key resolved found)

theorem within_of_insert? {key : Key} (added : resolution.insert? key resolved = some later)
    : resolution.Within later :=
  fun _ _ found => KeyTable.get?_of_insert? added found

theorem get?_of_insert? {key : Key} (added : resolution.insert? key resolved = some later)
    : later.get? key = some resolved := by
  rw [KeyTable.get?_insert? added, if_pos rfl]

variable (within : resolution.Within later)
include within

theorem Within.type {handle : TypeHandle} (found : resolution.type name = .ok handle) :
    later.type name = .ok handle :=
  type_eq_ok.mpr (within _ _ (type_eq_ok.mp found))

theorem Within.method {key : MethodKey} (found : resolution.method key = .ok handle) :
    later.method key = .ok handle :=
  method_eq_ok.mpr (within _ _ (method_eq_ok.mp found))

theorem Within.ctor {key : CtorKey} {handle : CtorHandle} (found : resolution.ctor key = .ok handle) :
    later.ctor key = .ok handle :=
  ctor_eq_ok.mpr (within _ _ (ctor_eq_ok.mp found))

theorem Within.field {key : FieldKey} {handle : FieldHandle}
    (found : resolution.field key = .ok handle) : later.field key = .ok handle :=
  field_eq_ok.mpr (within _ _ (field_eq_ok.mp found))

/-- The handles of what is optional stay too. -/
theorem Within.accessor {key? : Option MethodKey} {handle? : Option MethodHandle}
    (same : key?.map resolution.method = handle?.map .ok) :
    key?.map later.method = handle?.map .ok := by
  cases key? with
  | none => simpa using same
  | some key =>
      cases handle? with
      | none => simp at same
      | some handle => exact congrArg some (within.method (Option.some.inj same))

end Resolution

/-- A type whose names have replacements keeps its result when more names get them. -/
theorem Ty.resolve_mono {κ μ ε : Type} {replace further : κ → Except ε μ}
    (extends' : ∀ key handle, replace key = .ok handle → further key = .ok handle)
    (type : Ty κ) {result : Ty μ} (done : type.resolve replace = .ok result) :
    type.resolve further = .ok result := by
  induction type generalizing result with
  | builtin builtin => exact done
  | generic definition args ih =>
      obtain ⟨results, areResults, same⟩ := bind_eq_ok.mp done
      have each := (List.forall₂_and_left _ _).mpr ⟨@ih, resolveList_eq_ok.mp areResults⟩
      exact bind_eq_ok.mpr
        ⟨results, resolveList_eq_ok.mpr (each.imp fun _ _ ⟨keeps, done⟩ => keeps done), same⟩
  | declared key =>
      obtain ⟨handle, isHandle, same⟩ := bind_eq_ok.mp done
      exact bind_eq_ok.mpr ⟨handle, extends' key handle isHandle, same⟩
  | array element ih =>
      obtain ⟨inner, isInner, same⟩ := bind_eq_ok.mp done
      exact bind_eq_ok.mpr ⟨inner, ih isInner, same⟩

theorem Ty.resolveList_mono {κ μ ε : Type} {replace further : κ → Except ε μ}
    (extends' : ∀ key handle, replace key = .ok handle → further key = .ok handle)
    (types : List (Ty κ)) {results : List (Ty μ)}
    (done : Ty.resolveList replace types = .ok results) :
    Ty.resolveList further types = .ok results :=
  resolveList_eq_ok.mpr ((resolveList_eq_ok.mp done).imp fun type _ => resolve_mono extends' type)

namespace Resolution

variable {resolution later : Resolution}

theorem Within.runTy (within : resolution.Within later) {type : SourceTy} {result : RunTy}
    (done : resolution.runTy type = .ok result) : later.runTy type = .ok result :=
  Ty.resolve_mono (fun _ _ found => within.type found) type done

theorem Within.runTys (within : resolution.Within later) {types : List SourceTy}
    {results : List RunTy}
    (done : resolution.runTys types = .ok results) : later.runTys types = .ok results :=
  Ty.resolveList_mono (fun _ _ found => within.type found) types done

end Resolution

/-! ## Moves -/

namespace BuildState

/-- What is resolved and what is in the target stays. -/
structure Extends (before after : BuildState Image) : Prop where
  target : before.target.Extends after.target
  resolution : before.resolution.Within after.resolution

theorem Extends.refl (state : BuildState Image) : state.Extends state :=
  ⟨.refl _, .refl _⟩

theorem Extends.trans {before middle after : BuildState Image} (first : before.Extends middle)
    (second : middle.Extends after) : before.Extends after :=
  ⟨first.target.trans second.target, first.resolution.trans second.resolution⟩

end BuildState

/-- One change that a build makes. -/
inductive Build.Move : BuildState Image → BuildState Image → Prop where
  | declareType {image extended : Image} {resolution later : Resolution} {name : Name}
      {attrs : TypeAttrs} {base : Option RunTy} {interfaces : List RunTy} {handle : TypeHandle} :
      image.declareType name attrs base interfaces = .ok (handle, extended) →
      resolution.insert? (.type name) (.type handle) = some later →
      Move ⟨image, resolution⟩ ⟨extended, later⟩
  | declareField {image extended : Image} {resolution later : Resolution} {key : FieldKey}
      {attrs : FieldAttrs} {owner : TypeHandle} {type : RunTy} {handle : FieldHandle} :
      resolution.type key.owner = .ok owner →
      image.declareField owner key.name type attrs = .ok (handle, extended) →
      resolution.insert? (.field key) (.field handle) = some later →
      Move ⟨image, resolution⟩ ⟨extended, later⟩
  | declareMethod {image extended : Image} {resolution later : Resolution} {key : MethodKey}
      {attrs : MethodAttrs} {owner : TypeHandle} {params : List RunTy} {ret : RunTy}
      {handle : MethodHandle} :
      resolution.type key.owner = .ok owner →
      image.declareMethod owner key.name attrs params ret = .ok (handle, extended) →
      resolution.insert? (.method key) (.method handle) = some later →
      Move ⟨image, resolution⟩ ⟨extended, later⟩
  | declareCtor {image extended : Image} {resolution later : Resolution} {key : CtorKey}
      {owner : TypeHandle} {params : List RunTy} {handle : CtorHandle} :
      resolution.type key.owner = .ok owner →
      image.declareCtor owner params = .ok (handle, extended) →
      resolution.insert? (.ctor key) (.ctor handle) = some later →
      Move ⟨image, resolution⟩ ⟨extended, later⟩
  | declareProperty {image extended : Image} {resolution later : Resolution} {key : PropertyKey}
      {owner : TypeHandle} {type : RunTy} {getter setter : Option MethodHandle}
      {handle : PropertyHandle} :
      resolution.type key.owner = .ok owner →
      image.declareProperty owner key.name type getter setter = .ok (handle, extended) →
      resolution.insert? (.property key) (.property handle) = some later →
      Move ⟨image, resolution⟩ ⟨extended, later⟩
  | defineMethod {image extended : Image} {resolution : Resolution} {key : MethodKey}
      {handle : MethodHandle} {body : Body} :
      resolution.method key = .ok handle →
      image.defineMethod handle body = .ok extended →
      Move ⟨image, resolution⟩ ⟨extended, resolution⟩
  | defineCtor {image extended : Image} {resolution : Resolution} {key : CtorKey}
      {handle : CtorHandle} {body : Body} :
      resolution.ctor key = .ok handle →
      image.defineCtor handle body = .ok extended →
      Move ⟨image, resolution⟩ ⟨extended, resolution⟩
  | complete {image extended : Image} {resolution later : Resolution} {name : Name}
      {handle : TypeHandle} {realized : RealizedType} :
      resolution.type name = .ok handle →
      image.sealType handle = .ok (realized, extended) →
      resolution.insert? (.completed name) (.completed realized) = some later →
      Move ⟨image, resolution⟩ ⟨extended, later⟩

namespace Build.Move

variable {before after : BuildState Image}

theorem extends' (move : Build.Move before after) : before.Extends after := by
  cases move with
  | declareType done added =>
      exact ⟨Image.declareType_extends done, Resolution.within_of_insert? added⟩
  | declareField _ done added =>
      exact ⟨Image.declareField_extends done, Resolution.within_of_insert? added⟩
  | declareMethod _ done added =>
      exact ⟨Image.declareMethod_extends done, Resolution.within_of_insert? added⟩
  | declareCtor _ done added =>
      exact ⟨Image.declareCtor_extends done, Resolution.within_of_insert? added⟩
  | declareProperty _ done added =>
      exact ⟨Image.declareProperty_extends done, Resolution.within_of_insert? added⟩
  | defineMethod _ done => exact ⟨Image.defineMethod_extends done, .refl _⟩
  | defineCtor _ done => exact ⟨Image.defineCtor_extends done, .refl _⟩
  | complete _ done added =>
      exact ⟨Image.sealType_extends done, Resolution.within_of_insert? added⟩

theorem built (move : Build.Move before after) (built : before.target.Built) :
    after.target.Built := by
  cases move with
  | declareType done _ => exact .declareType built done
  | declareField _ done _ => exact .declareField built done
  | declareMethod _ done _ => exact .declareMethod built done
  | declareCtor _ done _ => exact .declareCtor built done
  | declareProperty _ done _ => exact .declareProperty built done
  | defineMethod _ done => exact .defineMethod built done
  | defineCtor _ done => exact .defineCtor built done
  | complete _ done _ => exact .sealType built done

end Build.Move

/-! ## What was there before -/

/-- Every entry of an image is there unchanged in another one. -/
structure Image.Unchanged (image extended : Image) : Prop where
  types : Persists Eq image.types extended.types
  fields : Persists Eq image.fields extended.fields
  methods : Persists Eq image.methods extended.methods
  ctors : Persists Eq image.ctors extended.ctors
  properties : Persists Eq image.properties extended.properties

theorem Image.Unchanged.refl (image : Image) : image.Unchanged image :=
  ⟨.refl (fun _ => rfl) _, .refl (fun _ => rfl) _, .refl (fun _ => rfl) _,
    .refl (fun _ => rfl) _, .refl (fun _ => rfl) _⟩

/-- A build has left everything alone that was there, and knows only handles of its own. -/
structure BuildState.Beyond (base : Image) (state : BuildState Image) : Prop where
  unchanged : base.Unchanged state.target
  types : ∀ name handle, state.resolution.type name = .ok handle →
    base.types.size ≤ handle.index
  methods : ∀ key handle, state.resolution.method key = .ok handle →
    base.methods.size ≤ handle.index
  ctors : ∀ key handle, state.resolution.ctor key = .ok handle →
    base.ctors.size ≤ handle.index
  fields : ∀ handle, ∀ info ∈ state.target.type? handle, base.types.size ≤ handle.index →
    ∀ field ∈ info.fields, base.fields.size ≤ field.index

theorem BuildState.beyond_initial (image : Image) :
    BuildState.Beyond image ⟨image, .empty⟩ := by
  refine ⟨.refl image, ?_, ?_, ?_, ?_⟩
  · intro name handle found
    simpa using Resolution.type_eq_ok.mp found
  · intro key handle found
    simpa using Resolution.method_eq_ok.mp found
  · intro key handle found
    simpa using Resolution.ctor_eq_ok.mp found
  · intro handle info isInfo beyond
    obtain ⟨inBounds, -⟩ := Array.getElem?_eq_some_iff.mp isInfo
    exact absurd beyond (Nat.not_le.mpr inBounds)

/-- Only the fields that are listed get slots. -/
theorem Image.assignSlots_beyond {bound : Array FieldInfo} (handles : List FieldHandle)
    (fields : Array FieldInfo) (nextInstance nextStatic : Nat)
    (beyond : ∀ handle ∈ handles, bound.size ≤ handle.index)
    (persists : Persists Eq bound fields) :
    Persists Eq bound (assignSlots handles fields nextInstance nextStatic).1 := by
  induction handles generalizing fields nextInstance nextStatic with
  | nil => exact persists
  | cons handle handles ih =>
      have rest : ∀ other ∈ handles, bound.size ≤ other.index :=
        (List.forall_mem_cons.mp beyond).2
      have set : ∀ entry, Persists Eq bound (fields.setIfInBounds handle.index entry) := by
        intro entry index value found
        obtain ⟨inBounds, -⟩ := Array.getElem?_eq_some_iff.mp found
        have isBeyond := beyond handle List.mem_cons_self
        rw [Array.getElem?_setIfInBounds, if_neg (by omega)]
        exact persists index value found
      rw [assignSlots]
      split
      · exact ih fields _ _ rest persists
      · split
        all_goals exact ih _ _ _ rest (set _)

section Beyond

variable {base image extended : Image} {resolution later : Resolution}

/-- Recording a handle adds just this one. -/
theorem BuildState.Beyond.record {key : Key}
    (beyond : BuildState.Beyond base ⟨image, resolution⟩) (unchanged : base.Unchanged extended)
    (fields : ∀ handle, ∀ info ∈ extended.type? handle, base.types.size ≤ handle.index →
      ∀ field ∈ info.fields, base.fields.size ≤ field.index)
    (added : resolution.insert? key resolved = some later)
    (types : ∀ handle, resolved = .type handle → base.types.size ≤ handle.index)
    (methods : ∀ handle, resolved = .method handle → base.methods.size ≤ handle.index)
    (ctors : ∀ handle, resolved = .ctor handle → base.ctors.size ≤ handle.index) :
    BuildState.Beyond base ⟨extended, later⟩ := by
  refine ⟨unchanged, ?_, ?_, ?_, fields⟩
  · intro name handle found
    have found := Resolution.type_eq_ok.mp found
    rw [KeyTable.get?_insert? added] at found
    split at found
    · exact types handle (Option.some.inj found)
    · exact beyond.types name handle (Resolution.type_eq_ok.mpr found)
  · intro other handle found
    have found := Resolution.method_eq_ok.mp found
    rw [KeyTable.get?_insert? added] at found
    split at found
    · exact methods handle (Option.some.inj found)
    · exact beyond.methods other handle (Resolution.method_eq_ok.mpr found)
  · intro other handle found
    have found := Resolution.ctor_eq_ok.mp found
    rw [KeyTable.get?_insert? added] at found
    split at found
    · exact ctors handle (Option.some.inj found)
    · exact beyond.ctors other handle (Resolution.ctor_eq_ok.mpr found)

/-- Fields stay new when the entry of a type changes in other ways. -/
theorem BuildState.Beyond.fields_modifyType
    (beyond : BuildState.Beyond base ⟨image, resolution⟩)
    {change : TypeInfo → TypeInfo}
    (changes : ∀ info, ∀ field ∈ (change info).fields,
      field ∈ info.fields ∨ base.fields.size ≤ field.index) :
    ∀ handle, ∀ info ∈ (image.modifyType owner change).type? handle,
      base.types.size ≤ handle.index → ∀ field ∈ info.fields, base.fields.size ≤ field.index := by
  intro handle info isInfo isBeyond field isField
  have found : (image.types.modify owner.index change)[handle.index]? = some info := isInfo
  rw [Array.getElem?_modify] at found
  split at found
  · obtain ⟨before, isBefore, rfl⟩ := Option.map_eq_some_iff.mp found
    rcases changes before field isField with old | isNew
    · exact beyond.fields handle before isBefore isBeyond field old
    · exact isNew
  · exact beyond.fields handle info found isBeyond field isField

end Beyond

/-- A build leaves everything alone that was there before it. -/
theorem Build.Move.beyond {base : Image} {before after : BuildState Image}
    (move : Build.Move before after)
    (beyond : before.Beyond base) : after.Beyond base := by
  have unchanged := beyond.unchanged
  cases move with
  | declareType done added =>
      obtain ⟨root, above, -, -, -, rfl, rfl⟩ := Image.declareType_shape done
      have isBeyond := unchanged.types.size_le
      refine beyond.record { unchanged with types := unchanged.types.push _ } ?_ added
        (by rintro _ ⟨⟩; exact isBeyond) (by rintro _ ⟨⟩) (by rintro _ ⟨⟩)
      intro handle info isInfo isNew field isField
      have found : (Array.push _ _)[handle.index]? = some info := isInfo
      rw [Array.getElem?_push] at found
      split at found
      · cases found
        cases isField
      · exact beyond.fields handle info found isNew field isField
  | declareField isOwner done added =>
      obtain ⟨info, -, -, -, rfl, rfl⟩ := Image.declareField_shape done
      have isBeyond := unchanged.fields.size_le
      refine beyond.record
        { unchanged with
          types := unchanged.types.modify_beyond (beyond.types _ _ isOwner) _
          fields := unchanged.fields.push _ }
        (beyond.fields_modifyType fun info field isField => ?_) added
        (by rintro _ ⟨⟩) (by rintro _ ⟨⟩) (by rintro _ ⟨⟩)
      rcases List.mem_append.mp isField with old | isNew
      · exact .inl old
      · rw [List.mem_singleton.mp isNew]
        exact .inr isBeyond
  | declareMethod isOwner done added =>
      obtain ⟨info, -, -, -, rfl, rfl⟩ := Image.declareMethod_shape done
      have isBeyond := unchanged.methods.size_le
      exact beyond.record
        { unchanged with
          types := unchanged.types.modify_beyond (beyond.types _ _ isOwner) _
          methods := unchanged.methods.push _ }
        (beyond.fields_modifyType fun info field isField => .inl isField) added
        (by rintro _ ⟨⟩) (by rintro _ ⟨⟩; exact isBeyond) (by rintro _ ⟨⟩)
  | declareCtor isOwner done added =>
      obtain ⟨info, -, -, -, rfl, rfl⟩ := Image.declareCtor_shape done
      have isBeyond := unchanged.ctors.size_le
      exact beyond.record
        { unchanged with
          types := unchanged.types.modify_beyond (beyond.types _ _ isOwner) _
          ctors := unchanged.ctors.push _ }
        (beyond.fields_modifyType fun info field isField => .inl isField) added
        (by rintro _ ⟨⟩) (by rintro _ ⟨⟩) (by rintro _ ⟨⟩; exact isBeyond)
  | declareProperty isOwner done added =>
      obtain ⟨info, -, -, -, rfl, rfl⟩ := Image.declareProperty_shape done
      exact beyond.record
        { unchanged with
          types := unchanged.types.modify_beyond (beyond.types _ _ isOwner) _
          properties := unchanged.properties.push _ }
        (beyond.fields_modifyType fun info field isField => .inl isField) added
        (by rintro _ ⟨⟩) (by rintro _ ⟨⟩) (by rintro _ ⟨⟩)
  | defineMethod isMethod done =>
      obtain ⟨_, _, -, -, -, rfl⟩ := Image.defineMethod_shape done
      exact { beyond with
        unchanged := { unchanged with
          methods := unchanged.methods.modify_beyond (beyond.methods _ _ isMethod) _ } }
  | defineCtor isCtor done =>
      obtain ⟨_, _, -, -, -, rfl⟩ := Image.defineCtor_shape done
      exact { beyond with
        unchanged := { unchanged with
          ctors := unchanged.ctors.modify_beyond (beyond.ctors _ _ isCtor) _ } }
  | complete isType done added =>
      have isBeyond := beyond.types _ _ isType
      obtain ⟨info, inherited, slots, isOpen, -, -, -, rfl, rfl, rfl⟩ := Image.sealType_shape done
      obtain ⟨isInfo, -, -⟩ := Image.openType_eq_ok.mp isOpen
      exact beyond.record
        { unchanged with
          types := unchanged.types.modify_beyond isBeyond _
          fields := Image.assignSlots_beyond _ _ _ _ (beyond.fields _ _ isInfo isBeyond)
            unchanged.fields }
        (beyond.fields_modifyType fun info field isField => .inl isField) added
        (by rintro _ ⟨⟩) (by rintro _ ⟨⟩) (by rintro _ ⟨⟩)

/-! ## Realized tasks -/

namespace BuildState

variable {before after state : BuildState Image}

/-- A type of a program stands for an entry of the target. -/
def StandsFor (state : BuildState Image) (type : SourceTy) (handle : TypeHandle) : Prop :=
  ∃ resolved, state.resolution.runTy type = .ok resolved ∧
    state.target.handleOf resolved = .ok handle

/-- A type that was declared with some attributes, below some types. -/
def HoldsType (state : BuildState Image) (name : Name) (attrs : TypeAttrs)
    (above : List SourceTy) : Prop :=
  ∃ handle info, state.resolution.type name = .ok handle ∧
    state.target.type? handle = some info ∧
    info.name = name ∧ info.attrs = attrs ∧ info.origin = .declared ∧
    ∀ type ∈ above, ∃ upper, state.StandsFor type upper ∧
      (info.base = some upper ∨ upper ∈ info.interfaces)

/-- A field on the type that owns it. -/
def HoldsField (state : BuildState Image) (key : FieldKey) (attrs : FieldAttrs) : Prop :=
  ∃ owner info handle field, state.resolution.type key.owner = .ok owner ∧
    state.target.type? owner = some info ∧ handle ∈ info.fields ∧
    state.resolution.field key = .ok handle ∧ state.target.field? handle = some field ∧
    field.name = key.name ∧ field.attrs = attrs ∧
    state.resolution.runTy key.type = .ok field.type

/-- A method on the type that owns it. -/
def HoldsMethod (state : BuildState Image) (key : MethodKey) (attrs : MethodAttrs)
    (params : List SourceTy) (ret : SourceTy) : Prop :=
  ∃ owner info handle method, state.resolution.type key.owner = .ok owner ∧
    state.target.type? owner = some info ∧ handle ∈ info.methods ∧
    state.resolution.method key = .ok handle ∧ state.target.method? handle = some method ∧
    method.name = key.name ∧ method.attrs = attrs ∧
    state.resolution.runTys params = .ok method.params ∧
    state.resolution.runTy ret = .ok method.ret

/-- A constructor on the type that owns it. -/
def HoldsCtor (state : BuildState Image) (key : CtorKey) : Prop :=
  ∃ owner info handle ctor, state.resolution.type key.owner = .ok owner ∧
    state.target.type? owner = some info ∧ handle ∈ info.ctors ∧
    state.resolution.ctor key = .ok handle ∧ state.target.ctor? handle = some ctor ∧
    state.resolution.runTys key.params = .ok ctor.params

/-- A property on the type that owns it, with the handles of its accessors. -/
def HoldsProperty (state : BuildState Image) (key : PropertyKey)
    (getter? setter? : Option MethodKey) : Prop :=
  ∃ owner info handle property, state.resolution.type key.owner = .ok owner ∧
    state.target.type? owner = some info ∧ handle ∈ info.properties ∧
    state.target.property? handle = some property ∧ property.name = key.name ∧
    state.resolution.runTy key.type = .ok property.type ∧
    getter?.map state.resolution.method = property.getter.map .ok ∧
    setter?.map state.resolution.method = property.setter.map .ok

/-- A completed type. -/
def HoldsComplete (state : BuildState Image) (name : Name) : Prop :=
  ∃ realized info, state.resolution.get? (.completed name) = some (.completed realized) ∧
    state.resolution.type name = .ok realized.handle ∧
    state.target.type? realized.handle = some info ∧ info.isComplete = true ∧
    realized.name = info.name

theorem StandsFor.mono {type : SourceTy} {handle : TypeHandle}
    (stands : before.StandsFor type handle)
    (growth : before.Extends after) : after.StandsFor type handle := by
  obtain ⟨resolved, isResolved, isHandle⟩ := stands
  exact ⟨resolved, growth.resolution.runTy isResolved, growth.target.handleOf isHandle⟩

theorem HoldsType.mono {attrs : TypeAttrs} {above : List SourceTy}
    (holds : before.HoldsType name attrs above) (growth : before.Extends after)
    : after.HoldsType name attrs above := by
  obtain ⟨handle, info, resolved, isInfo, isName, isAttrs, declared, below⟩ := holds
  obtain ⟨later, isLater, grows⟩ := growth.target.types _ info isInfo
  refine ⟨handle, later, growth.resolution.type resolved, isLater, grows.name.trans isName,
    grows.attrs.trans isAttrs, grows.origin.trans declared, fun type isAbove => ?_⟩
  obtain ⟨upper, stands, listed⟩ := below type isAbove
  refine ⟨upper, stands.mono growth, ?_⟩
  rwa [grows.base, grows.interfaces]

theorem HoldsField.mono {key : FieldKey} {attrs : FieldAttrs} (holds : before.HoldsField key attrs)
    (growth : before.Extends after) : after.HoldsField key attrs := by
  obtain ⟨owner, info, handle, field, isOwner, isInfo, listed, resolved, isField, isName, isAttrs,
    isType⟩ := holds
  obtain ⟨laterInfo, isLaterInfo, infoGrows⟩ := growth.target.types _ info isInfo
  obtain ⟨later, isLater, grows⟩ := growth.target.fields _ field isField
  refine ⟨owner, laterInfo, handle, later, growth.resolution.type isOwner, isLaterInfo,
    infoGrows.fields listed, growth.resolution.field resolved, isLater, grows.name.trans isName,
    grows.attrs.trans isAttrs, ?_⟩
  rw [grows.type]
  exact growth.resolution.runTy isType

theorem HoldsMethod.mono {key : MethodKey} {params : List SourceTy} {ret : SourceTy}
    (holds : before.HoldsMethod key attrs params ret) (growth : before.Extends after)
    : after.HoldsMethod key attrs params ret := by
  obtain ⟨owner, info, handle, method, isOwner, isInfo, listed, resolved, isMethod, isName,
    isAttrs, areParams, isRet⟩ := holds
  obtain ⟨laterInfo, isLaterInfo, infoGrows⟩ := growth.target.types _ info isInfo
  obtain ⟨later, isLater, grows⟩ := growth.target.methods _ method isMethod
  refine ⟨owner, laterInfo, handle, later, growth.resolution.type isOwner, isLaterInfo,
    infoGrows.methods listed, growth.resolution.method resolved, isLater,
    grows.name.trans isName, grows.attrs.trans isAttrs, ?_, ?_⟩
  · rw [grows.params]
    exact growth.resolution.runTys areParams
  · rw [grows.ret]
    exact growth.resolution.runTy isRet

theorem HoldsCtor.mono {key : CtorKey} (holds : before.HoldsCtor key)
    (growth : before.Extends after) : after.HoldsCtor key := by
  obtain ⟨owner, info, handle, ctor, isOwner, isInfo, listed, resolved, isCtor, areParams⟩ := holds
  obtain ⟨laterInfo, isLaterInfo, infoGrows⟩ := growth.target.types _ info isInfo
  obtain ⟨later, isLater, grows⟩ := growth.target.ctors _ ctor isCtor
  refine ⟨owner, laterInfo, handle, later, growth.resolution.type isOwner, isLaterInfo,
    infoGrows.ctors listed, growth.resolution.ctor resolved, isLater, ?_⟩
  rw [grows.params]
  exact growth.resolution.runTys areParams

theorem HoldsProperty.mono {key : PropertyKey} {getter? setter? : Option MethodKey}
    (holds : before.HoldsProperty key getter? setter?)
    (growth : before.Extends after) : after.HoldsProperty key getter? setter? := by
  obtain ⟨owner, info, handle, property, isOwner, isInfo, listed, isProperty, isName, isType,
    getter, setter⟩ := holds
  obtain ⟨laterInfo, isLaterInfo, infoGrows⟩ := growth.target.types _ info isInfo
  obtain ⟨later, isLater, rfl⟩ := growth.target.properties _ property isProperty
  exact ⟨owner, laterInfo, handle, property, growth.resolution.type isOwner, isLaterInfo,
    infoGrows.properties listed, isLater, isName, growth.resolution.runTy isType,
    growth.resolution.accessor getter, growth.resolution.accessor setter⟩

theorem HoldsComplete.mono (holds : before.HoldsComplete name) (growth : before.Extends after)
    : after.HoldsComplete name := by
  obtain ⟨realized, info, found, resolved, isInfo, complete, isName⟩ := holds
  obtain ⟨later, isLater, grows⟩ := growth.target.types _ info isInfo
  exact ⟨realized, later, growth.resolution _ _ found, growth.resolution.type resolved, isLater,
    grows.isComplete complete, isName.trans grows.name.symm⟩

end BuildState

/-- The types that a type is declared below.  A class without a declared base is below
`Object`. -/
def TypeAttrs.above (attrs : TypeAttrs) (base : Option SourceTy) (interfaces : List SourceTy) :
    List SourceTy :=
  (if attrs.isValueType || attrs.isInterface then base.toList else [base.getD .object]) ++
    interfaces

/-- What a task declares or completes is there. -/
def Task.Realized (state : BuildState Image) : Task → Prop
  | declareType name attrs base interfaces =>
      state.HoldsType name attrs (attrs.above base interfaces)
  | declareField key attrs => state.HoldsField key attrs
  | declareMethod key attrs ret => state.HoldsMethod key attrs key.params ret
  | declareCtor key => state.HoldsCtor key
  | declareProperty property =>
      state.HoldsProperty property.key property.getterKey? property.setterKey? ∧
      (∀ key ∈ property.getterKey?,
        state.HoldsMethod key (.generated property.isStatic) [] property.key.type) ∧
      ∀ key ∈ property.setterKey?,
        state.HoldsMethod key (.generated property.isStatic) [property.key.type] .void
  | defineMethod _ _ _ | defineCtor _ _ _ => True
  | complete name _ => state.HoldsComplete name

theorem Task.Realized.mono {before after : BuildState Image} (realized : task.Realized before)
    (growth : before.Extends after) : task.Realized after := by
  cases task with
  | declareType => exact BuildState.HoldsType.mono realized growth
  | declareField => exact BuildState.HoldsField.mono realized growth
  | declareMethod => exact BuildState.HoldsMethod.mono realized growth
  | declareCtor => exact BuildState.HoldsCtor.mono realized growth
  | declareProperty =>
      obtain ⟨property, getter, setter⟩ := realized
      exact ⟨property.mono growth, fun key isKey => (getter key isKey).mono growth,
        fun key isKey => (setter key isKey).mono growth⟩
  | defineMethod | defineCtor => trivial
  | complete => exact BuildState.HoldsComplete.mono realized growth

/-! ## Carrying out a task -/

namespace Build

open Relation

variable {before after : BuildState Image}

/-- Moves, one after the other. -/
def Moves : BuildState Image → BuildState Image → Prop :=
  ReflTransGen Move

theorem Moves.extends' (moves : Moves before after) : before.Extends after := by
  induction moves with
  | refl => exact .refl _
  | tail _ move ih => exact ih.trans move.extends'

theorem Moves.built (moves : Moves before after) (built : before.target.Built) :
    after.target.Built := by
  induction moves with
  | refl => exact built
  | tail _ move ih => exact move.built ih

theorem Moves.beyond {base : Image} (moves : Moves before after) (beyond : before.Beyond base) :
    after.Beyond base := by
  induction moves with
  | refl => exact beyond
  | tail _ move ih => exact move.beyond ih

/-- Something optional is done just when it is there. -/
theorem optionMapM_eq_ok {α β : Type} {action : α → Build Image β} {item? : Option α}
    {result : Option β} (ran : (item?.mapM action).run before = .ok result after) :
    (item? = none ∧ result = none ∧ after = before) ∨
      ∃ item value, item? = some item ∧ result = some value ∧
        (action item).run before = .ok value after := by
  cases item? with
  | none =>
      cases ran
      exact .inl ⟨rfl, rfl, rfl⟩
  | some item =>
      have ran : (some <$> action item).run before = .ok result after := ran
      rw [map_eq_pure_bind, bind_eq_ok] at ran
      obtain ⟨value, middle, acted, ⟨⟩⟩ := ran
      exact .inr ⟨item, value, rfl, rfl, acted⟩

end Build

namespace Task

open Relation Build

variable {state after : BuildState Image} {tailCalls : Bool}
variable {key : MethodKey} {property : CoreProperty}
variable {params : List RunTy} {ret : RunTy}

/-- A method that is added is declared and recorded. -/
theorem addMethod_ok {handle : MethodHandle}
    (ran : (addMethod key owner attrs params ret).run state = .ok handle after) :
    ∃ target resolution,
      state.target.declareMethod owner key.name attrs params ret = .ok (handle, target) ∧
      state.resolution.insert? (.method key) (.method handle) = some resolution ∧
      after = ⟨target, resolution⟩ := by
  obtain ⟨_, _, requested, ran⟩ := Build.bind_eq_ok.mp ran
  obtain ⟨⟨⟩, _, recorded, ⟨⟩⟩ := Build.bind_eq_ok.mp ran
  obtain ⟨target, declared, rfl⟩ := request_eq_ok.mp requested
  obtain ⟨resolution, added, rfl⟩ := record_eq_ok.mp recorded
  exact ⟨target, resolution, declared, added, rfl⟩

theorem addMethod_moves {handle : MethodHandle} {sources : List SourceTy} {source : SourceTy}
    (ran : (addMethod key owner attrs params ret).run state = .ok handle after)
    (isOwner : state.resolution.type key.owner = .ok owner)
    (areParams : state.resolution.runTys sources = .ok params)
    (isRet : state.resolution.runTy source = .ok ret) :
    Moves state after ∧ after.resolution.method key = .ok handle ∧
      after.HoldsMethod key attrs sources source := by
  obtain ⟨target, resolution, declared, added, rfl⟩ := addMethod_ok ran
  have within := Resolution.within_of_insert? added
  have found := Resolution.method_eq_ok.mpr (Resolution.get?_of_insert? added)
  refine ⟨.single (.declareMethod isOwner declared added), found, ?_⟩
  obtain ⟨info, isOpen, -, -, rfl, rfl⟩ := Image.declareMethod_shape declared
  obtain ⟨isInfo, -, -⟩ := Image.openType_eq_ok.mp isOpen
  exact ⟨owner, _, _, _, within.type isOwner, Image.type?_modifyType isInfo, by simp, found,
    Array.getElem?_push_size, rfl, rfl, within.runTys areParams, within.runTy isRet⟩

theorem accessor_moves (sources : List SourceTy) (source : SourceTy)
    {accessor? : Option MethodKey} {handle? : Option MethodHandle}
    (ran : (accessor?.mapM fun key => addMethod key owner attrs params ret).run state =
      .ok handle? after)
    (isOwner : ∀ key ∈ accessor?, state.resolution.type key.owner = .ok owner)
    (areParams : state.resolution.runTys sources = .ok params)
    (isRet : state.resolution.runTy source = .ok ret) :
    Moves state after ∧ accessor?.map after.resolution.method = handle?.map .ok ∧
      ∀ key ∈ accessor?, after.HoldsMethod key attrs sources source := by
  rcases Build.optionMapM_eq_ok ran with ⟨rfl, rfl, rfl⟩ | ⟨key, handle, rfl, rfl, declared⟩
  · exact ⟨.refl, rfl, by simp⟩
  · obtain ⟨moves, found, holds⟩ := addMethod_moves declared (isOwner key rfl) areParams isRet
    refine ⟨moves, congrArg some found, fun other isOther => ?_⟩
    cases isOther
    exact holds

theorem owner_of_getterKey? (isKey : key ∈ property.getterKey?) :
    key.owner = property.key.owner := by
  obtain ⟨_, -, rfl⟩ := Option.map_eq_some_iff.mp isKey
  rfl

theorem owner_of_setterKey? (isKey : key ∈ property.setterKey?) :
    key.owner = property.key.owner := by
  obtain ⟨_, -, rfl⟩ := Option.map_eq_some_iff.mp isKey
  rfl

theorem generate_eq_ok {host : Name} {code : LowerContext → Except Diagnostic Body} {body : Body} :
    (generate host tailCalls code).run state = .ok body after ↔
      code { image := state.target, resolution := state.resolution, host, tailCalls } = .ok body ∧
        after = state := by
  rw [run_generate]
  cases code { image := state.target, resolution := state.resolution, host, tailCalls } <;>
    simp [eq_comm]

/-- A type is declared below entries that its base and its interfaces stand for. -/
theorem declaredBelow {attrs : TypeAttrs} {base : Option SourceTy} {interfaces : List SourceTy}
    {root : Option RunTy} {above : List RunTy} {handle : TypeHandle} {extended : Image}
    (declared : state.target.declareType name attrs root above = .ok (handle, extended))
    (isRoot : base.mapM state.resolution.runTy = .ok root)
    (areAbove : state.resolution.runTys interfaces = .ok above) :
    ∀ type ∈ attrs.above base interfaces, ∃ upper, state.StandsFor type upper ∧
      ∃ info, extended.type? handle = some info ∧
        (info.base = some upper ∨ upper ∈ info.interfaces) := by
  obtain ⟨parent, uppers, -, isParent, areUppers, rfl, rfl⟩ := Image.declareType_shape declared
  intro type isType
  rcases List.mem_append.mp isType with isBase | isInterface
  · cases base with
    | none =>
        cases isRoot
        have isParent := Image.resolveBase_of_none isParent
        split at isBase
        · cases isBase
        · rename_i isClass
          rw [if_neg isClass] at isParent
          obtain ⟨upper, rfl, isUpper⟩ := isParent
          obtain rfl := List.mem_singleton.mp isBase
          exact ⟨upper, ⟨.object, rfl, isUpper⟩, _, Array.getElem?_push_size, .inl rfl⟩
    | some written =>
        obtain ⟨resolved, isResolved, ⟨⟩⟩ := ClassForge.bind_eq_ok.mp isRoot
        obtain ⟨upper, _, rfl, isUpper, -⟩ := Image.resolveBase_of_some isParent
        obtain rfl : type = written := by
          split at isBase <;> simpa using isBase
        exact ⟨upper, ⟨resolved, isResolved, isUpper⟩, _, Array.getElem?_push_size, .inl rfl⟩
  · obtain ⟨resolved, listed, isResolved⟩ :=
      exists_related_right (Ty.resolveList_eq_ok.mp areAbove) isInterface
    obtain ⟨upper, isUpper, isHandle⟩ := exists_related_right (mapM_eq_ok.mp areUppers) listed
    exact ⟨upper, ⟨resolved, isResolved, isHandle⟩, _, Array.getElem?_push_size, .inr isUpper⟩

/-- What carrying out a task reads, asks the target for and records. -/
inductive Carries (tailCalls : Bool) (state : BuildState Image) : Task → BuildState Image → Prop where
  | declareType {name attrs base interfaces root above handle target resolution}
      (isBase : base.mapM state.resolution.runTy = .ok root)
      (areInterfaces : state.resolution.runTys interfaces = .ok above)
      (declared : state.target.declareType name attrs root above = .ok (handle, target))
      (added : state.resolution.insert? (.type name) (.type handle) = some resolution) :
      Carries tailCalls state (.declareType name attrs base interfaces) ⟨target, resolution⟩
  | declareField {key attrs owner type handle target resolution}
      (isOwner : state.resolution.type key.owner = .ok owner)
      (isType : state.resolution.runTy key.type = .ok type)
      (declared : state.target.declareField owner key.name type attrs = .ok (handle, target))
      (added : state.resolution.insert? (.field key) (.field handle) = some resolution) :
      Carries tailCalls state (.declareField key attrs) ⟨target, resolution⟩
  | declareMethod {key attrs ret owner params type handle after}
      (isOwner : state.resolution.type key.owner = .ok owner)
      (areParams : state.resolution.runTys key.params = .ok params)
      (isRet : state.resolution.runTy ret = .ok type)
      (declared : (addMethod key owner attrs params type).run state = .ok handle after) :
      Carries tailCalls state (.declareMethod key attrs ret) after
  | declareCtor {key owner params handle target resolution}
      (isOwner : state.resolution.type key.owner = .ok owner)
      (areParams : state.resolution.runTys key.params = .ok params)
      (declared : state.target.declareCtor owner params = .ok (handle, target))
      (added : state.resolution.insert? (.ctor key) (.ctor handle) = some resolution) :
      Carries tailCalls state (.declareCtor key) ⟨target, resolution⟩
  | declareProperty {property : CoreProperty} {owner type getter setter middle last handle target}
      {resolution}
      (isOwner : state.resolution.type property.key.owner = .ok owner)
      (isType : state.resolution.runTy property.key.type = .ok type)
      (getterAdded : (property.getterKey?.mapM fun key => addMethod key owner
        (.generated property.isStatic) [] type).run state = .ok getter middle)
      (setterAdded : (property.setterKey?.mapM fun key => addMethod key owner
        (.generated property.isStatic) [type] .void).run middle = .ok setter last)
      (declared : last.target.declareProperty owner property.key.name type getter setter =
        .ok (handle, target))
      (added : last.resolution.insert? (.property property.key) (.property handle) =
        some resolution) :
      Carries tailCalls state (.declareProperty property) ⟨target, resolution⟩
  | defineMethod {host key source body handle target}
      (generated : source.code ⟨state.target, state.resolution, host, tailCalls⟩ = .ok body)
      (isMethod : state.resolution.method key = .ok handle)
      (defined : state.target.defineMethod handle body = .ok target) :
      Carries tailCalls state (.defineMethod host key source) ⟨target, state.resolution⟩
  | defineCtor {host key source body handle target}
      (generated : source.code ⟨state.target, state.resolution, host, tailCalls⟩ = .ok body)
      (isCtor : state.resolution.ctor key = .ok handle)
      (defined : state.target.defineCtor handle body = .ok target) :
      Carries tailCalls state (.defineCtor host key source) ⟨target, state.resolution⟩
  | complete {name supertypes handle realized target resolution}
      (isType : state.resolution.type name = .ok handle)
      (completed : state.target.sealType handle = .ok (realized, target))
      (added : state.resolution.insert? (.completed name) (.completed realized) =
        some resolution) :
      Carries tailCalls state (.complete name supertypes) ⟨target, resolution⟩

/-- A task that succeeds has been carried out. -/
theorem carried (ran : (task.action tailCalls).run state = .ok () after) :
    task.Carries tailCalls state after := by
  cases task with
    simp only [action, Build.bind_eq_ok, generate_eq_ok, resolve_eq_ok, request_eq_ok,
      record_eq_ok] at ran
  | declareType name attrs base interfaces =>
      obtain ⟨_, _, ⟨isBase, rfl⟩, _, _, ⟨areInterfaces, rfl⟩, handle, _,
        ⟨target, declared, rfl⟩, resolution, added, rfl⟩ := ran
      exact .declareType isBase areInterfaces declared added
  | declareField key attrs =>
      obtain ⟨owner, _, ⟨isOwner, rfl⟩, type, _, ⟨isType, rfl⟩, handle, _,
        ⟨target, declared, rfl⟩, resolution, added, rfl⟩ := ran
      exact .declareField isOwner isType declared added
  | declareMethod key attrs ret =>
      obtain ⟨owner, _, ⟨isOwner, rfl⟩, params, _, ⟨areParams, rfl⟩, type, _, ⟨isRet, rfl⟩, ran⟩ :=
        ran
      obtain ⟨handle, _, declared, ⟨⟩⟩ := Build.bind_eq_ok.mp ran
      exact .declareMethod isOwner areParams isRet declared
  | declareCtor key =>
      obtain ⟨owner, _, ⟨isOwner, rfl⟩, params, _, ⟨areParams, rfl⟩, handle, _,
        ⟨target, declared, rfl⟩, resolution, added, rfl⟩ := ran
      exact .declareCtor isOwner areParams declared added
  | declareProperty property =>
      obtain ⟨owner, _, ⟨isOwner, rfl⟩, type, _, ⟨isType, rfl⟩, getter, middle, gotGetter, setter,
        last, gotSetter, handle, _, ⟨target, declared, rfl⟩, resolution, added, rfl⟩ := ran
      exact .declareProperty isOwner isType gotGetter gotSetter declared added
  | defineMethod host key source =>
      obtain ⟨body, _, ⟨generated, rfl⟩, handle, _, ⟨isMethod, rfl⟩, target, defined, rfl⟩ := ran
      obtain ⟨_, defined, ⟨⟩⟩ := ClassForge.bind_eq_ok.mp defined
      exact .defineMethod generated isMethod defined
  | defineCtor host key source =>
      obtain ⟨body, _, ⟨generated, rfl⟩, handle, _, ⟨isCtor, rfl⟩, target, defined, rfl⟩ := ran
      obtain ⟨_, defined, ⟨⟩⟩ := ClassForge.bind_eq_ok.mp defined
      exact .defineCtor generated isCtor defined
  | complete name supertypes =>
      obtain ⟨handle, _, ⟨isType, rfl⟩, realized, _, ⟨target, completed, rfl⟩, resolution, added,
        rfl⟩ := ran
      exact .complete isType completed added

/-- A task that succeeds makes moves, after which it is realized. -/
theorem action_moves (ran : (task.action tailCalls).run state = .ok () after) :
    Moves state after ∧ task.Realized after := by
  cases carried ran with
  | declareType isBase areInterfaces declared added =>
      have move := Build.Move.declareType declared added
      refine ⟨.single move, ?_⟩
      have below := declaredBelow declared isBase areInterfaces
      obtain ⟨root, above, -, -, -, rfl, rfl⟩ := Image.declareType_shape declared
      refine ⟨_, _, Resolution.type_eq_ok.mpr (Resolution.get?_of_insert? added),
        Array.getElem?_push_size, rfl, rfl, rfl, fun type isAbove => ?_⟩
      obtain ⟨upper, stands, info, isInfo, listed⟩ := below type isAbove
      cases isInfo.symm.trans Array.getElem?_push_size
      exact ⟨upper, stands.mono move.extends', listed⟩
  | @declareField key attrs owner _ _ _ _ isOwner isType declared added =>
      have within := Resolution.within_of_insert? added
      refine ⟨.single (.declareField isOwner declared added), ?_⟩
      obtain ⟨info, isOpen, -, -, rfl, rfl⟩ := Image.declareField_shape declared
      obtain ⟨isInfo, -, -⟩ := Image.openType_eq_ok.mp isOpen
      exact ⟨owner, _, _, _, within.type isOwner, Image.type?_modifyType isInfo, by simp,
        Resolution.field_eq_ok.mpr (Resolution.get?_of_insert? added), Array.getElem?_push_size,
        rfl, rfl, within.runTy isType⟩
  | declareMethod isOwner areParams isRet declared =>
      obtain ⟨moves, -, holds⟩ := addMethod_moves declared isOwner areParams isRet
      exact ⟨moves, holds⟩
  | @declareCtor key owner _ _ _ _ isOwner areParams declared added =>
      have within := Resolution.within_of_insert? added
      refine ⟨.single (.declareCtor isOwner declared added), ?_⟩
      obtain ⟨info, isOpen, -, -, rfl, rfl⟩ := Image.declareCtor_shape declared
      obtain ⟨isInfo, -, -⟩ := Image.openType_eq_ok.mp isOpen
      exact ⟨owner, _, _, _, within.type isOwner, Image.type?_modifyType isInfo, by simp,
        Resolution.ctor_eq_ok.mpr (Resolution.get?_of_insert? added), Array.getElem?_push_size,
        within.runTys areParams⟩
  | @declareProperty property owner type _ _ middle last _ _ _ isOwner isType getterAdded
      setterAdded declared added =>
      obtain ⟨getterMoves, isGetter, getterHolds⟩ := accessor_moves [] property.key.type getterAdded
        (fun key isKey => owner_of_getterKey? isKey ▸ isOwner) rfl isType
      have early := getterMoves.extends'.resolution
      have isParam : middle.resolution.runTys [property.key.type] = .ok [type] := by
        have isType := early.runTy isType
        unfold Resolution.runTy at isType
        simp only [Resolution.runTys, Ty.resolveList, isType]
        rfl
      obtain ⟨setterMoves, isSetter, setterHolds⟩ := accessor_moves [property.key.type] .void
        setterAdded (fun key isKey => owner_of_setterKey? isKey ▸ early.type isOwner) isParam rfl
      have late := setterMoves.extends'
      have isOwner := late.resolution.type (early.type isOwner)
      have move : Moves last _ := .single (.declareProperty isOwner declared added)
      have within := move.extends'
      have whole := late.resolution.trans within.resolution
      refine ⟨(getterMoves.trans setterMoves).trans move, ?_, ?_, ?_⟩
      · obtain ⟨info, isOpen, -, -, rfl, rfl⟩ := Image.declareProperty_shape declared
        obtain ⟨isInfo, -, -⟩ := Image.openType_eq_ok.mp isOpen
        exact ⟨owner, _, _, _, within.resolution.type isOwner, Image.type?_modifyType isInfo,
          by simp, Array.getElem?_push_size, rfl, (early.trans whole).runTy isType,
          whole.accessor isGetter, within.resolution.accessor isSetter⟩
      · exact fun key isKey => ((getterHolds key isKey).mono late).mono within
      · exact fun key isKey => (setterHolds key isKey).mono within
  | defineMethod _ isMethod defined => exact ⟨.single (.defineMethod isMethod defined), trivial⟩
  | defineCtor _ isCtor defined => exact ⟨.single (.defineCtor isCtor defined), trivial⟩
  | complete isType completed added =>
      have within := Resolution.within_of_insert? added
      refine ⟨.single (.complete isType completed added), ?_⟩
      obtain ⟨info, inherited, slots, isOpen, -, -, -, rfl, -, rfl⟩ := Image.sealType_shape completed
      obtain ⟨isInfo, -, -⟩ := Image.openType_eq_ok.mp isOpen
      exact ⟨_, _, Resolution.get?_of_insert? added, within.type isType,
        Image.type?_modifyType isInfo, rfl, rfl⟩

end Task

/-! ## Whole builds -/

open Schedule

variable {program : Program} {tailCalls : Bool}

/-- A key is the output of one task only. -/
theorem Schedule.Valid.task_eq (valid : Valid (program.steps tailCalls)) {other : Task} {key : Key}
    (isTask : task ∈ program.tasks) (isOther : other ∈ program.tasks) (made : key ∈ task.outputs)
    (alsoMade : key ∈ other.outputs) : task = other := by
  have disjoint : program.tasks.Pairwise fun first second =>
      Disjoint (first.step tailCalls) (second.step tailCalls) :=
    List.pairwise_map.mp valid.disjoint
  by_contra different
  have symmetric : Std.Symm fun first second : Task =>
      Disjoint (first.step tailCalls) (second.step tailCalls) := ⟨fun _ _ => Disjoint.symm⟩
  exact disjoint.forall isTask isOther different key (Task.mem_step_outputs.mpr made)
    (Task.mem_step_outputs.mpr alsoMade)

/-- The steps that a build has done come from tasks that are realized. -/
theorem Schedule.Runs.realized {start state : BuildState Image} {done : List (Step Image)}
    (runs : Runs (program.steps tailCalls) start done state) :
    Build.Moves start state ∧ ∀ step ∈ done, ∃ task ∈ program.tasks,
      task.step tailCalls = step ∧ task.Realized state := by
  induction runs with
  | start => exact ⟨.refl, by simp⟩
  | step _ turn ran ih =>
      obtain ⟨moves, realized⟩ := ih
      obtain ⟨task, isTask, rfl⟩ := Program.mem_steps.mp turn.member
      obtain ⟨more, isRealized⟩ := Task.action_moves (runStep_eq_ok ran).1
      refine ⟨moves.trans more, fun step isDone => ?_⟩
      rcases List.mem_append.mp isDone with early | late
      · obtain ⟨other, isOther, same, was⟩ := realized step early
        exact ⟨other, isOther, same, was.mono more.extends'⟩
      · exact ⟨task, isTask, (List.mem_singleton.mp late).symm, isRealized⟩

/-- A build that succeeds realizes every task that adds something. -/
theorem Program.build_realized {options : CompileOptions} {image after : Image}
    {compiled : CompiledModule}
    (done : program.build options image = (.ok compiled, after)) :
    ∃ state, compiled = .ofResolution options.name state.resolution ∧ after = state.target ∧
      Valid (program.steps options.tailCalls) ∧
      (∃ order, Runs (program.steps options.tailCalls) (.initial image) order state ∧
        order.Perm (program.steps options.tailCalls)) ∧
      Build.Moves (.initial image) state ∧
      ∀ task ∈ program.tasks, task.outputs ≠ [] → task.Realized state := by
  have ends : Ends (program.steps options.tailCalls) (.initial image) _ := schedule_ends rfl
  rw [Program.build_eq] at done
  generalize (schedule (program.steps options.tailCalls)).run (.initial image) = result
    at ends done
  cases ends with
  | invalid | stuck | stuckLate | failed => cases done
  | finished valid runs perm =>
      cases done
      obtain ⟨moves, realized⟩ := runs.realized
      refine ⟨_, rfl, rfl, valid, ⟨_, runs, perm⟩, moves, fun task isTask adds => ?_⟩
      obtain ⟨key, made⟩ := List.exists_mem_of_ne_nil _ adds
      have isStep := perm.mem_iff.mpr (Program.mem_steps.mpr ⟨task, isTask, rfl⟩)
      obtain ⟨other, isOther, same, isRealized⟩ := realized _ isStep
      have alsoMade : key ∈ other.outputs := by
        rw [← Task.mem_step_outputs, same, Task.mem_step_outputs]
        exact made
      rwa [valid.task_eq isTask isOther made alsoMade]

end ClassForge
