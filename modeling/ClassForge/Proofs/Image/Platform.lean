import ClassForge.Image.Declare
import ClassForge.Image.Library
import ClassForge.Image.Reflect
import ClassForge.Proofs.Outcome

/-!
# The platform under every image

An image comes from the library by requests to declare, define and complete.
None of them touches an entry of the platform, so in every image the members of
platform types mention no declared types.
-/

namespace ClassForge

namespace Image

variable {handle : TypeHandle} {info : TypeInfo} {type : RunTy} {index : Nat}
variable {change : TypeInfo → TypeInfo}

/-- The images that there are: the library, and what requests make of one. -/
inductive Built : Image → Prop where
  | library : Built library
  | declareType {image extended : Image} {name : Name} {attrs : TypeAttrs}
      {base : Option RunTy} {interfaces : List RunTy} {handle : TypeHandle} :
      Built image →
      image.declareType name attrs base interfaces = .ok (handle, extended) →
      Built extended
  | declareField {image extended : Image} {owner : TypeHandle} {name : Name}
      {type : RunTy} {attrs : FieldAttrs} {handle : FieldHandle} :
      Built image →
      image.declareField owner name type attrs = .ok (handle, extended) →
      Built extended
  | declareMethod {image extended : Image} {owner : TypeHandle} {name : Name}
      {attrs : MethodAttrs} {params : List RunTy} {ret : RunTy} {handle : MethodHandle} :
      Built image →
      image.declareMethod owner name attrs params ret = .ok (handle, extended) →
      Built extended
  | declareCtor {image extended : Image} {owner : TypeHandle} {params : List RunTy}
      {handle : CtorHandle} :
      Built image →
      image.declareCtor owner params = .ok (handle, extended) →
      Built extended
  | declareProperty {image extended : Image} {owner : TypeHandle} {name : Name}
      {type : RunTy} {getter setter : Option MethodHandle} {handle : PropertyHandle} :
      Built image →
      image.declareProperty owner name type getter setter = .ok (handle, extended) →
      Built extended
  | defineMethod {image extended : Image} {handle : MethodHandle} {body : Body} :
      Built image →
      image.defineMethod handle body = .ok extended →
      Built extended
  | defineCtor {image extended : Image} {handle : CtorHandle} {body : Body} :
      Built image →
      image.defineCtor handle body = .ok extended →
      Built extended
  | sealType {image extended : Image} {handle : TypeHandle} {realized : RealizedType} :
      Built image →
      image.sealType handle = .ok (realized, extended) →
      Built extended

/-- The members of one platform type mention no declared types, and a generic
definition has no properties. -/
structure PlainEntry (image : Image) (info : TypeInfo) : Prop where
  methods : ∀ handle ∈ info.methods, ∃ method ∈ image.method? handle,
    ∀ param ∈ method.params, param.mentions = []
  ctors : ∀ handle ∈ info.ctors, ∃ ctor ∈ image.ctor? handle,
    ∀ param ∈ ctor.params, param.mentions = []
  properties : ∀ handle ∈ info.properties, ∃ property ∈ image.property? handle,
    property.type.mentions = []
  generic : info.origin.isGeneric = true → info.properties = []

/-- The members of platform types mention no declared types. -/
def PlainPlatform (image : Image) : Prop :=
  ∀ info ∈ image.types, info.origin ≠ .declared → image.PlainEntry info

instance (image : Image) (info : TypeInfo) : Decidable (image.PlainEntry info) :=
  decidable_of_iff
    ((∀ handle ∈ info.methods, ∃ method ∈ image.method? handle,
        ∀ param ∈ method.params, param.mentions = []) ∧
      (∀ handle ∈ info.ctors, ∃ ctor ∈ image.ctor? handle,
        ∀ param ∈ ctor.params, param.mentions = []) ∧
      (∀ handle ∈ info.properties, ∃ property ∈ image.property? handle,
        property.type.mentions = []) ∧
      (info.origin.isGeneric = true → info.properties = []))
    ⟨fun ⟨methods, ctors, properties, generic⟩ => ⟨methods, ctors, properties, generic⟩,
      fun plain => ⟨plain.methods, plain.ctors, plain.properties, plain.generic⟩⟩

theorem plainPlatform_library : library.PlainPlatform := by
  unfold PlainPlatform
  decide +kernel

/-! ## Requests -/

/-- A change of an image that leaves the members of platform types as they are:
member tables only grow, keep the signatures that they have, and types that are
changed or added are declared ones. -/
structure Grows (image extended : Image) : Prop where
  methods : ∀ handle, ∀ method ∈ image.method? handle,
    ∃ after ∈ extended.method? handle, after.params = method.params
  ctors : ∀ handle, ∀ ctor ∈ image.ctor? handle,
    ∃ after ∈ extended.ctor? handle, after.params = ctor.params
  properties : ∀ handle, ∀ property ∈ image.property? handle,
    ∃ after ∈ extended.property? handle, after.type = property.type
  types : ∀ info ∈ extended.types, info.origin ≠ .declared → info ∈ image.types

theorem Grows.plainPlatform {image extended : Image}
    (grows : image.Grows extended)
    (plain : image.PlainPlatform) : extended.PlainPlatform := by
  intro info member platform
  have entry := plain info (grows.types info member platform) platform
  refine ⟨?_, ?_, ?_, entry.generic⟩
  · intro handle listed
    obtain ⟨method, found, mentions⟩ := entry.methods handle listed
    obtain ⟨after, kept, same⟩ := grows.methods handle method found
    exact ⟨after, kept, same ▸ mentions⟩
  · intro handle listed
    obtain ⟨ctor, found, mentions⟩ := entry.ctors handle listed
    obtain ⟨after, kept, same⟩ := grows.ctors handle ctor found
    exact ⟨after, kept, same ▸ mentions⟩
  · intro handle listed
    obtain ⟨property, found, mentions⟩ := entry.properties handle listed
    obtain ⟨after, kept, same⟩ := grows.properties handle property found
    exact ⟨after, kept, same ▸ mentions⟩

theorem type_eq_ok {image : Image} :
    image.type handle = .ok info ↔ image.type? handle = some info := by
  unfold type
  cases image.type? handle <;> simp

theorem handleOf_eq_ok {image : Image} :
    image.handleOf type = .ok handle ↔ image.handleOf? type = some handle := by
  unfold handleOf
  cases image.handleOf? type <;> simp

theorem ownerInfo_eq_ok {image : Image} {owner : RunTy} :
    image.ownerInfo owner = .ok info ↔
      ∃ handle, image.handleOf? owner = some handle ∧ image.type? handle = some info := by
  unfold ownerInfo
  simp only [bind_eq_ok, handleOf_eq_ok, type_eq_ok]

theorem method_eq_ok {image : Image} {handle : MethodHandle} {method : MethodInfo} :
    image.method handle = .ok method ↔ image.method? handle = some method := by
  unfold Image.method
  cases image.method? handle <;> simp

theorem ctor_eq_ok {image : Image} {handle : CtorHandle} {ctor : CtorInfo} :
    image.ctor handle = .ok ctor ↔ image.ctor? handle = some ctor := by
  unfold Image.ctor
  cases image.ctor? handle <;> simp

theorem openType_eq_ok {image : Image} :
    image.openType handle = .ok info ↔
      image.type? handle = some info ∧ info.origin = .declared ∧ info.isComplete = false := by
  unfold openType
  rw [bind_eq_ok]
  constructor
  · rintro ⟨found, isType, accepted⟩
    split at accepted
    · rename_i isOpen
      rw [pure_eq_ok] at accepted
      subst accepted
      exact ⟨type_eq_ok.mp isType, by simpa using isOpen⟩
    · exact (throw_ne_ok.mp accepted).elim
  · rintro ⟨found, declared, isOpen⟩
    refine ⟨info, type_eq_ok.mpr found, ?_⟩
    simp [declared, isOpen, pure_eq_ok]

theorem checkTys_eq_forM (image : Image) (types : List RunTy) :
    image.checkTys types = types.forM image.checkTy := by
  induction types with
  | nil => rfl
  | cons type types ih =>
      rw [checkTys, ih]
      rfl

theorem checkTys_eq_ok {image : Image} {types : List RunTy} :
    image.checkTys types = .ok () ↔ ∀ type ∈ types, image.checkTy type = .ok () := by
  rw [checkTys_eq_forM]
  exact forM_eq_ok

theorem getElem?_push_of_eq_some {α : Type} {table : Array α} {value added : α}
    (found : table[index]? = some value) : (table.push added)[index]? = some value := by
  obtain ⟨inBounds, rfl⟩ := Array.getElem?_eq_some_iff.mp found
  rw [Array.getElem?_push_lt inBounds]

/-- Other entries than the one that was pushed on a table were there before. -/
theorem getElem?_of_push {α : Type} {table : Array α} {added value : α}
    (found : (table.push added)[index]? = some value) (different : value ≠ added) :
    table[index]? = some value := by
  rw [Array.getElem?_push] at found
  split at found
  · exact (different (Option.some.inj found).symm).elim
  · exact found

theorem exists_getElem?_modify {α : Type} {table : Array α} {value : α} {change : α → α}
    (changed : Nat) (found : table[index]? = some value) :
    ∃ after ∈ (table.modify changed change)[index]?, after = value ∨ after = change value := by
  rw [Array.getElem?_modify, found]
  split
  · exact ⟨change value, rfl, .inr rfl⟩
  · exact ⟨value, rfl, .inl rfl⟩

theorem mem_modifyType {image : Image} (member : info ∈ (image.modifyType handle change).types) :
    info ∈ image.types ∨ ∃ before ∈ image.type? handle, info = change before := by
  obtain ⟨index, found⟩ := Array.mem_iff_getElem?.mp member
  rw [modifyType, Array.getElem?_modify] at found
  split at found
  · rename_i same
    subst same
    obtain ⟨before, present, rfl⟩ := Option.map_eq_some_iff.mp found
    exact .inr ⟨before, present, rfl⟩
  · exact .inl (Array.mem_iff_getElem?.mpr ⟨index, found⟩)

theorem type?_modifyType {image : Image} {owner : TypeHandle}
    (isInfo : image.type? owner = some info) :
    (image.modifyType owner change).type? owner = some (change info) := by
  have found : image.types[owner.index]? = some info := isInfo
  rw [type?, modifyType, Array.getElem?_modify, if_pos rfl, found, Option.map_some]

/-- An image that was changed in an open type and got more members. -/
theorem Grows.of_modifyType
    {image : Image}
    {fields : Array FieldInfo}
    {methods : Array MethodInfo}
    {ctors : Array CtorInfo}
    {properties : Array PropertyInfo}
    {count : Nat}
    {owner : TypeHandle}
    (isOpen : image.openType owner = .ok info)
    (origin : ∀ info, (change info).origin = info.origin)
    (keepsMethods : ∀ handle, ∀ method ∈ image.method? handle,
      ∃ after ∈ methods[handle.index]?, after.params = method.params)
    (keepsCtors : ∀ handle, ∀ ctor ∈ image.ctor? handle,
      ∃ after ∈ ctors[handle.index]?, after.params = ctor.params)
    (keepsProperties : ∀ handle, ∀ property ∈ image.property? handle,
      ∃ after ∈ properties[handle.index]?, after.type = property.type) :
    image.Grows ⟨image.types.modify owner.index change, fields, methods, ctors, properties,
      count⟩ := by
  refine ⟨keepsMethods, keepsCtors, keepsProperties, ?_⟩
  intro entry member platform
  rcases mem_modifyType member with kept | ⟨before, found, rfl⟩
  · exact kept
  · obtain ⟨isType, declared, -⟩ := openType_eq_ok.mp isOpen
    rw [isType] at found
    cases found
    exact (platform (by rw [origin, declared])).elim

section Requests

variable {image extended : Image} {owner : TypeHandle} {name : Name}
variable {attrs : TypeAttrs} {parent : Option TypeHandle} {params : List RunTy}

/-- A written base is an entry that can have subtypes. -/
theorem resolveBase_of_some (resolved : image.resolveBase attrs (some type) = .ok parent) :
    ∃ upper info, parent = some upper ∧ image.handleOf type = .ok upper ∧
      image.type? upper = some info ∧ info.attrs.isSealed = false ∧
      info.attrs.isInterface = false ∧ info.attrs.isValueType = false := by
  simp only [resolveBase, bind_eq_ok] at resolved
  obtain ⟨upper, isUpper, info, isInfo, accepted⟩ := resolved
  split at accepted
  · cases accepted
  · rename_i inheritable
    cases accepted
    simp only [Bool.or_eq_true, not_or, Bool.not_eq_true] at inheritable
    obtain ⟨⟨notSealed, notInterface⟩, notValue⟩ := inheritable
    exact ⟨upper, info, rfl, isUpper, type_eq_ok.mp isInfo, notSealed, notInterface, notValue⟩

/-- Without a written base, only a class has one. -/
theorem resolveBase_of_none (resolved : image.resolveBase attrs none = .ok parent) :
    if attrs.isValueType || attrs.isInterface then parent = none
    else ∃ upper, parent = some upper ∧ image.handleOf .object = .ok upper := by
  unfold resolveBase at resolved
  dsimp only at resolved
  split <;> rename_i isClass
  · rw [if_pos isClass] at resolved
    cases resolved
    rfl
  · rw [if_neg isClass] at resolved
    obtain ⟨handle, isHandle, ⟨⟩⟩ := bind_eq_ok.mp resolved
    exact ⟨handle, rfl, isHandle⟩

/-- What declaring a type does. -/
theorem declareType_shape {base : Option RunTy} {interfaces : List RunTy}
    (done : image.declareType name attrs base interfaces = .ok (handle, extended)) :
    ∃ root above, image.typeNamed? name = none ∧ image.resolveBase attrs base = .ok root ∧
      interfaces.mapM image.handleOf = .ok above ∧ handle = ⟨image.types.size⟩ ∧
      extended = { image with
        types := image.types.push
          { name, attrs, origin := .declared, base := root, interfaces := above, fields := [],
            methods := [], ctors := [], properties := [], isComplete := false,
            instanceSlots := 0 } } := by
  unfold declareType at done
  split at done
  · cases done
  · rename_i isNew
    simp only [bind_eq_ok] at done
    obtain ⟨root, isRoot, above, areAbove, added⟩ := done
    cases added
    exact ⟨root, above, Option.not_isSome_iff_eq_none.mp isNew, isRoot, areAbove, rfl, rfl⟩

/-- What declaring a field does. -/
theorem declareField_shape {attrs : FieldAttrs} {handle : FieldHandle}
    (done : image.declareField owner name type attrs = .ok (handle, extended)) :
    ∃ info, image.openType owner = .ok info ∧ image.checkTy type = .ok () ∧
      (∀ entry ∈ image.fieldsOf info, entry.2.name ≠ name) ∧ handle = ⟨image.fields.size⟩ ∧
      extended =
        { image.modifyType owner (fun info =>
            { info with fields := info.fields ++ [⟨image.fields.size⟩] }) with
          fields := image.fields.push { owner, name, type, attrs, slot := 0 } } := by
  simp only [declareField, bind_eq_ok] at done
  obtain ⟨⟨⟩, checked, info, isOpen, added⟩ := done
  split at added
  · cases added
  · rename_i isNew
    cases added
    exact ⟨info, isOpen, checked, by simpa using isNew, rfl, rfl⟩

/-- What declaring a method does. -/
theorem declareMethod_shape {attrs : MethodAttrs} {ret : RunTy} {handle : MethodHandle}
    (done : image.declareMethod owner name attrs params ret = .ok (handle, extended)) :
    ∃ info, image.openType owner = .ok info ∧ image.checkTys (params ++ [ret]) = .ok () ∧
      (∀ entry ∈ image.methodsOf info, ¬(entry.2.name = name ∧ entry.2.params = params ∧
        entry.2.attrs.isStatic = attrs.isStatic)) ∧ handle = ⟨image.methods.size⟩ ∧
      extended =
        { image.modifyType owner (fun info =>
            { info with methods := info.methods ++ [⟨image.methods.size⟩] }) with
          methods := image.methods.push
            { owner, name, attrs, params, ret, implementation := .missing } } := by
  simp only [declareMethod, bind_eq_ok] at done
  obtain ⟨⟨⟩, checked, info, isOpen, added⟩ := done
  split at added
  · cases added
  · rename_i isNew
    cases added
    exact ⟨info, isOpen, checked, by simpa [and_assoc] using isNew, rfl, rfl⟩

/-- What declaring a constructor does. -/
theorem declareCtor_shape {handle : CtorHandle}
    (done : image.declareCtor owner params = .ok (handle, extended)) :
    ∃ info, image.openType owner = .ok info ∧ image.checkTys params = .ok () ∧
      (∀ entry ∈ image.ctorsOf info, entry.2.params ≠ params) ∧ handle = ⟨image.ctors.size⟩ ∧
      extended =
        { image.modifyType owner (fun info =>
            { info with ctors := info.ctors ++ [⟨image.ctors.size⟩] }) with
          ctors := image.ctors.push { owner, params, implementation := .missing } } := by
  simp only [declareCtor, bind_eq_ok] at done
  obtain ⟨⟨⟩, checked, info, isOpen, added⟩ := done
  split at added
  · cases added
  · rename_i isNew
    cases added
    exact ⟨info, isOpen, checked, by simpa using isNew, rfl, rfl⟩

/-- What declaring a property does. -/
theorem declareProperty_shape {getter setter : Option MethodHandle} {handle : PropertyHandle}
    (done : image.declareProperty owner name type getter setter = .ok (handle, extended)) :
    ∃ info, image.openType owner = .ok info ∧
      (∀ accessor ∈ getter.toList ++ setter.toList, image.checkAccessor owner accessor = .ok ()) ∧
      (∀ entry ∈ image.propertiesOf info, entry.2.name ≠ name) ∧
      handle = ⟨image.properties.size⟩ ∧
      extended =
        { image.modifyType owner (fun info =>
            { info with properties := info.properties ++ [⟨image.properties.size⟩] }) with
          properties := image.properties.push { name, type, getter, setter } } := by
  simp only [declareProperty, bind_eq_ok] at done
  obtain ⟨info, isOpen, added⟩ := done
  split at added
  · cases added
  · rename_i isNew
    obtain ⟨⟨⟩, checked, added⟩ := bind_eq_ok.mp added
    cases added
    exact ⟨info, isOpen, forM_eq_ok.mp checked, by simpa using isNew, rfl, rfl⟩

/-- What defining the code of a method does: it had none. -/
theorem defineMethod_shape {handle : MethodHandle} {body : Body}
    (done : image.defineMethod handle body = .ok extended) :
    ∃ info opened, image.method? handle = some info ∧ image.openType info.owner = .ok opened ∧
      info.implementation = .missing ∧
      extended = { image with
        methods := image.methods.modify handle.index fun info =>
          { info with implementation := .code body } } := by
  simp only [defineMethod, bind_eq_ok] at done
  obtain ⟨info, isMethod, ⟨⟩, discarded, added⟩ := done
  obtain ⟨opened, isOpen, -⟩ := bind_eq_ok.mp discarded
  split at added
  · cases added
  · split at added
    · cases added
    · rename_i missing
      cases added
      refine ⟨info, opened, method_eq_ok.mp isMethod, isOpen, ?_, rfl⟩
      cases isMissing : info.implementation <;> simp_all [Implementation.isMissing]

/-- What defining the code of a constructor does: it had none. -/
theorem defineCtor_shape {handle : CtorHandle} {body : Body}
    (done : image.defineCtor handle body = .ok extended) :
    ∃ info opened, image.ctor? handle = some info ∧ image.openType info.owner = .ok opened ∧
      info.implementation = .missing ∧
      extended = { image with
        ctors := image.ctors.modify handle.index fun info =>
          { info with implementation := .code body } } := by
  simp only [defineCtor, bind_eq_ok] at done
  obtain ⟨info, isCtor, ⟨⟩, discarded, added⟩ := done
  obtain ⟨opened, isOpen, -⟩ := bind_eq_ok.mp discarded
  split at added
  · cases added
  · rename_i missing
    cases added
    refine ⟨info, opened, ctor_eq_ok.mp isCtor, isOpen, ?_, rfl⟩
    cases isMissing : info.implementation <;> simp_all [Implementation.isMissing]

/-- What completing a type does: it has passed its checks, and its fields get slots. -/
theorem sealType_shape {realized : RealizedType}
    (done : image.sealType handle = .ok (realized, extended)) :
    ∃ info inherited slots, image.openType handle = .ok info ∧
      image.inheritedSlots info = .ok inherited ∧ image.checkBodies info = .ok () ∧
      image.checkInterfaces handle info = .ok () ∧ realized = ⟨handle, info.name⟩ ∧
      slots = assignSlots info.fields image.fields inherited image.staticCount ∧
      extended =
        { image.modifyType handle (fun info =>
            { info with instanceSlots := slots.2.1, isComplete := true }) with
          fields := slots.1, staticCount := slots.2.2 } := by
  simp only [sealType, bind_eq_ok] at done
  obtain ⟨info, isOpen, inherited, above, ⟨⟩, bodies, ⟨⟩, interfaces, added⟩ := done
  cases added
  exact ⟨info, inherited, _, isOpen, above, bodies, interfaces, rfl, rfl, rfl⟩

end Requests

/-- Every request leaves the platform as it is. -/
theorem Built.of_grows {holds : Image → Prop} {image : Image} (built : image.Built)
    (start : holds Image.library)
    (grows : ∀ {image extended : Image}, image.Grows extended → holds image → holds extended) :
    holds image := by
  induction built with
  | library => exact start
  | declareType _ done held =>
      refine grows ?_ held
      obtain ⟨root, above, -, -, -, -, rfl⟩ := declareType_shape done
      refine ⟨fun _ method found => ⟨method, found, rfl⟩, fun _ ctor found => ⟨ctor, found, rfl⟩,
        fun _ property found => ⟨property, found, rfl⟩, ?_⟩
      intro info member platform
      rcases Array.mem_push.mp member with kept | rfl
      · exact kept
      · exact (platform rfl).elim
  | declareField _ done held =>
      refine grows ?_ held
      obtain ⟨info, isOpen, -, -, -, rfl⟩ := declareField_shape done
      dsimp only [modifyType]
      exact .of_modifyType isOpen (fun _ => rfl) (fun _ method found => ⟨method, found, rfl⟩)
        (fun _ ctor found => ⟨ctor, found, rfl⟩) (fun _ property found => ⟨property, found, rfl⟩)
  | declareMethod _ done held =>
      refine grows ?_ held
      obtain ⟨info, isOpen, -, -, -, rfl⟩ := declareMethod_shape done
      dsimp only [modifyType]
      exact .of_modifyType isOpen (fun _ => rfl) (fun _ method found =>
        ⟨method, getElem?_push_of_eq_some found, rfl⟩)
        (fun _ ctor found => ⟨ctor, found, rfl⟩) (fun _ property found => ⟨property, found, rfl⟩)
  | declareCtor _ done held =>
      refine grows ?_ held
      obtain ⟨info, isOpen, -, -, -, rfl⟩ := declareCtor_shape done
      dsimp only [modifyType]
      exact .of_modifyType isOpen (fun _ => rfl) (fun _ method found => ⟨method, found, rfl⟩)
        (fun _ ctor found => ⟨ctor, getElem?_push_of_eq_some found, rfl⟩)
        (fun _ property found => ⟨property, found, rfl⟩)
  | declareProperty _ done held =>
      refine grows ?_ held
      obtain ⟨info, isOpen, -, -, -, rfl⟩ := declareProperty_shape done
      dsimp only [modifyType]
      exact .of_modifyType isOpen (fun _ => rfl) (fun _ method found => ⟨method, found, rfl⟩)
        (fun _ ctor found => ⟨ctor, found, rfl⟩) (fun _ property found =>
          ⟨property, getElem?_push_of_eq_some found, rfl⟩)
  | defineMethod _ done held =>
      refine grows ?_ held
      obtain ⟨_, _, -, -, -, rfl⟩ := defineMethod_shape done
      refine ⟨?_, fun _ ctor found => ⟨ctor, found, rfl⟩,
        fun _ property found => ⟨property, found, rfl⟩, fun _ member _ => member⟩
      intro handle method found
      obtain ⟨after, present, same⟩ := exists_getElem?_modify _ found
      exact ⟨after, present, by rcases same with rfl | rfl <;> rfl⟩
  | defineCtor _ done held =>
      refine grows ?_ held
      obtain ⟨_, _, -, -, -, rfl⟩ := defineCtor_shape done
      refine ⟨fun _ method found => ⟨method, found, rfl⟩, ?_,
        fun _ property found => ⟨property, found, rfl⟩, fun _ member _ => member⟩
      intro handle ctor found
      obtain ⟨after, present, same⟩ := exists_getElem?_modify _ found
      exact ⟨after, present, by rcases same with rfl | rfl <;> rfl⟩
  | sealType _ done held =>
      refine grows ?_ held
      obtain ⟨info, inherited, slots, isOpen, -, -, -, -, -, rfl⟩ := sealType_shape done
      dsimp only [modifyType]
      exact .of_modifyType isOpen (fun _ => rfl) (fun _ method found => ⟨method, found, rfl⟩)
        (fun _ ctor found => ⟨ctor, found, rfl⟩) (fun _ property found => ⟨property, found, rfl⟩)

theorem Built.plainPlatform {image : Image} (built : image.Built) : image.PlainPlatform :=
  built.of_grows plainPlatform_library Grows.plainPlatform

/-- The types of the platform are those of the library. -/
theorem Built.platform {image : Image} (built : image.Built) :
    ∀ info ∈ image.types, info.origin ≠ .declared → info ∈ Image.library.types := by
  refine @Built.of_grows (fun image =>
    ∀ info ∈ image.types, info.origin ≠ .declared → info ∈ Image.library.types) image built
    (fun _ member _ => member) ?_
  exact fun grows held info member platform =>
    held info (grows.types info member platform) platform

end Image

end ClassForge
