import ClassForge.Machine.Run
import ClassForge.Proofs.Image.ImageGrowth
import ClassForge.Proofs.Typing.Declarations
import Mathlib.Logic.Relation

/-!
# Virtual calls on completed types

Completing a type checks that it implements the interfaces it lists; a virtual call looks
for the method on the type of the receiver and its bases.  The lineage of a completed type
consists of completed types and never changes any more, so what a search along it once finds
is found in every later image.
-/

namespace ClassForge

variable {handle : TypeHandle} {info : TypeInfo}
variable {realized : RealizedType} {entry : MethodInfo}

namespace Image

variable {image extended later : Image}
variable {name : Name} {params : List RunTy}
variable {change : TypeInfo → TypeInfo} {base : Option RunTy}

/-! ## Sequences of requests -/

/-- One request that an image grants. -/
inductive Request : Image → Image → Prop where
  | declareType {image extended : Image} {name : Name} {attrs : TypeAttrs}
      {base : Option RunTy} {interfaces : List RunTy} {handle : TypeHandle} :
      image.declareType name attrs base interfaces = .ok (handle, extended) →
      Request image extended
  | declareField {image extended : Image} {owner : TypeHandle} {name : Name} {type : RunTy}
      {attrs : FieldAttrs} {handle : FieldHandle} :
      image.declareField owner name type attrs = .ok (handle, extended) →
      Request image extended
  | declareMethod {image extended : Image} {owner : TypeHandle} {name : Name}
      {attrs : MethodAttrs} {params : List RunTy} {ret : RunTy} {handle : MethodHandle} :
      image.declareMethod owner name attrs params ret = .ok (handle, extended) →
      Request image extended
  | declareCtor {image extended : Image} {owner : TypeHandle} {params : List RunTy}
      {handle : CtorHandle} :
      image.declareCtor owner params = .ok (handle, extended) →
      Request image extended
  | declareProperty {image extended : Image} {owner : TypeHandle} {name : Name} {type : RunTy}
      {getter setter : Option MethodHandle} {handle : PropertyHandle} :
      image.declareProperty owner name type getter setter = .ok (handle, extended) →
      Request image extended
  | defineMethod {image extended : Image} {handle : MethodHandle} {body : Body} :
      image.defineMethod handle body = .ok extended →
      Request image extended
  | defineCtor {image extended : Image} {handle : CtorHandle} {body : Body} :
      image.defineCtor handle body = .ok extended →
      Request image extended
  | sealType {image extended : Image} {handle : TypeHandle} {realized : RealizedType} :
      image.sealType handle = .ok (realized, extended) →
      Request image extended

/-- Any number of requests, one after the other. -/
def Requests : Image → Image → Prop :=
  Relation.ReflTransGen Request

theorem Request.built (request : Request image extended) (built : image.Built) :
    extended.Built := by
  cases request with
  | declareType done => exact .declareType built done
  | declareField done => exact .declareField built done
  | declareMethod done => exact .declareMethod built done
  | declareCtor done => exact .declareCtor built done
  | declareProperty done => exact .declareProperty built done
  | defineMethod done => exact .defineMethod built done
  | defineCtor done => exact .defineCtor built done
  | sealType done => exact .sealType built done

/-- The images that there are are those that requests make of the library. -/
theorem built_iff_requests : image.Built ↔ Requests .library image := by
  constructor
  · intro built
    induction built with
    | library => exact .refl
    | declareType _ done made => exact made.tail (.declareType done)
    | declareField _ done made => exact made.tail (.declareField done)
    | declareMethod _ done made => exact made.tail (.declareMethod done)
    | declareCtor _ done made => exact made.tail (.declareCtor done)
    | declareProperty _ done made => exact made.tail (.declareProperty done)
    | defineMethod _ done made => exact made.tail (.defineMethod done)
    | defineCtor _ done made => exact made.tail (.defineCtor done)
    | sealType _ done made => exact made.tail (.sealType done)
  · intro made
    induction made with
    | refl => exact .library
    | tail _ request built => exact request.built built

theorem Request.extends' (request : Request image extended) : image.Extends extended := by
  cases request with
  | declareType done => exact declareType_extends done
  | declareField done => exact declareField_extends done
  | declareMethod done => exact declareMethod_extends done
  | declareCtor done => exact declareCtor_extends done
  | declareProperty done => exact declareProperty_extends done
  | defineMethod done => exact defineMethod_extends done
  | defineCtor done => exact defineCtor_extends done
  | sealType done => exact sealType_extends done

/-! ## The hierarchy -/

theorem Requests.built (requests : Requests image later) (built : image.Built) : later.Built := by
  induction requests with
  | refl => exact built
  | tail _ request built => exact request.built built

theorem Requests.extends' (requests : Requests image later) : image.Extends later := by
  induction requests with
  | refl => exact .refl image
  | tail _ request growth => exact growth.trans request.extends'

/-- The supertypes of a type came before it, and its base is complete if the type is. -/
structure Founded (image : Image) (handle : TypeHandle) (info : TypeInfo) : Prop where
  earlier : ∀ base ∈ info.base, base.index < handle.index
  interfaces : ∀ interface ∈ info.interfaces, interface.index < handle.index
  found : ∀ base ∈ info.base, ∃ above, image.type? base = some above ∧
    (info.isComplete = true → above.isComplete = true)

instance (image : Image) (handle : TypeHandle) (info : TypeInfo) :
    Decidable (image.Founded handle info) :=
  decidable_of_iff
    ((∀ base ∈ info.base, base.index < handle.index) ∧
      (∀ interface ∈ info.interfaces, interface.index < handle.index) ∧
      ∀ base ∈ info.base, ∃ above ∈ image.type? base,
        info.isComplete = true → above.isComplete = true)
    ⟨fun ⟨earlier, interfaces, found⟩ => ⟨earlier, interfaces, found⟩,
      fun founded => ⟨founded.earlier, founded.interfaces, founded.found⟩⟩

/-- Every type stands on its base. -/
def Rooted (image : Image) : Prop :=
  ∀ handle info, image.type? handle = some info → image.Founded handle info

/-- An image in which no type is new or has just been completed. -/
theorem Rooted.mono (rooted : image.Rooted) (growth : image.Extends extended)
    (entries : ∀ handle after, extended.type? handle = some after →
      ∃ info, image.type? handle = some info ∧ after.base = info.base ∧
        after.interfaces = info.interfaces ∧
        (after.isComplete = true → info.isComplete = true)) : extended.Rooted := by
  intro handle after isAfter
  obtain ⟨info, isInfo, sameBase, sameInterfaces, complete⟩ := entries handle after isAfter
  have founded := rooted handle info isInfo
  refine ⟨fun base isBase => founded.earlier base (sameBase ▸ isBase),
    fun interface listed => founded.interfaces interface (sameInterfaces ▸ listed),
    fun base isBase => ?_⟩
  obtain ⟨above, isAbove, passes⟩ := founded.found base (sameBase ▸ isBase)
  obtain ⟨later, isLater, grows⟩ := growth.types _ above isAbove
  exact ⟨later, isLater, fun isComplete => grows.isComplete (passes (complete isComplete))⟩

theorem exists_of_modifyType {owner : TypeHandle} {after : TypeInfo}
    (found : (image.modifyType owner change).type? handle = some after) :
    ∃ info, image.type? handle = some info ∧
      (after = info ∨ handle = owner ∧ after = change info) := by
  rw [type?, modifyType, Array.getElem?_modify] at found
  split at found
  · rename_i same
    obtain ⟨info, isInfo, rfl⟩ := Option.map_eq_some_iff.mp found
    exact ⟨info, isInfo, .inr ⟨by cases handle; cases owner; simp_all, rfl⟩⟩
  · exact ⟨after, found, .inl rfl⟩

/-- A type that gets members keeps its base and does not become complete. -/
theorem Rooted.of_modifyType {owner : TypeHandle}
    {fields : Array FieldInfo} {methods : Array MethodInfo} {ctors : Array CtorInfo}
    {properties : Array PropertyInfo} {count : Nat}
    (rooted : image.Rooted) (growth : image.Extends extended)
    (isExtended : extended = { image.modifyType owner change with
      fields, methods, ctors, properties, staticCount := count })
    (base : ∀ info, (change info).base = info.base)
    (interfaces : ∀ info, (change info).interfaces = info.interfaces)
    (complete : ∀ info, (change info).isComplete = info.isComplete) : extended.Rooted := by
  refine rooted.mono growth fun handle after isAfter => ?_
  rw [isExtended] at isAfter
  obtain ⟨info, isInfo, rfl | ⟨-, rfl⟩⟩ := exists_of_modifyType isAfter
  · exact ⟨after, isInfo, rfl, rfl, id⟩
  · exact ⟨info, isInfo, base info, interfaces info,
      fun isComplete => complete info ▸ isComplete⟩

theorem type?_of_handleOf {type : RunTy} (found : image.handleOf type = .ok handle) :
    ∃ info, image.type? handle = some info := by
  have ofTest : ∀ test, image.findType? test = some handle →
      ∃ info, image.type? handle = some info := by
    intro test isFound
    obtain ⟨index, isIndex, rfl⟩ := Option.map_eq_some_iff.mp isFound
    obtain ⟨inBounds, -⟩ := Array.findIdx?_eq_some_iff_findIdx_eq.mp isIndex
    exact ⟨_, Array.getElem?_eq_getElem inBounds⟩
  have isFound := handleOf_eq_ok.mp found
  cases type with
  | builtin builtin => exact ofTest _ isFound
  | generic definition args => exact ofTest _ isFound
  | array element => cases isFound
  | declared other =>
      obtain ⟨info, isInfo, rfl⟩ := Option.map_eq_some_iff.mp isFound
      exact ⟨info, isInfo⟩

theorem type?_of_resolveBase {attrs : TypeAttrs}
    (resolved : image.resolveBase attrs base = .ok (some handle)) :
    ∃ info, image.type? handle = some info := by
  cases base with
  | none =>
      have isRoot := resolveBase_of_none resolved
      split at isRoot
      · cases isRoot
      · obtain ⟨_, ⟨⟩, isFound⟩ := isRoot
        exact type?_of_handleOf isFound
  | some type =>
      obtain ⟨_, info, ⟨⟩, -, isInfo, -⟩ := resolveBase_of_some resolved
      exact ⟨info, isInfo⟩

theorem declareType_rooted {attrs : TypeAttrs} {interfaces : List RunTy} (rooted : image.Rooted)
    (done : image.declareType name attrs base interfaces = .ok (handle, extended)) :
    extended.Rooted := by
  have growth := declareType_extends done
  obtain ⟨root, above, -, isRoot, areAbove, -, rfl⟩ := declareType_shape done
  intro other info isInfo
  have found : (image.types.push _)[other.index]? = some info := isInfo
  rw [Array.getElem?_push] at found
  split at found
  · rename_i isNew
    cases found
    have known : ∀ base ∈ root, ∃ entry, image.types[base.index]? = some entry :=
      fun base isBase => type?_of_resolveBase (isBase ▸ isRoot)
    refine ⟨fun base isBase => ?_, fun interface listed => ?_, fun base isBase => ?_⟩
    · obtain ⟨entry, isEntry⟩ := known base isBase
      exact isNew ▸ (Array.getElem?_eq_some_iff.mp isEntry).1
    · obtain ⟨type, -, resolved⟩ := exists_related_left (mapM_eq_ok.mp areAbove) listed
      obtain ⟨entry, isEntry⟩ := type?_of_handleOf resolved
      exact isNew ▸ (Array.getElem?_eq_some_iff.mp isEntry).1
    · obtain ⟨entry, isEntry⟩ := known base isBase
      exact ⟨entry, getElem?_push_of_eq_some isEntry, fun isComplete => by cases isComplete⟩
  · have founded := rooted other info found
    refine ⟨founded.earlier, founded.interfaces, fun base isBase => ?_⟩
    obtain ⟨entry, isEntry, passes⟩ := founded.found base isBase
    exact ⟨entry, getElem?_push_of_eq_some isEntry, passes⟩

theorem sealType_rooted (rooted : image.Rooted)
    (done : image.sealType handle = .ok (realized, extended)) : extended.Rooted := by
  have growth := sealType_extends done
  obtain ⟨info, inherited, slots, isOpen, above, -, -, -, -, rfl⟩ := sealType_shape done
  obtain ⟨isInfo, -⟩ := openType_eq_ok.mp isOpen
  intro other after isAfter
  obtain ⟨before, isBefore, changed⟩ := exists_of_modifyType isAfter
  have founded := rooted other before isBefore
  have sameBase : after.base = before.base := by
    rcases changed with rfl | ⟨-, rfl⟩ <;> rfl
  have sameInterfaces : after.interfaces = before.interfaces := by
    rcases changed with rfl | ⟨-, rfl⟩ <;> rfl
  refine ⟨fun base isBase => founded.earlier base (sameBase ▸ isBase),
    fun interface listed => founded.interfaces interface (sameInterfaces ▸ listed),
    fun base isBase => ?_⟩
  rw [sameBase] at isBase
  obtain ⟨entry, isEntry, passes⟩ := founded.found base isBase
  obtain ⟨later, isLater, grows⟩ := growth.types _ entry isEntry
  refine ⟨later, isLater, fun isComplete => grows.isComplete ?_⟩
  rcases changed with rfl | ⟨rfl, rfl⟩
  · exact passes isComplete
  · -- The type has just been completed, which was allowed because its base is complete.
    obtain rfl := Option.some.inj (isBefore.symm.trans isInfo)
    unfold inheritedSlots at above
    rw [show before.base = some base from isBase] at above
    obtain ⟨baseInfo, isBaseInfo, accepted⟩ := bind_eq_ok.mp above
    cases (type_eq_ok.mp isBaseInfo).symm.trans isEntry
    split at accepted
    · assumption
    · cases accepted

/-- Every type stands on its base in every image. -/
theorem Built.rooted (built : image.Built) : image.Rooted := by
  induction built with
  | library =>
      have platform : ∀ index : Fin Image.library.types.size,
          Image.library.Founded ⟨index⟩ Image.library.types[index] := by
        decide +kernel
      intro handle info isInfo
      obtain ⟨inBounds, rfl⟩ := Array.getElem?_eq_some_iff.mp isInfo
      exact platform ⟨handle.index, inBounds⟩
  | declareType _ done rooted => exact declareType_rooted rooted done
  | declareField _ done rooted =>
      obtain ⟨info, -, -, -, -, isExtended⟩ := declareField_shape done
      exact rooted.of_modifyType (declareField_extends done) isExtended (fun _ => rfl) (fun _ => rfl)
        fun _ => rfl
  | declareMethod _ done rooted =>
      obtain ⟨info, -, -, -, -, isExtended⟩ := declareMethod_shape done
      exact rooted.of_modifyType (declareMethod_extends done) isExtended (fun _ => rfl) (fun _ => rfl)
        fun _ => rfl
  | declareCtor _ done rooted =>
      obtain ⟨info, -, -, -, -, isExtended⟩ := declareCtor_shape done
      exact rooted.of_modifyType (declareCtor_extends done) isExtended (fun _ => rfl) (fun _ => rfl)
        fun _ => rfl
  | declareProperty _ done rooted =>
      obtain ⟨info, -, -, -, -, isExtended⟩ := declareProperty_shape done
      exact rooted.of_modifyType (declareProperty_extends done) isExtended (fun _ => rfl)
        (fun _ => rfl) fun _ => rfl
  | defineMethod _ done rooted =>
      have growth := defineMethod_extends done
      obtain ⟨_, _, -, -, -, rfl⟩ := defineMethod_shape done
      exact rooted.mono growth fun _ after isAfter => ⟨after, isAfter, rfl, rfl, id⟩
  | defineCtor _ done rooted =>
      have growth := defineCtor_extends done
      obtain ⟨_, _, -, -, -, rfl⟩ := defineCtor_shape done
      exact rooted.mono growth fun _ after isAfter => ⟨after, isAfter, rfl, rfl, id⟩
  | sealType _ done rooted => exact sealType_rooted rooted done

/-! ## Lineages -/

/-- Along the lineage of a completed type all types are completed. -/
theorem Rooted.complete_of_mem_lineageUpTo (rooted : image.Rooted) {bound : Nat}
    (isInfo : image.type? handle = some info) (complete : info.isComplete = true) :
    ∀ above ∈ image.lineageUpTo bound handle,
      above ∈ image.types ∧ above.isComplete = true := by
  induction bound generalizing handle info with
  | zero => simp [lineageUpTo]
  | succ bound ih =>
      intro above member
      simp only [lineageUpTo, isInfo, List.mem_cons] at member
      rcases member with rfl | member
      · exact ⟨Array.mem_of_getElem? isInfo, complete⟩
      · cases isBase : info.base with
        | none => simp [isBase] at member
        | some base =>
            rw [isBase] at member
            obtain ⟨parent, isParent, passes⟩ := (rooted handle info isInfo).found base isBase
            exact ih isParent (passes complete) above member

/-- What is on the lineage of a type stays there, whatever it gets. -/
theorem exists_mem_lineageUpTo (growth : image.Extends extended) {bound : Nat} {above : TypeInfo}
    (member : above ∈ image.lineageUpTo bound handle) :
    ∃ after ∈ extended.lineageUpTo bound handle, above.Grows after := by
  induction bound generalizing handle with
  | zero => simp [lineageUpTo] at member
  | succ bound ih =>
      cases isInfo : image.type? handle with
      | none => simp [lineageUpTo, isInfo] at member
      | some info =>
          obtain ⟨after, isAfter, grows⟩ := growth.types _ info isInfo
          have isAfter : extended.type? handle = some after := isAfter
          simp only [lineageUpTo, isInfo, List.mem_cons] at member
          simp only [lineageUpTo, isAfter, List.mem_cons, grows.base]
          rcases member with rfl | member
          · exact ⟨after, .inl rfl, grows⟩
          · cases isBase : info.base with
            | none => simp [isBase] at member
            | some base =>
                rw [isBase] at member
                obtain ⟨other, isOther, grows⟩ := ih member
                exact ⟨other, .inr isOther, grows⟩

/-- A type has or inherits a method of a name and parameters that runs on instances. -/
def Provides (image : Image) (handle : TypeHandle) (name : Name) (params : List RunTy) : Prop :=
  ∃ above ∈ image.lineage handle, ∃ entry ∈ image.methodsOf above,
    entry.2.name = name ∧ entry.2.params = params ∧ entry.2.attrs.isStatic = false ∧
      entry.2.attrs.isAbstract = false

/-- A type has or inherits a static method of a name and parameters. -/
def HasStatic (image : Image) (handle : TypeHandle) (name : Name) (params : List RunTy) : Prop :=
  ∃ above ∈ image.lineage handle, ∃ entry ∈ image.methodsOf above,
    entry.2.name = name ∧ entry.2.params = params ∧ entry.2.attrs.isStatic = true

/-- What a type provides is inherited. -/
theorem Provides.inherit {derived : TypeHandle} (provides : image.Provides handle name params)
    (below : image.lineage handle <:+ image.lineage derived) :
    image.Provides derived name params := by
  obtain ⟨above, isAbove, entry⟩ := provides
  exact ⟨above, below.subset isAbove, entry⟩

/-- The check of a type with an interface accepts any method of the right name and
parameters that is not abstract. -/
theorem implements_iff :
    image.implements handle name params = true ↔
      ∃ above ∈ image.lineage handle, ∃ entry ∈ image.methodsOf above,
        entry.2.name = name ∧ entry.2.params = params ∧ entry.2.attrs.isAbstract = false := by
  simp [implements, List.any_eq_true, and_assoc]

theorem mem_methodsOf_of_grows (growth : image.Extends extended) {after : TypeInfo}
    (grows : info.Grows after) {handle : MethodHandle}
    (member : (handle, entry) ∈ image.methodsOf info) :
    ∃ later, (handle, later) ∈ extended.methodsOf after ∧ entry.Grows later := by
  obtain ⟨listed, isEntry⟩ := mem_methodsOf.mp member
  obtain ⟨later, isLater, entryGrows⟩ := growth.methods _ entry isEntry
  exact ⟨later, mem_methodsOf.mpr ⟨grows.methods listed, isLater⟩, entryGrows⟩

/-- A method that was accepted for an interface runs on instances in every later image,
unless it is static. -/
theorem provides_of_implements (growth : image.Extends extended)
    (accepted : image.implements handle name params = true)
    (noStatic : ¬ extended.HasStatic handle name params) :
    extended.Provides handle name params := by
  obtain ⟨above, isAbove, ⟨method, entry⟩, isEntry, isName, areParams, concrete⟩ :=
    implements_iff.mp accepted
  obtain ⟨after, isAfter, grows⟩ := exists_mem_lineageUpTo growth isAbove
  obtain ⟨later, isLater, entryGrows⟩ := mem_methodsOf_of_grows growth grows isEntry
  have isName : later.name = name := entryGrows.name.trans isName
  have areParams : later.params = params := entryGrows.params.trans areParams
  refine ⟨after, isAfter, (method, later), isLater, isName, areParams, ?_, ?_⟩
  · by_contra isStatic
    exact noStatic
      ⟨after, isAfter, (method, later), isLater, isName, areParams, by simpa using isStatic⟩
  · exact entryGrows.attrs ▸ concrete

/-! ## Code of completed types -/

/-- Every concrete method of a completed type has code. -/
theorem Built.hasCode (built : image.Built) (member : info ∈ image.types)
    (complete : info.isComplete = true) {handle : MethodHandle}
    (listed : (handle, entry) ∈ image.methodsOf info) (concrete : entry.attrs.isAbstract = false) :
    entry.implementation.isMissing = false := by
  obtain ⟨isListed, isEntry⟩ := mem_methodsOf.mp listed
  by_cases declared : info.origin = .declared
  · obtain ⟨index, isInfo⟩ := Array.mem_iff_getElem?.mp member
    exact (built.orderly ⟨index⟩ info isInfo declared).methodBodies complete handle isListed entry
      isEntry concrete
  · have platform : ∀ info ∈ Image.library.types, ∀ handle ∈ info.methods,
        ∃ method ∈ Image.library.method? handle, method.implementation.isMissing = false := by
      decide +kernel
    obtain ⟨method, isMethod, present⟩ :=
      platform info (built.platform info member declared) handle isListed
    obtain ⟨after, isAfter, grows⟩ := built.extends_library.methods _ method isMethod
    cases isAfter.symm.trans isEntry
    exact grows.implementation.isMissing present

/-! ## Interfaces -/

/-- Every method of an interface that a class lists is implemented when the class has passed the
check of its interfaces. -/
theorem checkInterfaces_eq_ok (checked : image.checkInterfaces handle info = .ok ())
    (isClass : info.attrs.isInterface = false) (concrete : info.attrs.isAbstract = false) :
    ∀ interface ∈ info.interfaces, ∀ above ∈ image.type? interface, ∀ method ∈ above.methods,
      ∃ required, image.method? method = some required ∧
        image.implements handle required.name required.params = true := by
  intro interface listed above isAbove method isListed
  simp only [checkInterfaces, isClass, concrete, Bool.not_false, Bool.and_true, if_true,
    forM_eq_ok, bind_eq_ok] at checked
  obtain ⟨_, sameAbove, methods⟩ := checked interface listed
  cases (type_eq_ok.mp sameAbove).symm.trans isAbove
  obtain ⟨required, isRequired, accepted⟩ := methods method isListed
  refine ⟨required, method_eq_ok.mp isRequired, ?_⟩
  by_contra refused
  rw [if_pos (by simpa using refused)] at accepted
  cases accepted

end Image

namespace Machine

open Image

variable {image : Image}
variable {method : MethodHandle}

/-- The method that instances of a type run for a virtual one, when there is one. -/
def overriding? (image : Image) (handle : TypeHandle) (info : MethodInfo) :
    Option (MethodHandle × MethodInfo) :=
  ((image.lineage handle).flatMap image.methodsOf).find? fun candidate =>
    candidate.2.name == info.name && candidate.2.params == info.params &&
      !candidate.2.attrs.isStatic && !candidate.2.attrs.isAbstract

/-- What a virtual call does on an object. -/
theorem run_dispatch {info : MethodInfo} (isMethod : image.method? method = some info)
    (isInstance : info.attrs.isStatic = false) (isVirtual : info.attrs.isVirtual = true)
    {receiver : Value} {args : List Value} {store : Store}
    (ofType : Store.typeOf? image store.heap receiver = some handle) :
    (dispatch image method (receiver :: args)).run store =
      match overriding? image handle info with
      | some (selected, _) => .ok selected store
      | none =>
          if info.attrs.isAbstract then
            .error (.fatal (.noBody (image.methodLabel info))) store
          else .ok method store := by
  have notNull : receiver.isNull = false := by
    cases receiver <;> first | rfl | cases ofType
  simp only [dispatch, Exec.ofImage, method_eq_ok.mpr isMethod, isInstance, Exec.require, notNull,
    isVirtual, List.head?_cons, pure_bind, Bool.not_true, Bool.false_eq_true, if_false]
  rw [EStateM.run_bind, show Exec.heap.run store = .ok store.heap store from rfl]
  simp only [ofType]
  rw [← overriding?]
  cases overriding? image handle info with
  | some found => rfl
  | none =>
      dsimp only
      split <;> rfl

theorem overriding?_eq_some {info : MethodInfo} {selected : MethodHandle}
    (found : overriding? image handle info = some (selected, entry)) :
    (∃ above ∈ image.lineage handle, (selected, entry) ∈ image.methodsOf above) ∧
      entry.name = info.name ∧ entry.params = info.params ∧ entry.attrs.isStatic = false ∧
      entry.attrs.isAbstract = false := by
  have fits := List.find?_some found
  have member := List.mem_of_find?_eq_some found
  simp only [Bool.and_eq_true, beq_iff_eq, Bool.not_eq_true'] at fits
  exact ⟨List.mem_flatMap.mp member, fits.1.1.1, fits.1.1.2, fits.1.2, fits.2⟩

theorem exists_overriding? {info : MethodInfo}
    (provides : image.Provides handle info.name info.params) :
    ∃ selected entry, overriding? image handle info = some (selected, entry) := by
  obtain ⟨above, isAbove, entry, isEntry, isName, areParams, isInstance, concrete⟩ := provides
  have found : (overriding? image handle info).isSome = true := by
    rw [overriding?, List.find?_isSome]
    exact ⟨entry, List.mem_flatMap.mpr ⟨above, isAbove, isEntry⟩, by
      simp [isName, areParams, isInstance, concrete]⟩
  obtain ⟨⟨selected, entry⟩, isSome⟩ := Option.isSome_iff_exists.mp found
  exact ⟨selected, entry, isSome⟩

/-- A virtual call of an abstract method finds a method with code on a completed type that
provides one. -/
theorem dispatch_of_provides (built : image.Built) (isInfo : image.type? handle = some info)
    (complete : info.isComplete = true) {required : MethodInfo}
    (isRequired : image.method? method = some required)
    (isInstance : required.attrs.isStatic = false) (isAbstract : required.attrs.isAbstract = true)
    (provides : image.Provides handle required.name required.params) {receiver : Value}
    {args : List Value} {store : Store}
    (ofType : Store.typeOf? image store.heap receiver = some handle) :
    ∃ selected entry,
      (dispatch image method (receiver :: args)).run store = .ok selected store ∧
      image.method? selected = some entry ∧ entry.name = required.name ∧
      entry.params = required.params ∧ entry.implementation.isMissing = false := by
  have isVirtual : required.attrs.isVirtual = true := by simp [MethodAttrs.isVirtual, isAbstract]
  obtain ⟨selected, entry, found⟩ := exists_overriding? provides
  obtain ⟨⟨above, isAbove, isEntry⟩, isName, areParams, -, concrete⟩ := overriding?_eq_some found
  obtain ⟨member, isComplete⟩ :=
    built.rooted.complete_of_mem_lineageUpTo isInfo complete above isAbove
  refine ⟨selected, entry, ?_, (mem_methodsOf.mp isEntry).2, isName, areParams,
    built.hasCode member isComplete isEntry concrete⟩
  rw [run_dispatch isRequired isInstance isVirtual ofType, found]

/-- Once a class has been completed, a virtual call of an abstract method of an interface that
it lists finds a method with code on instances of the class and of completed classes below it,
in every later image, unless the class has or inherits a static method of that name and
parameters.  The check of a class with an interface counts such a method, while the call passes
over it. -/
theorem dispatch_of_sealed {image sealed later : Image} {handle interface derived : TypeHandle}
    {realized : RealizedType} {info above below : TypeInfo} {method : MethodHandle}
    {required : MethodInfo} (built : image.Built) (isInfo : image.type? handle = some info)
    (isClass : info.attrs.isInterface = false) (concrete : info.attrs.isAbstract = false)
    (listed : interface ∈ info.interfaces)
    (isAbove : image.type? interface = some above) (declares : method ∈ above.methods)
    (done : image.sealType handle = .ok (realized, sealed)) (requested : Requests sealed later)
    (isBelow : later.type? derived = some below) (complete : below.isComplete = true)
    (derives : later.lineage handle <:+ later.lineage derived)
    (isRequired : later.method? method = some required)
    (isInstance : required.attrs.isStatic = false) (isAbstract : required.attrs.isAbstract = true)
    (noStatic : ¬ later.HasStatic handle required.name required.params)
    {receiver : Value} {args : List Value} {store : Store}
    (ofType : Store.typeOf? later store.heap receiver = some derived) :
    ∃ selected entry,
      (dispatch later method (receiver :: args)).run store = .ok selected store ∧
      later.method? selected = some entry ∧ entry.name = required.name ∧
      entry.params = required.params ∧ entry.implementation.isMissing = false := by
  obtain ⟨before, isBefore, implemented⟩ :
      ∃ before, image.method? method = some before ∧
        image.implements handle before.name before.params = true := by
    obtain ⟨_, _, _, isOpen, -, -, checked, -, -, -⟩ := sealType_shape done
    obtain rfl := Option.some.inj ((openType_eq_ok.mp isOpen).1.symm.trans isInfo)
    exact checkInterfaces_eq_ok checked isClass concrete interface listed above isAbove method
      declares
  have requests : Requests image later := .head (.sealType done) requested
  have growth := requests.extends'
  obtain ⟨_, sameRequired, grows⟩ := growth.methods _ before isBefore
  obtain rfl := Option.some.inj (sameRequired.symm.trans isRequired)
  refine dispatch_of_provides (requests.built built) isBelow complete isRequired isInstance
    isAbstract (Provides.inherit ?_ derives) ofType
  refine provides_of_implements growth ?_ noStatic
  rw [grows.name, grows.params]
  exact implemented

/-- An interface with one method, and a class that lists it and has a method of the same name
and parameters: the image before the class is completed, and what completing it gives. -/
def completedJob (isStatic : Bool) : Except ImageError (Image × RealizedType × Image) := do
  let (interface, image) ← Image.library.declareType "Runnable" .publicInterface none []
  let (_, image) ←
    image.declareMethod interface "run" { isPublic := true, isAbstract := true } [] .void
  let (_, image) ← image.sealType interface
  let (job, image) ← image.declareType "Job" .publicClass none [.declared interface]
  let (method, image) ←
    image.declareMethod job "run" { isPublic := true, isStatic } [] .void
  let image ←
    image.defineMethod method { instrs := #[.ret], labels := #[], locals := #[], regions := [] }
  let (realized, sealed) ← image.sealType job
  return (image, realized, sealed)

theorem completedJob_eq_ok {isStatic : Bool} {sealed : Image}
    (made : completedJob isStatic = .ok (image, realized, sealed)) :
    image.Built ∧ image.sealType realized.handle = .ok (realized, sealed) := by
  simp only [completedJob, bind_eq_ok, Prod.exists] at made
  obtain ⟨interface, first, isFirst, _, second, isSecond, _, third, isThird, job, fourth, isFourth,
    method, fifth, isFifth, sixth, isSixth, _, _, isSealed, same⟩ := made
  cases same
  obtain ⟨info, _, _, -, -, -, -, rfl, -, -⟩ := sealType_shape isSealed
  exact ⟨.defineMethod (.declareMethod (.declareType (.sealType (.declareMethod
    (.declareType .library isFirst) isSecond) isThird) isFourth) isFifth) isSixth, isSealed⟩

/-- A store with one object, an instance of the completed class. -/
def jobStore : Store where
  heap := ⟨#[.instance ⟨46⟩ #[]]⟩
  statics := #[]
  output := ""

theorem completedJob_dispatch :
    ∃ image realized sealed, completedJob false = .ok (image, realized, sealed) ∧
      image.Built ∧ image.sealType realized.handle = .ok (realized, sealed) ∧
      ∃ selected entry,
        (dispatch sealed ⟨56⟩ [.ref ⟨0⟩]).run jobStore = .ok selected jobStore ∧
        sealed.method? selected = some entry ∧ entry.name = "run" ∧ entry.params = [] ∧
        entry.implementation.isMissing = false := by
  obtain ⟨⟨image, realized, sealed⟩, made⟩ :=
    exists_ok_of_isOk (show (completedJob false).isOk = true by decide +kernel)
  have evaluates : (completedJob false).toOption.all (fun (image, realized, sealed) =>
      decide ((∃ info ∈ image.type? realized.handle, info.attrs.isInterface = false ∧
          info.attrs.isAbstract = false ∧ ⟨45⟩ ∈ info.interfaces) ∧
        (∃ above ∈ image.type? ⟨45⟩, ⟨56⟩ ∈ above.methods) ∧
        (∃ required ∈ sealed.method? ⟨56⟩, required.name = "run" ∧ required.params = [] ∧
          required.attrs.isStatic = false ∧ required.attrs.isAbstract = true) ∧
        (∀ above ∈ sealed.lineage realized.handle, ∀ entry ∈ sealed.methodsOf above,
          entry.2.name = "run" → entry.2.params = [] → entry.2.attrs.isStatic = false) ∧
        (∃ info ∈ sealed.type? realized.handle, info.isComplete = true) ∧
        Store.typeOf? sealed jobStore.heap (.ref ⟨0⟩) = some realized.handle)) = true := by
    decide +kernel
  rw [made] at evaluates
  obtain ⟨⟨info, isInfo, isClass, concrete, listed⟩, ⟨above, isAbove, declares⟩,
    ⟨required, isRequired, isName, areParams, isInstance, isAbstract⟩, noStatic,
    ⟨after, isAfter, complete⟩, ofType⟩ :=
    of_decide_eq_true evaluates
  obtain ⟨built, isSealed⟩ := completedJob_eq_ok made
  refine ⟨image, realized, sealed, made, built, isSealed, ?_⟩
  rw [← isName, ← areParams]
  refine dispatch_of_sealed built isInfo isClass concrete listed isAbove declares isSealed .refl
    isAfter complete (List.suffix_refl _) isRequired isInstance isAbstract ?_ ofType
  rintro ⟨above, isAbove, entry, isEntry, sameName, sameParams, isStatic⟩
  have isInstance := noStatic above isAbove entry isEntry (sameName.trans isName)
    (sameParams.trans areParams)
  exact Bool.false_ne_true (isInstance.symm.trans isStatic)

/-- A static method makes up for a missing one when the class is completed, and not when the
method of the interface is called on an instance. -/
theorem static_method_unfit :
    ∃ image realized sealed, completedJob true = .ok (image, realized, sealed) ∧ image.Built ∧
      image.sealType realized.handle = .ok (realized, sealed) ∧
      Store.typeOf? sealed jobStore.heap (.ref ⟨0⟩) = some realized.handle ∧
      (dispatch sealed ⟨56⟩ [.ref ⟨0⟩]).run jobStore =
        .error (.fatal (.noBody "Runnable.run")) jobStore := by
  obtain ⟨⟨image, realized, sealed⟩, made⟩ :=
    exists_ok_of_isOk (show (completedJob true).isOk = true by decide +kernel)
  have evaluates : (completedJob true).toOption.all (fun (_, realized, sealed) =>
      decide (Store.typeOf? sealed jobStore.heap (.ref ⟨0⟩) = some realized.handle) &&
        match (dispatch sealed ⟨56⟩ [.ref ⟨0⟩]).run jobStore with
        | .ok _ _ => false
        | .error trap store =>
            trap == .fatal (.noBody "Runnable.run") && decide (store = jobStore)) = true := by
    decide +kernel
  rw [made] at evaluates
  obtain ⟨built, isSealed⟩ := completedJob_eq_ok made
  obtain ⟨ofType, ends⟩ := Bool.and_eq_true_iff.mp evaluates
  refine ⟨image, realized, sealed, made, built, isSealed, of_decide_eq_true ofType, ?_⟩
  revert ends
  cases (dispatch sealed ⟨56⟩ [.ref ⟨0⟩]).run jobStore with
  | ok => simp
  | error trap store => simp

end Machine

end ClassForge
