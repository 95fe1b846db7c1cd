import ClassForge.Proofs.Image.Integrity

/-!
# Requests carried out in place

A target module is a store that requests change in place: each looks at the tables, may refuse,
and then writes to one table after the other.  Carried out that way, a request does what the
function of its name says, and one that is refused has written nothing.  So whatever is asked of
a store, and whatever it refuses, it stays well-formed.
-/

namespace ClassForge

namespace Image

variable {decided : Except ImageError Image}

/-- A request that changes an image in place and may fail at any point. -/
abbrev Update (α : Type) := EStateM ImageError Image α

/-- How a request ends that was decided beforehand: a refusal leaves the image as it was. -/
def settle {α : Type} (image : Image) : Except ImageError (α × Image) →
    EStateM.Result ImageError Image α
  | .ok (answer, later) => .ok answer later
  | .error failure => .error failure image

namespace Update

/-- A check of the image as it is. -/
def check {α : Type} (test : Image → Except ImageError α) : Update α :=
  fun image => settle image ((test image).map fun value => (value, image))

/-- Change the entry of a type, which has to be there. -/
def changeType (handle : TypeHandle) (change : TypeInfo → TypeInfo) : Update Unit := do
  check fun image => discard <| image.type handle
  modify fun image => image.modifyType handle change

/-- Store a new type at the end of its table. -/
def declareType (name : Name) (attrs : TypeAttrs) (base : Option RunTy)
    (interfaces : List RunTy) : Update TypeHandle := do
  let image ← get
  if (image.typeNamed? name).isSome then
    throw (.duplicateMember "module" name)
  let base ← check fun image => image.resolveBase attrs base
  let interfaces ← check fun image => interfaces.mapM image.handleOf
  let handle : TypeHandle := ⟨image.types.size⟩
  modify fun image => { image with
    types := image.types.push
      { name, attrs, origin := .declared, base, interfaces, fields := [], methods := [],
        ctors := [], properties := [], isComplete := false, instanceSlots := 0 } }
  return handle

/-- Store a new field and then list it on its owner. -/
def declareField (owner : TypeHandle) (name : Name) (type : RunTy) (attrs : FieldAttrs) :
    Update FieldHandle := do
  let image ← get
  check fun image => image.checkTy type
  let info ← check fun image => image.openType owner
  if (image.fieldsOf info).any fun (_, field) => field.name == name then
    throw (image.duplicate owner name)
  let handle : FieldHandle := ⟨image.fields.size⟩
  modify fun image => { image with
    fields := image.fields.push { owner, name, type, attrs, slot := 0 } }
  changeType owner fun info => { info with fields := info.fields ++ [handle] }
  return handle

/-- Store a new method and then list it on its owner. -/
def declareMethod (owner : TypeHandle) (name : Name) (attrs : MethodAttrs) (params : List RunTy)
    (ret : RunTy) : Update MethodHandle := do
  let image ← get
  check fun image => image.checkTys (params ++ [ret])
  let info ← check fun image => image.openType owner
  let clashes := (image.methodsOf info).any fun (_, method) =>
    method.name == name && method.params == params &&
      method.attrs.isStatic == attrs.isStatic
  if clashes then
    throw (image.duplicate owner name)
  let handle : MethodHandle := ⟨image.methods.size⟩
  modify fun image => { image with
    methods := image.methods.push
      { owner, name, attrs, params, ret, implementation := .missing } }
  changeType owner fun info => { info with methods := info.methods ++ [handle] }
  return handle

/-- Store a new constructor and then list it on its owner. -/
def declareCtor (owner : TypeHandle) (params : List RunTy) : Update CtorHandle := do
  let image ← get
  check fun image => image.checkTys params
  let info ← check fun image => image.openType owner
  if (image.ctorsOf info).any fun (_, ctor) => ctor.params == params then
    throw (image.duplicate owner ctorName)
  let handle : CtorHandle := ⟨image.ctors.size⟩
  modify fun image => { image with
    ctors := image.ctors.push { owner, params, implementation := .missing } }
  changeType owner fun info => { info with ctors := info.ctors ++ [handle] }
  return handle

/-- Store a new property and then list it on its owner. -/
def declareProperty (owner : TypeHandle) (name : Name) (type : RunTy)
    (getter setter : Option MethodHandle) : Update PropertyHandle := do
  let image ← get
  let info ← check fun image => image.openType owner
  if (image.propertiesOf info).any fun (_, property) => property.name == name then
    throw (image.duplicate owner name)
  check fun image => (getter.toList ++ setter.toList).forM (image.checkAccessor owner)
  let handle : PropertyHandle := ⟨image.properties.size⟩
  modify fun image => { image with
    properties := image.properties.push { name, type, getter, setter } }
  changeType owner fun info => { info with properties := info.properties ++ [handle] }
  return handle

/-- Store the code of a method. -/
def defineMethod (handle : MethodHandle) (body : Body) : Update Unit := do
  let image ← get
  let info ← check fun image => image.method handle
  check fun image => discard <| image.openType info.owner
  if info.attrs.isAbstract then
    throw (.abstractBody (image.methodLabel info))
  if !info.implementation.isMissing then
    throw (.bodyAlreadyDefined (image.methodLabel info))
  modify fun image => { image with
    methods := image.methods.modify handle.index fun info =>
      { info with implementation := .code body } }

/-- Store the code of a constructor. -/
def defineCtor (handle : CtorHandle) (body : Body) : Update Unit := do
  let image ← get
  let info ← check fun image => image.ctor handle
  check fun image => discard <| image.openType info.owner
  if !info.implementation.isMissing then
    throw (.bodyAlreadyDefined (image.ctorLabel info))
  modify fun image => { image with
    ctors := image.ctors.modify handle.index fun info =>
      { info with implementation := .code body } }

/-- Store the slots of the fields of a type, then the number of static slots, and then that the
type is complete. -/
def sealType (handle : TypeHandle) : Update RealizedType := do
  let info ← check fun image => image.openType handle
  let inherited ← check fun image => image.inheritedSlots info
  check fun image => image.checkBodies info
  check fun image => image.checkInterfaces handle info
  let image ← get
  let (fields, instanceSlots, staticCount) :=
    assignSlots info.fields image.fields inherited image.staticCount
  modify fun image => { image with fields }
  modify fun image => { image with staticCount }
  changeType handle fun info => { info with instanceSlots, isComplete := true }
  return ⟨handle, info.name⟩

end Update

variable {image : Image}

variable {α β : Type} {failure : ImageError}

/-- A check that comes first decides alike in both forms of a request. -/
theorem run_check_bind {test : Image → Except ImageError α} {next : α → Update β}
    {decided : α → Except ImageError (β × Image)}
    (agree : ∀ value, test image = .ok value →
      (next value).run image = settle image (decided value)) :
    (Update.check test >>= next).run image = settle image (test image >>= decided) := by
  simp only [EStateM.run, bind, EStateM.bind, Update.check]
  cases outcome : test image with
  | error failure => rfl
  | ok value => exact agree value outcome

/-- So does a refusal. -/
theorem run_refuse {condition : Prop} [Decidable condition] {next : Update β}
    {decided : Except ImageError (β × Image)}
    (agree : ¬ condition → next.run image = settle image decided) :
    (do
      if condition then
        throw failure
      next : Update β).run image =
    settle image (do
      if condition then
        throw failure
      decided) := by
  split
  · rfl
  · rename_i accepted
    exact agree accepted

theorem map_bind {first : Except ImageError α} {next : α → Except ImageError Image}
    {finish : Image → β × Image} :
    (first >>= next).map finish = first >>= fun value => (next value).map finish := by
  cases first <;> rfl

theorem map_refuse {condition : Prop} [Decidable condition] {finish : Image → β × Image} :
    (do
      if condition then
        throw failure
      decided : Except ImageError Image).map finish =
    (do
      if condition then
        throw failure
      decided.map finish : Except ImageError (β × Image)) := by
  split <;> rfl

/-- The entry of an open type is there when it gets changed, whatever has been stored before. -/
theorem run_changeType {stored : Image} {owner : TypeHandle} {info : TypeInfo}
    {change : TypeInfo → TypeInfo} {answer : β}
    (isOpen : image.openType owner = .ok info) (sameTypes : stored.types = image.types) :
    (do Update.changeType owner change; return answer : Update β).run stored =
      .ok answer (stored.modifyType owner change) := by
  obtain ⟨isInfo, -⟩ := openType_eq_ok.mp isOpen
  have found : stored.type owner = .ok info := by
    rw [type_eq_ok, type?, sameTypes]
    exact isInfo
  simp only [Update.changeType, EStateM.run, bind, EStateM.bind, Update.check, found]
  rfl

variable {owner : TypeHandle} {name : Name} {params : List RunTy}

theorem run_declareType {attrs : TypeAttrs} {base : Option RunTy} {interfaces : List RunTy} :
    (Update.declareType name attrs base interfaces).run image =
      settle image (image.declareType name attrs base interfaces) := by
  unfold Update.declareType Image.declareType
  refine run_refuse fun _ => ?_
  refine run_check_bind fun _ _ => ?_
  refine run_check_bind fun _ _ => ?_
  rfl

theorem run_declareField {type : RunTy} {attrs : FieldAttrs} :
    (Update.declareField owner name type attrs).run image =
      settle image (image.declareField owner name type attrs) := by
  unfold Update.declareField Image.declareField
  refine run_check_bind fun _ _ => ?_
  refine run_check_bind fun info isOpen => ?_
  refine run_refuse fun _ => ?_
  exact run_changeType isOpen rfl

theorem run_declareMethod {attrs : MethodAttrs} {ret : RunTy} :
    (Update.declareMethod owner name attrs params ret).run image =
      settle image (image.declareMethod owner name attrs params ret) := by
  unfold Update.declareMethod Image.declareMethod
  refine run_check_bind fun _ _ => ?_
  refine run_check_bind fun info isOpen => ?_
  refine run_refuse fun _ => ?_
  exact run_changeType isOpen rfl

theorem run_declareCtor :
    (Update.declareCtor owner params).run image =
      settle image (image.declareCtor owner params) := by
  unfold Update.declareCtor Image.declareCtor
  refine run_check_bind fun _ _ => ?_
  refine run_check_bind fun info isOpen => ?_
  refine run_refuse fun _ => ?_
  exact run_changeType isOpen rfl

theorem run_declareProperty {type : RunTy} {getter setter : Option MethodHandle} :
    (Update.declareProperty owner name type getter setter).run image =
      settle image (image.declareProperty owner name type getter setter) := by
  unfold Update.declareProperty Image.declareProperty
  refine run_check_bind fun info isOpen => ?_
  refine run_refuse fun _ => ?_
  refine run_check_bind fun _ _ => ?_
  exact run_changeType isOpen rfl

theorem run_defineMethod {handle : MethodHandle} {body : Body} :
    (Update.defineMethod handle body).run image =
      settle image ((image.defineMethod handle body).map fun later => ((), later)) := by
  unfold Update.defineMethod Image.defineMethod
  simp only [map_bind, map_refuse]
  refine run_check_bind fun _ _ => ?_
  refine run_check_bind fun _ _ => ?_
  refine run_refuse fun _ => ?_
  refine run_refuse fun _ => ?_
  rfl

theorem run_defineCtor {handle : CtorHandle} {body : Body} :
    (Update.defineCtor handle body).run image =
      settle image ((image.defineCtor handle body).map fun later => ((), later)) := by
  unfold Update.defineCtor Image.defineCtor
  simp only [map_bind, map_refuse]
  refine run_check_bind fun _ _ => ?_
  refine run_check_bind fun _ _ => ?_
  refine run_refuse fun _ => ?_
  rfl

theorem run_sealType {handle : TypeHandle} :
    (Update.sealType handle).run image = settle image (image.sealType handle) := by
  unfold Update.sealType Image.sealType
  refine run_check_bind fun info isOpen => ?_
  refine run_check_bind fun _ _ => ?_
  refine run_check_bind fun _ _ => ?_
  refine run_check_bind fun _ _ => ?_
  exact run_changeType isOpen rfl

/-! ## Sequences of requests -/

/-- A request for a change, with everything that it passes on. -/
inductive Command where
  | declareType (name : Name) (attrs : TypeAttrs) (base : Option RunTy) (interfaces : List RunTy)
  | declareField (owner : TypeHandle) (name : Name) (type : RunTy) (attrs : FieldAttrs)
  | declareMethod (owner : TypeHandle) (name : Name) (attrs : MethodAttrs) (params : List RunTy)
      (ret : RunTy)
  | declareCtor (owner : TypeHandle) (params : List RunTy)
  | declareProperty (owner : TypeHandle) (name : Name) (type : RunTy)
      (getter setter : Option MethodHandle)
  | defineMethod (handle : MethodHandle) (body : Body)
  | defineCtor (handle : CtorHandle) (body : Body)
  | sealType (handle : TypeHandle)

namespace Command

/-- What a request does to the store. -/
def update : Command → Update Unit
  | declareType name attrs base interfaces =>
      discard <| Update.declareType name attrs base interfaces
  | declareField owner name type attrs => discard <| Update.declareField owner name type attrs
  | declareMethod owner name attrs params ret =>
      discard <| Update.declareMethod owner name attrs params ret
  | declareCtor owner params => discard <| Update.declareCtor owner params
  | declareProperty owner name type getter setter =>
      discard <| Update.declareProperty owner name type getter setter
  | defineMethod handle body => Update.defineMethod handle body
  | defineCtor handle body => Update.defineCtor handle body
  | sealType handle => discard <| Update.sealType handle

end Command

/-- How an image is left by a request, granted or not. -/
def after (image : Image) (command : Command) : Image :=
  match command.update.run image with
  | .ok _ later => later
  | .error _ later => later

/-- A request ends in place as it does when it is decided beforehand. -/
def Transacts (image : Image) (update : Update Unit) : Prop :=
  (∃ later, update.run image = .ok () later ∧ Request image later) ∨
    ∃ failure, update.run image = .error failure image

theorem transacts_discard {update : Update α} {decided : Except ImageError (α × Image)}
    (runs : update.run image = settle image decided)
    (granted : ∀ answer later, decided = .ok (answer, later) → Request image later) :
    image.Transacts (discard update) := by
  have ran : (discard update).run image =
      settle image (decided.map fun result => ((), result.2)) := by
    have runs : update image = settle image decided := runs
    change EStateM.map (Function.const α PUnit.unit) update image = _
    rw [EStateM.map, runs]
    cases decided <;> rfl
  unfold Transacts
  rw [ran]
  cases decided with
  | error failure => exact .inr ⟨failure, rfl⟩
  | ok result => exact .inl ⟨result.2, rfl, granted result.1 result.2 rfl⟩

theorem transacts_define {update : Update Unit}
    (runs : update.run image = settle image (decided.map fun later => ((), later)))
    (granted : ∀ later, decided = .ok later → Request image later) : image.Transacts update := by
  unfold Transacts
  rw [runs]
  cases decided with
  | error failure => exact .inr ⟨failure, rfl⟩
  | ok later => exact .inl ⟨later, rfl, granted later rfl⟩

/-- A request is granted or leaves the image exactly as it was. -/
theorem Command.transacts (command : Command) : image.Transacts command.update := by
  cases command with
  | declareType => exact transacts_discard run_declareType fun _ _ done => .declareType done
  | declareField => exact transacts_discard run_declareField fun _ _ done => .declareField done
  | declareMethod => exact transacts_discard run_declareMethod fun _ _ done => .declareMethod done
  | declareCtor => exact transacts_discard run_declareCtor fun _ _ done => .declareCtor done
  | declareProperty =>
      exact transacts_discard run_declareProperty fun _ _ done => .declareProperty done
  | defineMethod => exact transacts_define run_defineMethod fun _ done => .defineMethod done
  | defineCtor => exact transacts_define run_defineCtor fun _ done => .defineCtor done
  | sealType => exact transacts_discard run_sealType fun _ _ done => .sealType done

/-- Requests, granted or not, amount to those that were granted. -/
theorem requests_foldl_after (commands : List Command) :
    Requests image (commands.foldl after image) := by
  induction commands generalizing image with
  | nil => exact .refl
  | cons command commands ih =>
      rw [List.foldl_cons]
      rcases command.transacts with ⟨later, runs, request⟩ | ⟨failure, runs⟩
      · rw [show image.after command = later by unfold after; rw [runs]]
        exact .head request ih
      · rw [show image.after command = image by unfold after; rw [runs]]
        exact ih

/-- The images that a store can be in. -/
theorem built_foldl_after (commands : List Command) : (commands.foldl after library).Built :=
  built_iff_requests.mpr (requests_foldl_after commands)

/-- A store, whatever is asked of it: a request that is refused leaves it exactly as it was; its
tables point into each other as they should, so that every walk from types to their bases and
interfaces ends; and a type that is complete stays as it is with its members. -/
theorem store_transactional (commands : List Command) :
    let image := commands.foldl after library
    (∀ (command : Command) (failure : ImageError) (later : Image),
      command.update.run image = .error failure later → later = image) ∧
    image.WellFormed ∧
    WellFounded (fun upper lower => image.Below lower upper) ∧
    (∀ lower upper, image.derivesFrom lower upper = true ↔
      Relation.ReflTransGen image.Below lower upper) ∧
    (∀ handle bound, handle.index < bound →
      image.lineageUpTo bound handle = image.lineage handle) ∧
    ∀ handle info, image.type? handle = some info → info.isComplete = true →
      ∀ further : List Command, image.KeepsType (further.foldl after image) handle info := by
  intro image
  have built : image.Built := built_foldl_after commands
  refine ⟨fun command failure later refused => ?_, built.wellFormed, built.rooted.wellFounded,
    fun _ _ => built.rooted.derivesFrom_iff, fun _ _ => built.rooted.lineageUpTo_eq,
    fun handle info isInfo complete further => ?_⟩
  · rcases command.transacts with ⟨_, runs, -⟩ | ⟨_, runs⟩
    · cases runs.symm.trans refused
    · cases runs.symm.trans refused
      rfl
  · exact (requests_foldl_after further).keeps built isInfo complete

/-- A class with one field that is completed, and a second field that comes too late. -/
def lateField : List Command :=
  [.declareType "Point" .publicClass none [], .declareField ⟨45⟩ "x" .int32 {}, .sealType ⟨45⟩,
    .declareField ⟨45⟩ "y" .int32 {}]

theorem store_lateField :
    ∃ info, (lateField.foldl after library).type? ⟨45⟩ = some info ∧ info.fields.length = 1 ∧
      ∀ further : List Command,
        (lateField.foldl after library).KeepsType
          (further.foldl after (lateField.foldl after library)) ⟨45⟩ info := by
  have evaluates : ((lateField.foldl after library).type? ⟨45⟩).any (fun info =>
      info.isComplete && info.fields.length == 1) = true := by
    decide +kernel
  obtain ⟨info, isInfo, holds⟩ := (Option.any_eq_true _ _).mp evaluates
  rw [Bool.and_eq_true, beq_iff_eq] at holds
  obtain ⟨-, -, -, -, -, keeps⟩ := store_transactional lateField
  exact ⟨info, isInfo, holds.2, keeps _ info isInfo holds.1⟩

end Image

end ClassForge
