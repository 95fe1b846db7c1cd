import ClassForge.Proofs.Image.Integrity

/-!
# Cells and functions of the platform

The cells of captured variables and the function types are erased generic types of the library.
Every image has them with the members that the library describes, so what generated code finds
for them is known, and so are the objects that are made of them.
-/

namespace ClassForge

namespace Library

/-- The description of a generic type by its definition and the number of its arguments. -/
def generic? : Origin → Option Entry
  | .generic definition arity =>
      if definition = Platform.cell then some cell
      else if definition = Platform.func then some (delegate definition arity (arity - 1) .object)
      else if definition = Platform.action then some (delegate definition arity arity .void)
      else none
  | _ => none

end Library

/-- A type whose variables begin with null, whatever the image holds. -/
def RunTy.IsErased (type : RunTy) : Prop :=
  type = .object ∨ ∃ definition args, type = .generic definition args

theorem RunTy.IsErased.default {type : RunTy} (erased : RunTy.IsErased type) (image : Image)
    (bound : Nat) (heap : Heap) :
    (Exec.defaultUpTo image (bound + 1) type).run heap = (.null, heap) := by
  rcases erased with rfl | ⟨definition, args, rfl⟩ <;> rfl

namespace Image

variable {image : Image} {handle : TypeHandle} {info : TypeInfo} {entry : Library.Entry}

/-- A type that derives from `Object` is made as the library describes it. -/
structure Installed (image : Image) (handle : TypeHandle) (info : TypeInfo) (entry : Library.Entry) :
    Prop where
  attrs : info.attrs = entry.attrs
  base : info.base = some ⟨Library.objectIndex⟩
  fields : info.fields.map image.field? = entry.fields.zipIdx.map fun field =>
    some ⟨handle, field.1.1, field.1.2, .publicInstance, field.2⟩
  methods : info.methods.map image.method? = entry.methods.map fun method =>
    some ⟨handle, method.name, method.attrs, method.params, method.ret, .native method.native⟩
  ctors : info.ctors.map image.ctor? = entry.ctors.map fun ctor =>
    some ⟨handle, ctor.params, .native ctor.native⟩
  complete : info.isComplete = true
  slots : info.instanceSlots = entry.fields.length

instance : Decidable (image.Installed handle info entry) :=
  decidable_of_iff
    (info.attrs = entry.attrs ∧ info.base = some ⟨Library.objectIndex⟩ ∧
      (info.fields.map image.field? = entry.fields.zipIdx.map fun field =>
        some ⟨handle, field.1.1, field.1.2, .publicInstance, field.2⟩) ∧
      (info.methods.map image.method? = entry.methods.map fun method =>
        some ⟨handle, method.name, method.attrs, method.params, method.ret,
          .native method.native⟩) ∧
      (info.ctors.map image.ctor? = entry.ctors.map fun ctor =>
        some ⟨handle, ctor.params, .native ctor.native⟩) ∧
      info.isComplete = true ∧ info.instanceSlots = entry.fields.length)
    ⟨fun ⟨attrs, base, fields, methods, ctors, complete, slots⟩ =>
        ⟨attrs, base, fields, methods, ctors, complete, slots⟩,
      fun installed => ⟨installed.attrs, installed.base, installed.fields, installed.methods,
        installed.ctors, installed.complete, installed.slots⟩⟩

/-- The generic types of the library are made as described. -/
theorem library_installed : ∀ index < library.types.size, ∀ info ∈ library.type? ⟨index⟩,
    ∀ entry ∈ Library.generic? info.origin, library.Installed ⟨index⟩ info entry := by
  decide +kernel

/-- The root of the hierarchy has no fields, and its constructor does nothing. -/
theorem library_object : library.builtin? .object = some ⟨Library.objectIndex⟩ ∧
    ∃ info, library.type? ⟨Library.objectIndex⟩ = some info ∧ info.base = none ∧ info.fields = [] ∧
      info.isComplete = true ∧ ∀ ctor ∈ info.ctors,
        library.ctor? ctor = some ⟨⟨Library.objectIndex⟩, [], .native .objectCtor⟩ := by
  have evaluates : library.builtin? .object = some ⟨Library.objectIndex⟩ ∧
      (library.type? ⟨Library.objectIndex⟩).any (fun info => decide (info.base = none ∧
        info.fields = [] ∧ info.isComplete = true ∧ ∀ ctor ∈ info.ctors,
          library.ctor? ctor = some ⟨⟨Library.objectIndex⟩, [], .native .objectCtor⟩)) = true := by
    decide +kernel
  obtain ⟨info, isInfo, holds⟩ := (Option.any_eq_true _ _).mp evaluates.2
  exact ⟨evaluates.1, info, isInfo, of_decide_eq_true holds⟩

theorem library_isComplete : ∀ info ∈ library.types, info.isComplete = true := by
  decide +kernel

/-- Types of the library stay as they are. -/
theorem Built.keeps_library (built : image.Built) (isInfo : Image.library.type? handle = some info) :
    Image.library.KeepsType image handle info :=
  Requests.keeps (built_iff_requests.mp built) .library isInfo
    (library_isComplete info (Array.mem_of_getElem? isInfo))

/-- The generic types of an image are those of the library. -/
theorem Built.generic?_iff (built : image.Built) {definition : Name} {arity : Nat} :
    image.generic? definition arity = some handle ↔
      Image.library.generic? definition arity = some handle := by
  have grows : ∀ {handle}, Image.library.generic? definition arity = some handle →
      image.generic? definition arity = some handle :=
    built.extends_library.findType? fun _ _ grows => by rw [grows.origin]
  refine ⟨fun found => ?_, grows⟩
  obtain ⟨index, isIndex, rfl⟩ := Option.map_eq_some_iff.mp found
  obtain ⟨inBounds, fits, -⟩ := Array.findIdx?_eq_some_iff_getElem.mp isIndex
  have isOrigin : image.types[index].origin = .generic definition arity := beq_iff_eq.mp fits
  have inLibrary := built.platform _ (Array.getElem_mem inBounds) (by simp [isOrigin])
  have isSome : (Image.library.generic? definition arity).isSome = true := by
    rw [Image.generic?, findType?, Option.isSome_map, Array.findIdx?_isSome, Array.any_eq_true']
    exact ⟨_, inLibrary, beq_iff_eq.mpr isOrigin⟩
  obtain ⟨other, isOther⟩ := Option.isSome_iff_exists.mp isSome
  rwa [Option.some.inj (found.symm.trans (grows isOther))]

/-- The entry of a generic type is one of the library, which describes it. -/
theorem library_generic {definition : Name} {arity : Nat}
    (found : library.generic? definition arity = some handle)
    (isEntry : Library.generic? (.generic definition arity) = some entry) :
    ∃ info, library.type? handle = some info ∧ info.origin = .generic definition arity ∧
      library.Installed handle info entry := by
  obtain ⟨index, isIndex, rfl⟩ := Option.map_eq_some_iff.mp found
  obtain ⟨within, fits, -⟩ := Array.findIdx?_eq_some_iff_getElem.mp isIndex
  have isOrigin := beq_iff_eq.mp fits
  have isInfo : library.type? ⟨index⟩ = some library.types[index] := Array.getElem?_eq_getElem within
  exact ⟨_, isInfo, isOrigin, library_installed index within _ isInfo entry (isOrigin ▸ isEntry)⟩

/-- A generic type of an image is made as the library describes it. -/
theorem Built.installed (built : image.Built) {definition : Name} {arity : Nat}
    (found : image.generic? definition arity = some handle)
    (isEntry : Library.generic? (.generic definition arity) = some entry) :
    ∃ info, image.type? handle = some info ∧ info.origin = .generic definition arity ∧
      image.Installed handle info entry := by
  obtain ⟨info, isInfo, isOrigin, installed⟩ := library_generic (built.generic?_iff.mp found) isEntry
  have keeps := built.keeps_library isInfo
  refine ⟨info, keeps.type, isOrigin, installed.attrs, installed.base, ?_, ?_, ?_,
    installed.complete, installed.slots⟩
  · exact (List.map_congr_left keeps.fields).trans installed.fields
  · exact (List.map_congr_left keeps.methods).trans installed.methods
  · exact (List.map_congr_left keeps.ctors).trans installed.ctors

/-! ## Members that code names -/

section Members

variable {final : Image} {definition : Name} {args params : List RunTy}
variable {name : Name} {method : MethodHandle} {owner : RunTy}
variable {ctor : CtorHandle} {isInstance : Bool}

/-- What is listed on a generic type is the same in every image, and as the library describes it. -/
theorem Built.ownerInfo_generic (built : image.Built) (later : final.Built)
    (isOwner : image.ownerInfo (.generic definition args) = .ok info)
    (isEntry : Library.generic? (.generic definition args.length) = some entry) :
    ∃ handle, final.generic? definition args.length = some handle ∧
      final.Installed handle info entry ∧ image.KeepsType final handle info := by
  obtain ⟨handle, found, isInfo⟩ := ownerInfo_eq_ok.mp isOwner
  have inLibrary := built.generic?_iff.mp found
  have isFinal := later.generic?_iff.mpr inLibrary
  obtain ⟨before, isBefore, -⟩ := library_generic inLibrary isEntry
  obtain ⟨after, isAfter, -, installed⟩ := later.installed isFinal isEntry
  have keeps := built.keeps_library isBefore
  obtain rfl := Option.some.inj (isInfo.symm.trans keeps.type)
  obtain rfl := Option.some.inj (isAfter.symm.trans (later.keeps_library isBefore).type)
  exact ⟨handle, isFinal, installed, (keeps.symm isBefore).trans (later.keeps_library isBefore)⟩

/-- What a list of handles stands for, entry by entry. -/
theorem exists_described {η α β : Type} {find : η → Option α} {handles : List η} {entries : List β}
    {make : β → α} {handle : η} {value : α}
    (described : handles.map find = entries.map fun entry => some (make entry))
    (listed : handle ∈ handles) (found : find handle = some value) :
    ∃ entry ∈ entries, value = make entry := by
  have member : find handle ∈ entries.map fun entry => some (make entry) :=
    described ▸ List.mem_map_of_mem listed
  obtain ⟨entry, isEntry, same⟩ := List.mem_map.mp member
  exact ⟨entry, isEntry, Option.some.inj (found.symm.trans same.symm)⟩

/-- A constructor of a generic type that code names is one that the library describes. -/
theorem Built.resolveCtor_generic (built : image.Built) (later : final.Built)
    (done : image.resolveCtor (.generic definition args) params = .ok ctor)
    (isEntry : Library.generic? (.generic definition args.length) = some entry) :
    ∃ handle, final.generic? definition args.length = some handle ∧
      ∃ described ∈ entry.ctors, described.params.length = params.length ∧
        final.ctor? ctor = some ⟨handle, described.params, .native described.native⟩ := by
  obtain ⟨info, _, isOwner, member, count⟩ := resolveCtor_eq_ok done
  obtain ⟨handle, found, installed, keeps⟩ := built.ownerInfo_generic later isOwner isEntry
  obtain ⟨listed, isCtor⟩ := mem_ctorsOf.mp member
  have same := (keeps.ctors _ listed).trans isCtor
  obtain ⟨described, isDescribed, rfl⟩ := exists_described installed.ctors listed same
  exact ⟨handle, found, described, isDescribed, count, same⟩

/-- A method of a generic type that code names is one that the library describes. -/
theorem Built.resolveMethod_generic (built : image.Built) (later : final.Built)
    (done : image.resolveMethod (.generic definition args) name isInstance params = .ok method)
    (isEntry : Library.generic? (.generic definition args.length) = some entry) :
    ∃ handle, final.generic? definition args.length = some handle ∧
      ∃ described ∈ entry.methods, described.params.length = params.length ∧
        final.method? method = some ⟨handle, described.name, described.attrs, described.params,
          described.ret, .native described.native⟩ := by
  obtain ⟨info, _, isOwner, answers⟩ := resolveMethod_eq_ok done
  obtain ⟨handle, found, installed, keeps⟩ := built.ownerInfo_generic later isOwner isEntry
  obtain ⟨listed, isMethod⟩ := mem_methodsOf.mp answers.member
  have same := (keeps.methods _ listed).trans isMethod
  obtain ⟨described, isDescribed, rfl⟩ := exists_described installed.methods listed same
  exact ⟨handle, found, described, isDescribed, answers.count, same⟩

/-- A field of a generic type that code names is one that the library describes. -/
theorem Built.resolveField_generic (built : image.Built) (later : final.Built)
    {field : FieldHandle} (done : image.resolveField (.generic definition args) name = .ok field)
    (isEntry : Library.generic? (.generic definition args.length) = some entry) :
    ∃ handle, final.generic? definition args.length = some handle ∧
      ∃ described ∈ entry.fields.zipIdx,
        final.field? field = some ⟨handle, described.1.1, described.1.2, .publicInstance,
          described.2⟩ := by
  obtain ⟨info, isOwner, done⟩ := bind_eq_ok.mp done
  obtain ⟨handle, found, installed, keeps⟩ := built.ownerInfo_generic later isOwner isEntry
  dsimp only at done
  split at done
  · rename_i isFound
    cases done
    obtain ⟨listed, isField⟩ := mem_fieldsOf.mp (List.mem_of_find?_eq_some isFound)
    have same := (keeps.fields _ listed).trans isField
    obtain ⟨described, isDescribed, rfl⟩ := exists_described installed.fields listed same
    exact ⟨handle, found, described, isDescribed, same⟩
  · cases done

/-- What is described is found under some handle. -/
theorem exists_listed {η α β : Type} {find : η → Option α} {handles : List η} {entries : List β}
    {make : β → α} {entry : β} (described : handles.map find = entries.map fun entry => some (make entry))
    (isEntry : entry ∈ entries) : ∃ handle ∈ handles, find handle = some (make entry) := by
  have member : some (make entry) ∈ handles.map find :=
    described ▸ List.mem_map_of_mem (f := fun entry => some (make entry)) isEntry
  exact List.mem_map.mp member

variable (built : image.Built)
include built

/-- A described constructor of a generic type is found by the number of its parameters. -/
theorem Built.exists_ctor_generic (found : image.generic? definition args.length = some handle)
    (isEntry : Library.generic? (.generic definition args.length) = some entry)
    {described : Library.Ctor} (isCtor : described ∈ entry.ctors)
    (count : described.params.length = params.length) :
    ∃ ctor, image.resolveCtor (.generic definition args) params = .ok ctor := by
  obtain ⟨info, isInfo, isOrigin, installed⟩ := built.installed found isEntry
  obtain ⟨listed, isListed, isThere⟩ := exists_listed installed.ctors isCtor
  have isThis := List.find?_isSome (p := fun entry => paramsMatch info entry.2.params params) |>.mpr
    ⟨_, mem_ctorsOf.mpr ⟨isListed, isThere⟩, by simp [paramsMatch, isOrigin, Origin.isGeneric, count]⟩
  obtain ⟨⟨ctor, _⟩, isFound⟩ := Option.isSome_iff_exists.mp isThis
  refine ⟨ctor, bind_eq_ok.mpr ⟨info, ownerInfo_eq_ok.mpr ⟨handle, found, isInfo⟩, ?_⟩⟩
  dsimp only
  rw [isFound]
  rfl

/-- A described method of a generic type is found by its name and the number of its parameters. -/
theorem Built.exists_method_generic (found : image.generic? definition args.length = some handle)
    (isEntry : Library.generic? (.generic definition args.length) = some entry)
    {described : Library.Method} (isMethod : described ∈ entry.methods)
    (count : described.params.length = params.length) :
    ∃ method, image.resolveMethod (.generic definition args) described.name
      (!described.attrs.isStatic) params = .ok method := by
  obtain ⟨info, isInfo, isOrigin, installed⟩ := built.installed found isEntry
  obtain ⟨listed, isListed, isThere⟩ := exists_listed installed.methods isMethod
  have isThis := List.find?_isSome (p := fun entry => entry.2.name == described.name &&
      entry.2.attrs.isStatic != !described.attrs.isStatic && paramsMatch info entry.2.params params)
    |>.mpr ⟨_, mem_methodsOf.mpr ⟨isListed, isThere⟩,
      by simp [paramsMatch, isOrigin, Origin.isGeneric, count]⟩
  obtain ⟨⟨method, _⟩, isFound⟩ := Option.isSome_iff_exists.mp isThis
  refine ⟨method, bind_eq_ok.mpr ⟨info, ownerInfo_eq_ok.mpr ⟨handle, found, isInfo⟩, ?_⟩⟩
  dsimp only
  rw [isFound]
  rfl

/-- A described field of a generic type is found by its name. -/
theorem Built.exists_field_generic (found : image.generic? definition args.length = some handle)
    (isEntry : Library.generic? (.generic definition args.length) = some entry)
    {described : (Name × RunTy) × Nat} (isField : described ∈ entry.fields.zipIdx) :
    ∃ field, image.resolveField (.generic definition args) described.1.1 = .ok field := by
  obtain ⟨info, isInfo, -, installed⟩ := built.installed found isEntry
  obtain ⟨listed, isListed, isThere⟩ := exists_listed installed.fields isField
  have isThis := List.find?_isSome (p := fun entry => entry.2.name == described.1.1) |>.mpr
    ⟨_, mem_fieldsOf.mpr ⟨isListed, isThere⟩, by simp⟩
  obtain ⟨⟨field, _⟩, isFound⟩ := Option.isSome_iff_exists.mp isThis
  refine ⟨field, bind_eq_ok.mpr ⟨info, ownerInfo_eq_ok.mpr ⟨handle, found, isInfo⟩, ?_⟩⟩
  dsimp only
  rw [isFound]
  rfl

/-- The platform has a type of cells. -/
theorem Built.exists_cell :
    ∃ cell, image.generic? Platform.cell 1 = some cell := by
  have found : (Image.library.generic? Platform.cell 1).isSome = true := by decide +kernel
  obtain ⟨cell, isCell⟩ := Option.isSome_iff_exists.mp found
  exact ⟨cell, built.generic?_iff.mpr isCell⟩

/-- The owner of a member of the library is the same in every image. -/
theorem Built.ownerInfo_library (found : Image.library.ownerInfo owner = .ok info) :
    image.ownerInfo owner = .ok info ∧ ∃ handle, Image.library.KeepsType image handle info := by
  obtain ⟨handle, isHandle, isInfo⟩ := bind_eq_ok.mp found
  have keeps := built.keeps_library (type_eq_ok.mp isInfo)
  exact ⟨bind_eq_ok.mpr ⟨handle, built.extends_library.handleOf isHandle,
    type_eq_ok.mpr keeps.type⟩, handle, keeps⟩

/-- A method that the library has is found in every image. -/
theorem Built.resolveMethod_library
    (found : Image.library.resolveMethod owner name isInstance params = .ok method) :
    image.resolveMethod owner name isInstance params = .ok method := by
  obtain ⟨info, isOwner, found⟩ := bind_eq_ok.mp found
  obtain ⟨isOwner, handle, keeps⟩ := built.ownerInfo_library isOwner
  have same : image.methodsOf info = Image.library.methodsOf info :=
    List.filterMap_congr fun method listed => by rw [keeps.methods method listed]
  exact bind_eq_ok.mpr ⟨info, isOwner, by rw [same]; exact found⟩

/-- A method that the library has is the same in every image. -/
theorem Built.method_library
    (found : Image.library.resolveMethod owner name isInstance params = .ok method) :
    image.method? method = Image.library.method? method := by
  obtain ⟨info, _, isOwner, answers⟩ := resolveMethod_eq_ok found
  obtain ⟨-, handle, keeps⟩ := built.ownerInfo_library isOwner
  exact keeps.methods method (mem_methodsOf.mp answers.member).1

/-- A constructor that the library has is found in every image. -/
theorem Built.resolveCtor_library (found : Image.library.resolveCtor owner params = .ok ctor) :
    image.resolveCtor owner params = .ok ctor := by
  obtain ⟨info, isOwner, found⟩ := bind_eq_ok.mp found
  obtain ⟨isOwner, handle, keeps⟩ := built.ownerInfo_library isOwner
  have same : image.ctorsOf info = Image.library.ctorsOf info :=
    List.filterMap_congr fun ctor listed => by rw [keeps.ctors ctor listed]
  exact bind_eq_ok.mpr ⟨info, isOwner, by rw [same]; exact found⟩

/-- `Object` leads to its entry in the library. -/
theorem Built.handleOf_object :
    image.handleOf .object = .ok ⟨Library.objectIndex⟩ := by
  have found : image.builtin? .object = some ⟨Library.objectIndex⟩ :=
    built.extends_library.findType? (fun _ _ grows => by rw [grows.origin]) library_object.1
  exact handleOf_eq_ok.mpr found

/-- The constructor of `Object` that code names. -/
theorem Built.resolveCtor_object (later : final.Built)
    (done : image.resolveCtor .object params = .ok ctor) :
    final.ctor? ctor = some ⟨⟨Library.objectIndex⟩, [], .native .objectCtor⟩ := by
  obtain ⟨-, root, isRoot, -, -, -, does⟩ := library_object
  obtain ⟨info, _, isOwner, member, -⟩ := resolveCtor_eq_ok done
  obtain ⟨handle, isHandle, isInfo⟩ := ownerInfo_eq_ok.mp isOwner
  cases (handleOf_eq_ok.mpr isHandle).symm.trans built.handleOf_object
  cases isInfo.symm.trans (built.keeps_library isRoot).type
  have listed := (mem_ctorsOf.mp member).1
  exact ((later.keeps_library isRoot).ctors _ listed).trans (does _ listed)

end Members

/-! ## Objects -/

/-- Where the bases of a generic type end. -/
theorem Built.lineage_installed (built : image.Built) (isInfo : image.type? handle = some info)
    (installed : image.Installed handle info entry) :
    ∃ root, image.lineage handle = [info, root] ∧ root.fields = [] := by
  obtain ⟨-, root, isBefore, isTop, noFields, -⟩ := library_object
  have isRoot := (built.keeps_library isBefore).type
  have earlier := (built.rooted handle info isInfo).earlier _ (Option.mem_def.mpr installed.base)
  obtain ⟨rest, isRest⟩ := Nat.exists_eq_succ_of_ne_zero (Nat.ne_zero_of_lt earlier)
  refine ⟨root, ?_, noFields⟩
  unfold lineage
  simp only [isRest, lineageUpTo, isInfo, installed.base, isRoot, isTop]

/-- Fields of erased types begin with null. -/
theorem fill_null (image : Image) (bound count : Nat) (heap : Heap) {fields : List FieldInfo}
    (erased : ∀ field ∈ fields, RunTy.IsErased field.type) :
    (fields.foldlM (fun slots field => do
        let value ← Exec.defaultUpTo image (bound + 1) field.type
        return slots.setIfInBounds field.slot value)
      (Array.replicate count Value.null) : StateM Heap _).run heap =
        (Array.replicate count .null, heap) := by
  induction fields with
  | nil => rfl
  | cons field fields ih =>
      have isNull := (erased field List.mem_cons_self).default image bound heap
      have same : (Array.replicate count Value.null).setIfInBounds field.slot .null =
          Array.replicate count .null := by
        ext <;> simp
      rw [List.foldlM_cons, StateT.run_bind, StateT.run_bind, isNull]
      change ((fields.foldlM _ ((Array.replicate count Value.null).setIfInBounds field.slot .null) :
        StateM Heap _).run heap) = _
      rw [same]
      exact ih (List.forall_mem_cons.mp erased).2

/-- Objects of a class whose fields are of erased types begin with null in each of them. -/
theorem allocate_erased (isInfo : image.type? handle = some info) (complete : info.isComplete = true)
    (isClass : info.attrs.isValueType = false)
    (erased : ∀ above ∈ image.lineage handle, ∀ field ∈ image.fieldsOf above,
      RunTy.IsErased field.2.type) (store : Store) :
    (Exec.allocate image handle).run store = .ok (.ref ⟨store.heap.size⟩)
      { store with heap :=
          (store.heap.alloc (.instance handle (Array.replicate info.instanceSlots .null))).2 } := by
  have areErased : ∀ field ∈ (image.lineage handle).flatMap fun info =>
      ((image.fieldsOf info).map (·.2)).filter fun field => !field.attrs.isStatic,
      RunTy.IsErased field.type := by
    intro field member
    obtain ⟨above, isAbove, listed⟩ := List.mem_flatMap.mp member
    obtain ⟨entry, isEntry, rfl⟩ := List.mem_map.mp (List.mem_of_mem_filter listed)
    exact erased above isAbove entry isEntry
  have shared : image.isValueHandle handle = false := by simp [isValueHandle, isInfo, isClass]
  have made : (Exec.instanceWith image (Exec.defaultUpTo image (image.types.size + 1)) handle
      info).run store.heap =
        store.heap.alloc (.instance handle (Array.replicate info.instanceSlots .null)) := by
    unfold Exec.instanceWith
    rw [StateT.run_bind, fill_null image _ _ _ areErased]
    rfl
  have ran : (Exec.allocInstance image handle).run store = .ok ⟨store.heap.size⟩
      { store with heap :=
          (store.heap.alloc (.instance handle (Array.replicate info.instanceSlots .null))).2 } := by
    unfold Exec.allocInstance
    rw [type_eq_ok.mpr isInfo]
    change EStateM.run (if info.isComplete then _ else _) store = _
    rw [if_pos complete]
    change (EStateM.Result.ok ((Exec.instanceWith image _ handle info).run store.heap).1
      { store with heap := ((Exec.instanceWith image _ handle info).run store.heap).2 } :
        EStateM.Result Trap Store ObjRef) = _
    rw [made]
    rfl
  unfold Exec.allocate
  rw [EStateM.run_bind, ran]
  dsimp only
  rw [shared]
  rfl

/-- Objects of a generic type begin with null in each field. -/
theorem Built.allocate_installed (built : image.Built) (isInfo : image.type? handle = some info)
    (installed : image.Installed handle info entry) (isClass : entry.attrs.isValueType = false)
    (erased : ∀ field ∈ entry.fields, field.2 = .object) (store : Store) :
    (Exec.allocate image handle).run store = .ok (.ref ⟨store.heap.size⟩)
      { store with heap := (store.heap.alloc
          (.instance handle (Array.replicate entry.fields.length .null))).2 } := by
  obtain ⟨root, isLineage, noFields⟩ := built.lineage_installed isInfo installed
  rw [← installed.slots]
  refine allocate_erased isInfo installed.complete (installed.attrs ▸ isClass) ?_ store
  intro above isAbove field isField
  obtain ⟨listed, isField⟩ := mem_fieldsOf.mp isField
  rw [isLineage, List.mem_pair] at isAbove
  rcases isAbove with rfl | rfl
  · obtain ⟨described, isDescribed, same⟩ := exists_described installed.fields listed isField
    exact .inl (same ▸ erased _ (List.fst_mem_of_mem_zipIdx isDescribed))
  · rw [noFields] at listed
    cases listed

end Image

end ClassForge
