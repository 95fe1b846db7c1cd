import ClassForge.Proofs.Code.StackEffects
import ClassForge.Proofs.Typing.MemberSearch

/-!
# Types without `Void`

`Void` is no type of values.  Where a module mentions it only for what returns no value,
the types of values have no part that is `Void`, and neither have the types of platform
members that they lead to.  Whether a platform method returns a value can be read off its
name.
-/

namespace ClassForge

namespace Ty

variable {κ μ : Type}
variable {type : Ty κ}

mutual

/-- No part of a type is `Void`. -/
def isVoidFree : Ty κ → Bool
  | builtin .void => false
  | builtin _ | declared _ => true
  | generic _ args => areVoidFree args
  | array element => isVoidFree element
termination_by structural type => type

/-- No part of any of some types is `Void`. -/
def areVoidFree : List (Ty κ) → Bool
  | [] => true
  | type :: types => isVoidFree type && areVoidFree types
termination_by structural types => types

end

/-- The type of a result: that of a value, or `Void`. -/
def IsResult (type : Ty κ) : Prop :=
  type.isVoid = true ∨ type.isVoidFree = true

instance (type : Ty κ) : Decidable type.IsResult :=
  inferInstanceAs (Decidable (_ ∨ _))

theorem areVoidFree_iff {types : List (Ty κ)} :
    areVoidFree types = true ↔ ∀ type ∈ types, type.isVoidFree = true := by
  induction types with
  | nil => simp [areVoidFree]
  | cons type types ih => simp [areVoidFree, ih]

theorem isVoid_eq_false {type : Ty κ} (free : type.isVoidFree = true) : type.isVoid = false := by
  cases type with
  | builtin builtin => cases builtin <;> first | rfl | cases free
  | _ => rfl

theorem IsResult.isVoidFree (isResult : type.IsResult) (isValue : type.isVoid = false) :
    type.isVoidFree = true :=
  isResult.resolve_left (by simp [isValue])

theorem eq_void {type : Ty κ} (isVoid : type.isVoid = true) : type = .void := by
  unfold Ty.isVoid at isVoid
  split at isVoid
  · rfl
  · cases isVoid

theorem weight_of_isVoid_eq {other : Ty μ} (same : type.isVoid = other.isVoid) :
    type.weight = other.weight := by
  unfold weight
  rw [same]

theorem weight_eq_one {type : Ty κ} (isValue : type.isVoid = false) : type.weight = 1 := by
  unfold weight
  rw [isValue]
  rfl

theorem weight_of_isVoidFree {type : Ty κ} (free : type.isVoidFree = true) : type.weight = 1 :=
  weight_eq_one (isVoid_eq_false free)

theorem isVoid_prim? {prim : Prim} (isPrim : type.prim? = some prim) :
    type.isVoid = false ∧ type.isVoidFree = true := by
  cases type with
  | builtin builtin => cases builtin <;> first | exact ⟨rfl, rfl⟩ | cases isPrim
  | _ => cases isPrim

/-! ## Renaming and resolving -/

theorem isVoid_mapKeys (replace : κ → μ) (type : Ty κ) :
    (type.mapKeys replace).isVoid = type.isVoid := by
  cases type with
  | builtin builtin => cases builtin <;> rfl
  | _ => rfl

theorem isVoidFree_mapKeys (replace : κ → μ) (type : Ty κ) :
    (type.mapKeys replace).isVoidFree = type.isVoidFree := by
  induction type with
  | builtin builtin => cases builtin <;> rfl
  | declared => rfl
  | generic definition args ih =>
      rw [mapKeys, mapKeysList_eq_map, isVoidFree, isVoidFree, Bool.eq_iff_iff, areVoidFree_iff,
        areVoidFree_iff, List.forall_mem_map]
      exact forall₂_congr fun arg isArg => by rw [ih arg isArg]
  | array element ih => exact ih

theorem IsResult.mapKeys (isResult : type.IsResult) (replace : κ → μ) :
    (type.mapKeys replace).IsResult := by
  unfold IsResult
  rwa [isVoid_mapKeys, isVoidFree_mapKeys]

theorem isVoid_of_resolve {ε : Type} {replace : κ → Except ε μ} {result : Ty μ}
    (done : type.resolve replace = .ok result) : result.isVoid = type.isVoid := by
  cases type with
  | builtin builtin =>
      cases done
      cases builtin <;> rfl
  | generic | declared | array =>
      obtain ⟨_, -, same⟩ := bind_eq_ok.mp done
      cases same
      rfl

/-! ## Function types -/

section

variable [DecidableEq κ]

theorem isVoid_delegate (params : List (Ty κ)) (ret : Ty κ) :
    (delegate params ret).isVoid = false := by
  unfold delegate
  split <;> rfl

theorem isVoidFree_delegate {params : List (Ty κ)} {ret : Ty κ}
    (areFree : ∀ param ∈ params, param.isVoidFree = true) (isResult : ret.IsResult) :
    (delegate params ret).isVoidFree = true := by
  unfold delegate
  split
  · exact areVoidFree_iff.mpr areFree
  · rename_i isValue
    refine areVoidFree_iff.mpr fun type member => ?_
    rcases List.mem_append.mp member with isParam | isRet
    · exact areFree type isParam
    · rw [List.mem_singleton.mp isRet]
      exact isResult.resolve_left fun isVoid => isValue (eq_void isVoid)

end

/-- What a function type is made of, if no part of it is `Void`. -/
theorem isResult_of_signature? {params : List (Ty κ)} {ret : Ty κ} (free : type.isVoidFree = true)
    (signature : type.signature? = some (params, ret)) :
    (∀ param ∈ params, param.isVoidFree = true) ∧ ret.IsResult := by
  cases type with
  | generic definition args =>
      have areFree := areVoidFree_iff.mp free
      simp only [signature?] at signature
      split at signature
      · obtain ⟨last, isLast, same⟩ := Option.map_eq_some_iff.mp signature
        cases same
        exact ⟨fun param isParam => areFree param (List.dropLast_subset _ isParam),
          .inr (areFree _ (List.mem_of_getLast? isLast))⟩
      · split at signature
        · cases signature
          exact ⟨areFree, .inl rfl⟩
        · cases signature
  | _ => cases signature

/-- The entry that a platform type has. -/
def origin? : Ty κ → Option Origin
  | builtin b => some (.builtin b)
  | generic definition args => some (.generic definition args.length)
  | declared _ | array _ => none

end Ty

/-! ## The platform -/

namespace Image

variable {handle : MethodHandle} {method : MethodInfo}

/-- Whether some method of a name on a platform type returns no value. -/
def returnsVoid (image : Image) (origin : Origin) (name : Name) : Bool :=
  image.types.toList.any fun info => info.origin == origin &&
    (image.methodsOf info).any fun (_, method) => method.name == name && method.ret.isVoid

variable {image : Image} {info : TypeInfo} {owner : SourceTy}

theorem origin?_of_platformInfo? (found : image.platformInfo? owner = some info) :
    owner.origin? = some info.origin := by
  rcases (mem_types_of_platformInfo? found).2 with ⟨_, rfl, same⟩ | ⟨_, _, rfl, same⟩ <;>
    rw [same] <;> rfl

/-! ### What the library says -/

/-- What the entries of the library are like: their handles lead to members, and `Void` stands
for results only. -/
@[mk_iff]
structure PlatformEntry (image : Image) (info : TypeInfo) : Prop where
  fieldHandles : ∀ handle ∈ info.fields, (image.field? handle).isSome
  methodHandles : ∀ handle ∈ info.methods, (image.method? handle).isSome
  ctorHandles : ∀ handle ∈ info.ctors, (image.ctor? handle).isSome
  propertyHandles : ∀ handle ∈ info.properties, (image.property? handle).isSome
  fields : ∀ entry ∈ image.fieldsOf info, entry.2.type.isVoidFree = true
  methods : ∀ entry ∈ image.methodsOf info,
    (∀ param ∈ entry.2.params, param.isVoidFree = true) ∧ entry.2.ret.IsResult ∧
      entry.2.ret.isVoid = image.returnsVoid info.origin entry.2.name
  ctors : ∀ entry ∈ image.ctorsOf info, ∀ param ∈ entry.2.params, param.isVoidFree = true
  /-- Getters of properties return values, and setters do not. -/
  properties : ∀ entry ∈ image.propertiesOf info,
    entry.2.type.isVoidFree = true ∧
      ∀ method ∈ image.methodsOf info,
        (method.2.name = getterName entry.2.name →
          image.returnsVoid info.origin (getterName entry.2.name) = false) ∧
        (method.2.name = setterName entry.2.name →
          image.returnsVoid info.origin (setterName entry.2.name) = true)
  interfaces : info.interfaces = []
  base : ∀ base ∈ info.base, (image.type? base).isSome ∧
    ∀ entry ∈ image.type? base, entry.origin ≠ .builtin .void
  /-- The functions of one family return values, those of the other do not. -/
  invoke : ∀ definition ∈ info.origin.definition?,
    (definition = Platform.func →
      image.returnsVoid info.origin Closure.invokeName = false) ∧
    (definition = Platform.action →
      image.returnsVoid info.origin Closure.invokeName = true)
  /-- Mathematical routines and those on texts return values. -/
  routines : info.origin = .builtin .string ∨ info.origin = .builtin (.named Platform.math) →
    ∀ entry ∈ image.methodsOf info, entry.2.ret.isVoid = false

instance : Decidable (image.PlatformEntry info) :=
  decidable_of_iff' _ (platformEntry_iff image info)

theorem library_entries : ∀ info ∈ library.types, library.PlatformEntry info := by
  decide +kernel

/-! ### The same of every image -/

theorem Built.platform_method (built : image.Built) (isInfo : info ∈ image.types)
    (platform : info.origin ≠ .declared) (member : (handle, method) ∈ image.methodsOf info) :
    ∃ before, (handle, before) ∈ Image.library.methodsOf info ∧ before.Grows method := by
  obtain ⟨listed, found⟩ := mem_methodsOf.mp member
  have present := (library_entries info (built.platform info isInfo platform)).methodHandles handle listed
  obtain ⟨before, isBefore, grows⟩ := built.extends_library.methods.exists_before present found
  exact ⟨before, mem_methodsOf.mpr ⟨listed, isBefore⟩, grows⟩

theorem Built.platform_property (built : image.Built) (isInfo : info ∈ image.types)
    (platform : info.origin ≠ .declared) {handle : PropertyHandle} {property : PropertyInfo}
    (member : (handle, property) ∈ image.propertiesOf info) :
    (handle, property) ∈ Image.library.propertiesOf info := by
  obtain ⟨listed, found⟩ := mem_propertiesOf.mp member
  have present := (library_entries info (built.platform info isInfo platform)).propertyHandles handle listed
  obtain ⟨before, isBefore, rfl⟩ := built.extends_library.properties.exists_before present found
  exact mem_propertiesOf.mpr ⟨listed, isBefore⟩

/-- Methods of one name on a platform type return values, or none of them does. -/
theorem Built.isVoid_ret (built : image.Built) (isInfo : info ∈ image.types)
    (platform : info.origin ≠ .declared) (member : (handle, method) ∈ image.methodsOf info) :
    method.ret.isVoid = Image.library.returnsVoid info.origin method.name := by
  obtain ⟨before, isBefore, grows⟩ := built.platform_method isInfo platform member
  rw [grows.ret, grows.name]
  exact ((library_entries info (built.platform info isInfo platform)).methods _ isBefore).2.2

/-! ### Signatures -/

variable {name : Name} {sig : MemberSig}

variable (built : image.Built)
include built

/-- A type that is found on the platform stands for an entry of the library. -/
theorem Built.platformInfo? (found : image.platformInfo? owner = some info) :
    info ∈ image.types ∧ info.origin ≠ .declared ∧ info ∈ Image.library.types := by
  obtain ⟨isInfo, origin⟩ := mem_types_of_platformInfo? found
  have platform : info.origin ≠ .declared := by
    rcases origin with ⟨_, -, same⟩ | ⟨_, _, -, same⟩ <;> simp [same]
  exact ⟨isInfo, platform, built.platform info isInfo platform⟩

/-- Whether the call of a function returns a value. -/
theorem Built.isVoid_of_signature? (free : owner.isVoidFree = true)
    (found : image.platformInfo? owner = some info) {params : List SourceTy} {ret : SourceTy}
    (signature : owner.signature? = some (params, ret)) :
    ret.isVoid = Image.library.returnsVoid info.origin Closure.invokeName := by
  have inLibrary := (built.platformInfo? found).2.2
  cases owner with
  | generic definition args =>
      have isOrigin := Option.some.inj (origin?_of_platformInfo? found)
      have invoke := (library_entries info inLibrary).invoke definition (by rw [← isOrigin]; rfl)
      simp only [Ty.signature?] at signature
      split at signature
      · rename_i isFunc
        obtain ⟨last, isLast, same⟩ := Option.map_eq_some_iff.mp signature
        cases same
        rw [invoke.1 isFunc]
        exact Ty.isVoid_eq_false
          (Ty.areVoidFree_iff.mp free _ (List.mem_of_getLast? isLast))
      · split at signature
        · rename_i isAction
          cases signature
          rw [invoke.2 isAction]
          rfl
        · cases signature
  | _ => cases signature

/-- The signature of a platform method, and whether the method returns a value. -/
theorem Built.methodSigs_voidFree (free : owner.isVoidFree = true)
    (member : sig ∈ image.methodSigs owner name) :
    (∀ param ∈ sig.params, param.isVoidFree = true) ∧ sig.type.IsResult ∧
      ∀ origin ∈ owner.origin?, sig.type.isVoid = Image.library.returnsVoid origin name := by
  unfold methodSigs at member
  split at member
  · cases member
  · rename_i info found
    obtain ⟨isInfo, platform, inLibrary⟩ := built.platformInfo? found
    have isOrigin : ∀ origin ∈ owner.origin?, origin = info.origin := fun origin isOrigin =>
      Option.some.inj (isOrigin.symm.trans (origin?_of_platformInfo? found))
    split at member
    · rename_i generic
      split at member
      · rename_i isInvoke
        obtain ⟨⟨params, ret⟩, signature, rfl⟩ :=
          Option.map_eq_some_iff.mp (Option.mem_toList.mp member)
        obtain ⟨areFree, isResult⟩ := Ty.isResult_of_signature? free signature
        refine ⟨areFree, isResult, fun origin same => ?_⟩
        rw [isOrigin origin same, isInvoke]
        exact built.isVoid_of_signature? free found signature
      · cases member
    · obtain ⟨⟨handle, method⟩, present, rfl⟩ := List.mem_map.mp member
      obtain ⟨listed, isName⟩ := List.mem_filter.mp present
      obtain ⟨before, isBefore, grows⟩ := built.platform_method isInfo platform listed
      obtain ⟨areFree, isResult, -⟩ := (library_entries info inLibrary).methods _ isBefore
      refine ⟨?_, ?_, fun origin same => ?_⟩
      · intro param isParam
        obtain ⟨type, isType, rfl⟩ := List.mem_map.mp isParam
        rw [sourceTy, Ty.isVoidFree_mapKeys]
        exact areFree type (grows.params ▸ isType)
      · exact (grows.ret ▸ isResult : method.ret.IsResult).mapKeys _
      · rw [isOrigin origin same, ← beq_iff_eq.mp isName,
          ← built.isVoid_ret isInfo platform listed]
        exact Ty.isVoid_mapKeys _ _

/-- The accessors of a platform property: a getter returns a value, and a setter does
not. -/
theorem Built.propertySig?_voidFree (found : image.propertySig? owner name = some sig) :
    sig.type.isVoidFree = true ∧ ∀ origin ∈ owner.origin?,
      (image.methodSigs owner (getterName name) ≠ [] →
        Image.library.returnsVoid origin (getterName name) = false) ∧
      (image.methodSigs owner (setterName name) ≠ [] →
        Image.library.returnsVoid origin (setterName name) = true) := by
  obtain ⟨info, isInfo, found⟩ := Option.bind_eq_some_iff.mp found
  obtain ⟨⟨handle, property⟩, isProperty, same⟩ := Option.bind_eq_some_iff.mp found
  cases same
  obtain ⟨inImage, platform, inLibrary⟩ := built.platformInfo? isInfo
  have listed := List.mem_of_find?_eq_some isProperty
  have tested := List.find?_some isProperty
  have isName : property.name = name := beq_iff_eq.mp tested
  obtain ⟨free, accessors⟩ := (library_entries info inLibrary).properties _
    (built.platform_property inImage platform listed)
  have notGeneric : info.origin.isGeneric = false := by
    by_contra generic
    have entry := plainEntry_of_platformInfo? built.plainPlatform isInfo
    have none := entry.generic (by simpa using generic)
    simp [propertiesOf, none] at listed
  -- A signature of an accessor comes from a method of the library that has its name.
  have exists_method : ∀ {accessor : Name}, image.methodSigs owner accessor ≠ [] →
      ∃ entry ∈ Image.library.methodsOf info, entry.2.name = accessor := by
    intro accessor present
    obtain ⟨sig, isSig⟩ := List.exists_mem_of_ne_nil _ present
    simp only [methodSigs, isInfo, notGeneric, Bool.false_eq_true, if_false] at isSig
    obtain ⟨⟨other, method⟩, isMethod, -⟩ := List.mem_map.mp isSig
    obtain ⟨isListed, named⟩ := List.mem_filter.mp isMethod
    obtain ⟨before, isBefore, grows⟩ := built.platform_method inImage platform isListed
    exact ⟨_, isBefore, grows.name.symm.trans (beq_iff_eq.mp named)⟩
  refine ⟨(Ty.isVoidFree_mapKeys _ _).trans free, fun origin isOrigin => ?_⟩
  obtain rfl : info.origin = origin :=
    Option.some.inj ((origin?_of_platformInfo? isInfo).symm.trans isOrigin)
  dsimp only at accessors
  rw [isName] at accessors
  refine ⟨fun present => ?_, fun present => ?_⟩
  · obtain ⟨entry, isEntry, named⟩ := exists_method present
    exact (accessors entry isEntry).1 named
  · obtain ⟨entry, isEntry, named⟩ := exists_method present
    exact (accessors entry isEntry).2 named

theorem Built.fieldSig?_voidFree (free : owner.isVoidFree = true)
    (found : image.fieldSig? owner name = some sig) : sig.type.isVoidFree = true := by
  obtain ⟨info, isInfo, found⟩ := Option.bind_eq_some_iff.mp found
  obtain ⟨inImage, platform, inLibrary⟩ := built.platformInfo? isInfo
  rcases (mem_types_of_platformInfo? isInfo).2 with
    ⟨builtin, rfl, isOrigin⟩ | ⟨definition, args, rfl, isOrigin⟩ <;>
  rw [isOrigin] at found <;> dsimp only at found
  · split at found
    · cases found
    · obtain ⟨⟨handle, field⟩, isField, same⟩ := Option.bind_eq_some_iff.mp found
      cases same
      obtain ⟨listed, isEntry⟩ := mem_fieldsOf.mp (List.mem_of_find?_eq_some isField)
      obtain ⟨before, isBefore, grows⟩ := built.extends_library.fields.exists_before
        ((library_entries info inLibrary).fieldHandles handle listed) isEntry
      refine (Ty.isVoidFree_mapKeys _ _).trans ?_
      rw [grows.type]
      exact (library_entries info inLibrary).fields _ (mem_fieldsOf.mpr ⟨listed, isBefore⟩)
  · split at found
    · cases found
      cases args with
      | nil => rfl
      | cons first rest => exact Ty.areVoidFree_iff.mp free first List.mem_cons_self
    · cases found

theorem Built.ctorSigs_voidFree (free : owner.isVoidFree = true)
    (member : sig ∈ image.ctorSigs owner) : ∀ param ∈ sig.params, param.isVoidFree = true := by
  unfold ctorSigs at member
  split at member
  · cases member
  · rename_i info found
    obtain ⟨inImage, platform, inLibrary⟩ := built.platformInfo? found
    intro param isParam
    split at member
    · rename_i args _
      have areFree := Ty.areVoidFree_iff.mp free
      split at member
      · rcases List.mem_pair.mp member with rfl | rfl
        · exact areFree param isParam
        · cases isParam
      · obtain rfl := List.mem_singleton.mp member
        rcases List.mem_pair.mp isParam with rfl | rfl <;> rfl
    · obtain ⟨⟨handle, ctor⟩, present, rfl⟩ := List.mem_map.mp member
      obtain ⟨listed, isEntry⟩ := mem_ctorsOf.mp present
      obtain ⟨before, isBefore, grows⟩ := built.extends_library.ctors.exists_before
        ((library_entries info inLibrary).ctorHandles handle listed) isEntry
      obtain ⟨type, isType, rfl⟩ := List.mem_map.mp isParam
      refine (Ty.isVoidFree_mapKeys _ _).trans ?_
      exact (library_entries info inLibrary).ctors _ (mem_ctorsOf.mpr ⟨listed, isBefore⟩) type
        (grows.params ▸ isType)

/-- The supertypes of a platform type are types of values. -/
theorem Built.baseType?_voidFree {base : SourceTy} (found : image.baseType? owner = some base) :
    base.isVoidFree = true := by
  obtain ⟨info, isInfo, found⟩ := Option.bind_eq_some_iff.mp found
  split at found
  · cases found
  · obtain ⟨handle, isHandle, found⟩ := Option.bind_eq_some_iff.mp found
    obtain ⟨entry, isEntry, found⟩ := Option.bind_eq_some_iff.mp found
    split at found
    · rename_i builtin isOrigin
      cases found
      obtain ⟨inImage, platform, inLibrary⟩ := built.platformInfo? isInfo
      obtain ⟨present, noVoid⟩ := (library_entries info inLibrary).base handle isHandle
      obtain ⟨before, isBefore, grows⟩ :=
        built.extends_library.types.exists_before present isEntry
      have isBuiltin := noVoid before isBefore
      rw [← grows.origin, isOrigin] at isBuiltin
      cases builtin <;> first | rfl | exact (isBuiltin rfl).elim
    · cases found
      rfl

theorem Built.interfaceTypes_eq_nil : image.interfaceTypes owner = [] := by
  unfold interfaceTypes
  split
  · rfl
  · rename_i info found
    rw [(library_entries info (built.platformInfo? found).2.2).interfaces]
    rfl

end Image

end ClassForge
