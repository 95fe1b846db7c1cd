import ClassForge.Proofs.Code.Faults
import ClassForge.Proofs.Image.Platform
import ClassForge.Proofs.Typing.Declarations

/-!
# Where members are found

A member is found on a type at or above the one that the search starts from.  If
that type is declared, so is the member.  If it belongs to the platform, the
signature of the member mentions no declared types but those of its owner, and the
owner of a static member mentions none at all.
-/

namespace ClassForge

/-! ## Types above a type -/

/-- The base that a class has is `Object` or is written. -/
theorem TypeDecl.base_listed (decl : TypeDecl) :
    decl.base.getD .object = .object ∨
      decl.base.getD .object ∈ decl.base.toList ++ decl.interfaces := by
  cases decl.base <;> simp

/-- What the platform has above a type is an entry for a plain type, or `Object`. -/
theorem Image.builtin_above {image : Image} {lower upper : SourceTy}
    (above : upper ∈ (image.baseType? lower).toList ++ image.interfaceTypes lower) :
    upper = .object ∨ ∃ entry ∈ image.types, ∃ builtin, entry.origin = .builtin builtin ∧
      upper = .builtin builtin := by
  rcases List.mem_append.mp above with isBase | listed
  · obtain ⟨info, -, isBase⟩ := Option.bind_eq_some_iff.mp (Option.mem_toList.mp isBase)
    split at isBase
    · cases isBase
    · obtain ⟨handle, -, isBase⟩ := Option.bind_eq_some_iff.mp isBase
      obtain ⟨entry, isEntry, isBase⟩ := Option.bind_eq_some_iff.mp isBase
      split at isBase <;> cases isBase
      · exact .inr ⟨entry, Array.mem_of_getElem? isEntry, _, ‹_›, rfl⟩
      · exact .inl rfl
  · unfold interfaceTypes at listed
    split at listed
    · cases listed
    · obtain ⟨handle, -, found⟩ := List.mem_filterMap.mp listed
      obtain ⟨entry, isEntry, found⟩ := Option.bind_eq_some_iff.mp found
      split at found <;> cases found
      exact .inr ⟨entry, Array.mem_of_getElem? isEntry, _, ‹_›, rfl⟩

namespace TypeContext

/-- How a type comes to be directly above another one. -/
inductive Above (context : TypeContext) : SourceTy → SourceTy → Prop where
  | base {name : Name} {decl : TypeDecl} (found : context.symbols.type? name = some decl)
      (isClass : ¬(decl.attrs.isValueType || decl.attrs.isInterface) = true) :
      Above context (.declared name) (decl.base.getD .object)
  | interface {name : Name} {decl : TypeDecl} {upper : SourceTy}
      (found : context.symbols.type? name = some decl) (listed : upper ∈ decl.interfaces) :
      Above context (.declared name) upper
  | array (element : SourceTy) : Above context (.array element) .object
  | platform {lower upper : SourceTy}
      (above : upper ∈ (context.image.baseType? lower).toList ++
        context.image.interfaceTypes lower) :
      Above context lower upper

variable {context : TypeContext} {holds : SourceTy → Prop}

theorem above_of_mem_supertypes {lower upper : SourceTy}
    (above : upper ∈ context.supertypes lower) : context.Above lower upper := by
  rcases List.mem_append.mp above with isBase | listed
  · have isBase := Option.mem_toList.mp isBase
    unfold base? at isBase
    split at isBase
    · obtain ⟨decl, found, isBase⟩ := Option.bind_eq_some_iff.mp isBase
      split at isBase <;> cases isBase
      exact .base found ‹_›
    · cases isBase
      exact .array _
    · cases isBase
    · cases isBase
    · exact .platform (List.mem_append_left _ (Option.mem_toList.mpr isBase))
  · unfold interfaces at listed
    split at listed
    · rename_i name
      cases found : context.symbols.type? name with
      | none => simp [found] at listed
      | some decl =>
          rw [found] at listed
          exact .interface found listed
    · cases listed
    · exact .platform (List.mem_append_right _ listed)

theorem climb_all
    (upwards : ∀ type, holds type → ∀ base, context.base? type = some base → holds base)
    {steps : Nat} {chain : List SourceTy} {last : SourceTy} (lastHolds : holds last)
    (chainHolds : ∀ type ∈ chain, holds type) :
    ∀ type ∈ context.climb steps chain last, holds type := by
  induction steps generalizing chain last with
  | zero => exact chainHolds
  | succ steps ih =>
      rw [climb]
      split
      · exact chainHolds
      · rename_i base isBase
        have baseHolds : holds base := upwards last lastHolds base isBase
        split
        · exact chainHolds
        · refine ih baseHolds fun type member => ?_
          rcases List.mem_append.mp member with early | late
          · exact chainHolds type early
          · exact List.mem_singleton.mp late ▸ baseHolds

/-- What holds of a type and is passed on to bases holds along its base chain. -/
theorem baseChain_all_bases
    (upwards : ∀ type, holds type → ∀ base, context.base? type = some base → holds base)
    {start : SourceTy}
    (startHolds : holds start) :
    ∀ type ∈ context.baseChain start, holds type :=
  climb_all upwards startHolds fun _ member => List.mem_singleton.mp member ▸ startHolds

variable (upwards : ∀ type, holds type → ∀ above ∈ context.supertypes type, holds above)
include upwards

/-- What holds of a type and is passed on to supertypes holds along its base chain. -/
theorem baseChain_all {start : SourceTy} (startHolds : holds start) :
    ∀ type ∈ context.baseChain start, holds type :=
  baseChain_all_bases (fun type typeHolds base isBase =>
    upwards type typeHolds base (by simp [supertypes, isBase])) startHolds

theorem spread_all {steps : Nat} {seen frontier : List SourceTy}
    (seenHolds : ∀ type ∈ seen, holds type) (frontierHolds : ∀ type ∈ frontier, holds type) :
    ∀ type ∈ context.spread steps seen frontier, holds type := by
  induction steps generalizing seen frontier with
  | zero => exact seenHolds
  | succ steps ih =>
      have freshHolds : ∀ type ∈ ((frontier.flatMap context.supertypes).filter
          fun type => !seen.contains type).eraseDups, holds type := by
        intro type member
        rw [List.mem_eraseDups] at member
        obtain ⟨lower, present, above⟩ := List.mem_flatMap.mp (List.mem_of_mem_filter member)
        exact upwards lower (frontierHolds lower present) type above
      rw [spread]
      split
      · exact seenHolds
      · refine ih (fun type member => ?_) freshHolds
        exact (List.mem_append.mp member).elim (seenHolds type) (freshHolds type)

theorem withAncestors_all {types : List SourceTy} (startHold : ∀ type ∈ types, holds type) :
    ∀ type ∈ context.withAncestors types, holds type :=
  spread_all upwards startHold startHold

end TypeContext

/-! ## Signatures of the platform -/

theorem Ty.mentions_mapKeys_eq_nil {κ μ : Type} (replace : κ → μ) (type : Ty κ)
    (none : type.mentions = []) : (type.mapKeys replace).mentions = [] := by
  suffices (type.mapKeys replace).mentions = type.mentions.map replace by
    rw [this, none]
    rfl
  exact mentions_mapKeys type
where
  mentions_mapKeys (type : Ty κ) :
      (type.mapKeys replace).mentions = type.mentions.map replace := by
    cases type with
    | builtin => rfl
    | declared => rfl
    | array element => exact mentions_mapKeys element
    | generic definition args => exact mentions_mapKeysList args
  mentions_mapKeysList (types : List (Ty κ)) :
      Ty.mentionsList (Ty.mapKeysList replace types) = (Ty.mentionsList types).map replace := by
    cases types with
    | nil => rfl
    | cons type types =>
        simp only [Ty.mapKeysList, Ty.mentionsList, List.map_append]
        rw [mentions_mapKeys type, mentions_mapKeysList types]

namespace Image

variable {image : Image} {owner : SourceTy} {info : TypeInfo}
variable {sig : MemberSig}

/-- The entry of a platform type is one of the image and stands for that type. -/
theorem mem_types_of_platformInfo? (found : image.platformInfo? owner = some info) :
    info ∈ image.types ∧
      ((∃ builtin, owner = .builtin builtin ∧ info.origin = .builtin builtin) ∨
        ∃ definition args, owner = .generic definition args ∧
          info.origin = .generic definition args.length) := by
  obtain ⟨handle, isHandle, present⟩ := Option.bind_eq_some_iff.mp found
  refine ⟨Array.mem_of_getElem? present, ?_⟩
  have ofFind : ∀ {test : TypeInfo → Bool}, image.findType? test = some handle →
      test info = true := by
    intro test isFound
    obtain ⟨index, isIndex, rfl⟩ := Option.map_eq_some_iff.mp isFound
    obtain ⟨inBounds, holds, -⟩ := Array.findIdx?_eq_some_iff_getElem.mp isIndex
    obtain ⟨_, same⟩ := Array.getElem?_eq_some_iff.mp present
    rwa [same] at holds
  cases owner with
  | builtin builtin => exact .inl ⟨builtin, rfl, by simpa using ofFind isHandle⟩
  | generic definition args => exact .inr ⟨definition, args, rfl, by simpa using ofFind isHandle⟩
  | declared => cases isHandle
  | array => cases isHandle

theorem plainEntry_of_platformInfo? (plain : image.PlainPlatform)
    (found : image.platformInfo? owner = some info) : image.PlainEntry info := by
  obtain ⟨member, origin⟩ := mem_types_of_platformInfo? found
  refine plain info member ?_
  rcases origin with ⟨_, -, isOrigin⟩ | ⟨_, _, -, isOrigin⟩ <;> simp [isOrigin]

/-- The parameters of some platform method mention nothing that its owner does not
mention, and the owner of a static one mentions nothing. -/
theorem mentions_of_mem_methodSigs (plain : image.PlainPlatform) {name : Name}
    (member : sig ∈ image.methodSigs owner name) :
    (∀ param ∈ sig.params, ∀ key ∈ param.mentions, key ∈ owner.mentions) ∧
      (sig.isInstance = false → owner.mentions = []) := by
  unfold methodSigs at member
  split at member
  · cases member
  · rename_i info found
    have entry := plainEntry_of_platformInfo? plain found
    have origin := (mem_types_of_platformInfo? found).2
    split at member
    · split at member
      · obtain ⟨⟨params, ret⟩, signature, rfl⟩ :=
          Option.map_eq_some_iff.mp (Option.mem_toList.mp member)
        refine ⟨?_, fun isStatic => by cases isStatic⟩
        exact fun param isParam key mentioned =>
          Ty.mem_mentions_of_signature? signature isParam mentioned
      · cases member
    · rename_i notGeneric
      obtain ⟨⟨handle, method⟩, present, rfl⟩ := List.mem_map.mp member
      refine ⟨?_, fun _ => ?_⟩
      · intro param isParam key mentioned
        obtain ⟨listed, isListed, found⟩ :=
          List.mem_filterMap.mp (List.mem_of_mem_filter present)
        obtain ⟨method, isMethod, same⟩ := Option.map_eq_some_iff.mp found
        cases same
        obtain ⟨other, isOther, mentions⟩ := entry.methods _ isListed
        rw [isMethod] at isOther
        cases isOther
        obtain ⟨type, isType, rfl⟩ := List.mem_map.mp isParam
        rw [sourceTy, Ty.mentions_mapKeys_eq_nil _ _ (mentions type isType)] at mentioned
        cases mentioned
      · rcases origin with ⟨builtin, rfl, -⟩ | ⟨definition, args, -, isOrigin⟩
        · rfl
        · simp [isOrigin, Origin.isGeneric] at notGeneric

/-- The parameters of a platform constructor mention nothing that its owner does not
mention. -/
theorem mentions_of_mem_ctorSigs (plain : image.PlainPlatform)
    (member : sig ∈ image.ctorSigs owner) :
    ∀ param ∈ sig.params, ∀ key ∈ param.mentions, key ∈ owner.mentions := by
  unfold ctorSigs at member
  split at member
  · cases member
  · rename_i info found
    have entry := plainEntry_of_platformInfo? plain found
    intro param isParam key mentioned
    split at member
    · rename_i args _
      have ofArgs : param ∈ args → key ∈ Ty.mentionsList args := fun isArg =>
        Ty.mem_mentionsList.mpr ⟨param, isArg, mentioned⟩
      split at member
      · rcases List.mem_pair.mp member with rfl | rfl
        · exact ofArgs isParam
        · cases isParam
      · obtain rfl := List.mem_singleton.mp member
        rcases List.mem_pair.mp isParam with rfl | rfl <;> cases mentioned
    · obtain ⟨⟨handle, ctor⟩, present, rfl⟩ := List.mem_map.mp member
      obtain ⟨listed, isListed, found⟩ := List.mem_filterMap.mp present
      obtain ⟨ctor, isCtor, same⟩ := Option.map_eq_some_iff.mp found
      cases same
      obtain ⟨other, isOther, mentions⟩ := entry.ctors _ isListed
      rw [isCtor] at isOther
      cases isOther
      obtain ⟨type, isType, rfl⟩ := List.mem_map.mp isParam
      rw [sourceTy, Ty.mentions_mapKeys_eq_nil _ _ (mentions type isType)] at mentioned
      cases mentioned

/-- The owner of a static platform field mentions no declared types. -/
theorem mentions_of_fieldSig? {name : Name} (found : image.fieldSig? owner name = some sig)
    (isStatic : sig.isInstance = false) : owner.mentions = [] := by
  obtain ⟨info, isInfo, found⟩ := Option.bind_eq_some_iff.mp found
  rcases (mem_types_of_platformInfo? isInfo).2 with
    ⟨builtin, rfl, -⟩ | ⟨definition, args, rfl, isOrigin⟩
  · rfl
  · rw [isOrigin] at found
    dsimp only at found
    split at found
    · cases found
      cases isStatic
    · cases found

/-- A platform property and its owner mention no declared types. -/
theorem mentions_of_propertySig? (plain : image.PlainPlatform) {name : Name}
    (found : image.propertySig? owner name = some sig) :
    owner.mentions = [] ∧ sig.type.mentions = [] := by
  obtain ⟨info, isInfo, found⟩ := Option.bind_eq_some_iff.mp found
  obtain ⟨⟨handle, property⟩, isProperty, same⟩ := Option.bind_eq_some_iff.mp found
  cases same
  have entry := plainEntry_of_platformInfo? plain isInfo
  obtain ⟨listed, isListed, found⟩ :=
    List.mem_filterMap.mp (List.mem_of_find?_eq_some isProperty)
  obtain ⟨property, isMember, same⟩ := Option.map_eq_some_iff.mp found
  cases same
  constructor
  · rcases (mem_types_of_platformInfo? isInfo).2 with
      ⟨builtin, rfl, -⟩ | ⟨definition, args, rfl, isOrigin⟩
    · rfl
    · rw [entry.generic (by rw [isOrigin]; rfl)] at isListed
      cases isListed
  · obtain ⟨other, isOther, mentions⟩ := entry.properties _ isListed
    rw [isMember] at isOther
    cases isOther
    exact Ty.mentions_mapKeys_eq_nil _ _ mentions

end Image

/-! ## Members that were found -/

/-- A key under which something is declared. -/
def Symbols.Declares (symbols : Symbols) (key : Key) : Prop :=
  ∃ decl, (key, decl) ∈ symbols.entries

/-- A member was found on a type.  One of a declared type is declared; one of a
platform type mentions nothing that the type does not mention. -/
structure FoundOn (context : TypeContext) (type : SourceTy) (key? : Option Key)
    (isStatic : Bool) (params : List SourceTy) : Prop where
  declared : ∀ key ∈ key?, context.symbols.Declares key
  params : key? = none → ∀ param ∈ params, ∀ name ∈ param.mentions, name ∈ type.mentions
  static : key? = none → isStatic = true → type.mentions = []

/-- The declarations that the checker reads off a symbol agree with its key. -/
structure Symbols.Coherent (symbols : Symbols) : Prop where
  field : ∀ {key : FieldKey} {decl : FieldDecl},
    (Key.field key, Declaration.field decl) ∈ symbols.entries → key.type = decl.type
  getter : ∀ {key : PropertyKey} {decl : PropertyDecl},
    (Key.property key, Declaration.property decl) ∈ symbols.entries → decl.hasGetter = true →
      symbols.Declares (.method ⟨key.owner, getterName key.name, !decl.isStatic, []⟩)
  setter : ∀ {key : PropertyKey} {decl : PropertyDecl},
    (Key.property key, Declaration.property decl) ∈ symbols.entries → decl.hasSetter = true →
      symbols.Declares (.method ⟨key.owner, setterName key.name, !decl.isStatic, [decl.type]⟩)

theorem Module.Accepted.coherent {module : Module} {image : Image} {context : TypeContext}
    {program : Program} (accepted : module.Accepted image context program) :
    context.symbols.Coherent := by
  have declares : ∀ {cls key decl}, cls ∈ module.classes → (key, decl) ∈ cls.declarations →
      context.symbols.Declares key := by
    intro cls key decl member declared
    refine ⟨decl, ?_⟩
    rw [Symbols.ofModule_entries accepted.symbols]
    exact List.mem_flatMap.mpr ⟨cls, member, declared⟩
  refine ⟨?_, ?_, ?_⟩
  · intro key decl entry
    obtain ⟨cls, -, declared⟩ := accepted.mem_entries entry
    obtain ⟨field, -, rfl, rfl⟩ := ClassDef.of_mem_field declared
    rfl
  · intro key decl entry hasGetter
    obtain ⟨cls, member, declared⟩ := accepted.mem_entries entry
    obtain ⟨_, -, -, getter, -⟩ := ClassDef.of_mem_property declared
    obtain ⟨_, isDeclared⟩ := getter hasGetter
    exact declares member isDeclared
  · intro key decl entry hasSetter
    obtain ⟨cls, member, declared⟩ := accepted.mem_entries entry
    obtain ⟨_, -, -, -, setter⟩ := ClassDef.of_mem_property declared
    obtain ⟨_, isDeclared⟩ := setter hasSetter
    exact declares member isDeclared

theorem Ty.eq_declared {κ : Type} {type : Ty κ} {key : κ} (found : type.declared? = some key) :
    type = .declared key := by
  cases type <;> cases found
  rfl

namespace TypeContext

variable {context : TypeContext} {type : SourceTy} {name : Name}
variable {callee : Callee} {property : PropertyTarget} {owner : SourceTy}
variable {field : FieldTarget} {isStatic : Bool}

theorem ownField?_foundOn (coherent : context.symbols.Coherent)
    (found : context.ownField? name type = some field) :
    field.owner = type ∧ FoundOn context type (field.key?.map .field) field.isStatic [] := by
  cases isDeclared : type.declared? with
  | some owner =>
      obtain rfl := Ty.eq_declared isDeclared
      obtain ⟨⟨key, decl⟩, present, rfl⟩ := Option.map_eq_some_iff.mp found
      obtain ⟨entry, rfl, rfl⟩ := Symbols.mem_of_fieldNamed? present
      refine ⟨rfl, ?_, by simp, by simp [FieldTarget.key?, Ty.declared?]⟩
      rintro _ ⟨⟩
      refine ⟨.field decl, ?_⟩
      dsimp only
      rw [← coherent.field entry]
      exact entry
  | none =>
      have ofImage : context.ownField? name type =
          (context.image.fieldSig? type name).map fun sig =>
            { owner := type, name, type := sig.type, isStatic := !sig.isInstance } := by
        cases type <;> first | rfl | cases isDeclared
      rw [ofImage] at found
      obtain ⟨sig, present, rfl⟩ := Option.map_eq_some_iff.mp found
      refine ⟨rfl, by simp [FieldTarget.key?, isDeclared], by simp, ?_⟩
      intro _ isStatic
      exact Image.mentions_of_fieldSig? present (by simpa using isStatic)

theorem ownMethods_foundOn (plain : context.image.PlainPlatform)
    (found : callee ∈ context.ownMethods name type) :
    callee.owner = type ∧
      FoundOn context type (callee.methodKey?.map .method) (!callee.isInstance)
        callee.params := by
  cases isDeclared : type.declared? with
  | some owner =>
      obtain rfl := Ty.eq_declared isDeclared
      obtain ⟨⟨key, decl⟩, present, rfl⟩ := List.mem_map.mp found
      obtain ⟨entry, rfl, rfl⟩ := Symbols.mem_methodsNamed present
      refine ⟨rfl, ?_, by simp [Callee.methodKey?, Ty.declared?], by
        simp [Callee.methodKey?, Ty.declared?]⟩
      rintro _ ⟨⟩
      exact ⟨_, entry⟩
  | none =>
      have ofImage : context.ownMethods name type =
          (context.image.methodSigs type name).map fun sig =>
            { owner := type, name, isInstance := sig.isInstance, isVirtual := sig.isVirtual,
              params := sig.params, ret := sig.type } := by
        cases type <;> first | rfl | cases isDeclared
      rw [ofImage] at found
      obtain ⟨sig, present, rfl⟩ := List.mem_map.mp found
      obtain ⟨params, static⟩ := Image.mentions_of_mem_methodSigs plain present
      refine ⟨rfl, by simp [Callee.methodKey?, isDeclared], fun _ => params, ?_⟩
      exact fun _ isStatic => static (by simpa using isStatic)

theorem ownProperty?_foundOn (coherent : context.symbols.Coherent)
    (plain : context.image.PlainPlatform) (found : context.ownProperty? name type = some property) :
    property.owner = type ∧
      (property.hasGetter = true →
        FoundOn context type (property.getter.methodKey?.map .method) property.isStatic []) ∧
      (property.hasSetter = true →
        FoundOn context type (property.setter.methodKey?.map .method) property.isStatic
          [property.type]) := by
  cases isDeclared : type.declared? with
  | some owner =>
      obtain rfl := Ty.eq_declared isDeclared
      obtain ⟨⟨key, decl⟩, present, rfl⟩ := Option.map_eq_some_iff.mp found
      obtain ⟨entry, rfl, rfl⟩ := Symbols.mem_of_propertyNamed? present
      refine ⟨rfl, fun hasGetter => ⟨?_, ?_, ?_⟩, fun hasSetter => ⟨?_, ?_, ?_⟩⟩
      · rintro _ ⟨⟩
        exact coherent.getter entry hasGetter
      · simp
      · simp [Callee.methodKey?, PropertyTarget.getter, Ty.declared?]
      · rintro _ ⟨⟩
        exact coherent.setter entry hasSetter
      · simp [Callee.methodKey?, PropertyTarget.setter, Ty.declared?]
      · simp [Callee.methodKey?, PropertyTarget.setter, Ty.declared?]
  | none =>
      have ofImage : context.ownProperty? name type =
          (context.image.propertySig? type name).map fun sig =>
            { owner := type, name, type := sig.type, isStatic := !sig.isInstance
              hasGetter := !(context.image.methodSigs type (getterName name)).isEmpty
              hasSetter := !(context.image.methodSigs type (setterName name)).isEmpty } := by
        cases type <;> first | rfl | cases isDeclared
      rw [ofImage] at found
      obtain ⟨sig, present, rfl⟩ := Option.map_eq_some_iff.mp found
      obtain ⟨ownerPlain, typePlain⟩ := Image.mentions_of_propertySig? plain present
      refine ⟨rfl, fun _ => ⟨?_, by simp, fun _ _ => ownerPlain⟩,
        fun _ => ⟨?_, ?_, fun _ _ => ownerPlain⟩⟩
      · simp [Callee.methodKey?, PropertyTarget.getter, isDeclared]
      · simp [Callee.methodKey?, PropertyTarget.setter, isDeclared]
      · simp [typePlain]

theorem ctorCandidates_foundOn (plain : context.image.PlainPlatform)
    (found : callee ∈ context.ctorCandidates type) :
    callee.owner = type ∧
      FoundOn context type (callee.ctorKey?.map .ctor) false callee.params := by
  obtain ⟨params, isParams, rfl⟩ := List.mem_map.mp found
  refine ⟨rfl, ?_⟩
  cases isDeclared : type.declared? with
  | some owner =>
      obtain rfl := Ty.eq_declared isDeclared
      obtain ⟨⟨key, decl⟩, present, rfl⟩ := List.mem_map.mp isParams
      obtain ⟨entry, rfl⟩ := Symbols.mem_ctorsOf present
      refine ⟨?_, by simp [Callee.ctorKey?, Ty.declared?], by simp⟩
      rintro _ ⟨⟩
      exact ⟨_, entry⟩
  | none =>
      refine ⟨by simp [Callee.ctorKey?, isDeclared], ?_, by simp⟩
      intro _ param isParam key mentioned
      have ofImage : params ∈ (context.image.ctorSigs type).map MemberSig.params := by
        cases type <;> first | exact isParams | cases isDeclared
      obtain ⟨sig, present, rfl⟩ := List.mem_map.mp ofImage
      exact Image.mentions_of_mem_ctorSigs plain present param isParam key mentioned

/-! ## Searches -/

theorem mem_of_mem_dropHidden {callees : List Callee} (member : callee ∈ dropHidden callees) :
    callee ∈ callees := by
  have kept : ∀ (rest start : List Callee),
      callee ∈ rest.foldl (fun kept callee =>
        if kept.any fun other => other.params == callee.params then kept
        else kept ++ [callee]) start → callee ∈ start ∨ callee ∈ rest := by
    intro rest
    induction rest with
    | nil => exact fun start member => .inl member
    | cons next rest ih =>
        intro start member
        rw [List.foldl_cons] at member
        rcases ih _ member with early | late
        · split at early
          · exact .inl early
          · rcases List.mem_append.mp early with first | last
            · exact .inl first
            · exact .inr (List.mem_singleton.mp last ▸ List.mem_cons_self)
        · exact .inr (List.mem_cons_of_mem _ late)
  exact (kept callees [] member).resolve_left (by simp)

theorem accessField_eq_ok (found : context.accessField owner name isStatic = .ok field) :
    ∃ type ∈ context.baseChain owner, context.ownField? name type = some field ∧
      field.isStatic = isStatic := by
  simp only [accessField, bind_eq_ok] at found
  obtain ⟨other, isFound, same⟩ := found
  split at same
  · rename_i agrees
    cases same
    unfold findField at isFound
    split at isFound
    · rename_i first
      cases isFound
      obtain ⟨type, member, own⟩ := List.exists_of_findSome?_eq_some first
      exact ⟨type, member, own, by simpa using agrees⟩
    · cases isFound
  · cases same

theorem findProperty_eq_ok (found : context.findProperty owner name = .ok property) :
    ∃ type ∈ context.baseChain owner, context.ownProperty? name type = some property := by
  unfold findProperty at found
  split at found
  · rename_i first
    cases found
    exact List.exists_of_findSome?_eq_some first
  · cases found

theorem accessGetter_eq_ok {getter : Callee}
    (found : context.accessGetter owner name isStatic = .ok getter) :
    ∃ property, ∃ type ∈ context.baseChain owner,
      context.ownProperty? name type = some property ∧ property.isStatic = isStatic ∧
        property.hasGetter = true ∧ getter = property.getter := by
  simp only [accessGetter, bind_eq_ok] at found
  obtain ⟨property, isFound, same⟩ := found
  split at same
  · rename_i agrees
    cases same
    obtain ⟨type, member, own⟩ := findProperty_eq_ok isFound
    simp only [Bool.and_eq_true, beq_iff_eq] at agrees
    exact ⟨property, type, member, own, agrees.2, agrees.1, rfl⟩
  · cases same

theorem accessSetter_eq_ok (found : context.accessSetter owner name isStatic = .ok property) :
    ∃ type ∈ context.baseChain owner,
      context.ownProperty? name type = some property ∧ property.isStatic = isStatic ∧
        property.hasSetter = true := by
  simp only [accessSetter, bind_eq_ok] at found
  obtain ⟨other, isFound, same⟩ := found
  split at same
  · rename_i agrees
    cases same
    obtain ⟨type, member, own⟩ := findProperty_eq_ok isFound
    simp only [Bool.and_eq_true, beq_iff_eq] at agrees
    exact ⟨type, member, own, agrees.2, agrees.1⟩
  · cases same

/-- A method that a call can mean is one of the methods of a type at or above the one
that the search starts from. -/
theorem mem_methodCandidates {holds : SourceTy → Prop} {isInstance : Bool}
    (upwards : ∀ type, holds type → ∀ above ∈ context.supertypes type, holds above)
    (member : callee ∈ context.methodCandidates owner name isInstance) :
    callee.isInstance = isInstance ∧
      ∃ type, (holds owner → holds type) ∧ callee ∈ context.ownMethods name type := by
  have kept := mem_of_mem_dropHidden member
  obtain ⟨present, agrees⟩ := List.mem_filter.mp kept
  obtain ⟨type, isType, own⟩ := List.mem_flatMap.mp present
  refine ⟨by simpa using agrees, type, fun ownerHolds => ?_, own⟩
  have chainHolds := baseChain_all upwards ownerHolds
  split at isType
  · exact withAncestors_all upwards chainHolds type isType
  · exact chainHolds type isType

end TypeContext

end ClassForge
