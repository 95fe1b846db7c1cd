import ClassForge.Proofs.Code.PlacedLabels

/-!
# Types that exist

A program may mention any type, but a type without an entry cannot be declared with.  A type is known
to an image, together with some names of classes, when every platform type in it has an entry and
every class in it has one of the names.  Functions of known types are of a known type as long as the
platform has a function type for so many parameters.
-/

namespace ClassForge

variable {params : List SourceTy}
variable {args : List SourceTy} {ret : SourceTy}

/-- What a function type is made of. -/
theorem Ty.eq_of_signature? {κ : Type} {type ret : Ty κ} {params : List (Ty κ)}
    (signature : type.signature? = some (params, ret)) :
    type = .generic Platform.func (params ++ [ret]) ∨
      (type = .generic Platform.action params ∧ ret = .void) := by
  cases type with
  | builtin | declared | array => cases signature
  | generic definition args =>
      rw [Ty.signature?] at signature
      split at signature
      · rename_i isFunc
        obtain ⟨last, isLast, ⟨⟩⟩ := Option.map_eq_some_iff.mp signature
        rw [isFunc, List.dropLast_append_getLast? _ isLast]
        exact .inl rfl
      · split at signature
        · rename_i isAction
          cases signature
          exact .inr ⟨by rw [isAction], rfl⟩
        · cases signature

namespace Image

variable {replace : Name → Except Diagnostic TypeHandle}

/-! ## Known types -/

section

variable (image : Image) (names : List Name)

mutual

/-- Whether the image has an entry for each platform type in a type, and the classes in it have
some names. -/
def knows : SourceTy → Bool
  | .builtin builtin => (image.builtin? builtin).isSome
  | .generic definition args =>
      (image.generic? definition args.length).isSome && knowsAll args
  | .declared name => names.contains name
  | .array element => knows element
termination_by structural type => type

/-- Whether each type of a list is known. -/
def knowsAll : List SourceTy → Bool
  | [] => true
  | type :: types => knows type && knowsAll types
termination_by structural types => types

end

end

variable {image extended : Image} {names : List Name}

theorem knowsAll_iff {types : List SourceTy} :
    image.knowsAll names types = true ↔ ∀ type ∈ types, image.knows names type = true := by
  induction types with
  | nil => simp [knowsAll]
  | cons type types ih => simp [knowsAll, ih]

theorem knows_generic_iff {definition : Name} :
    image.knows names (.generic definition args) = true ↔
      (image.generic? definition args.length).isSome = true ∧
        ∀ type ∈ args, image.knows names type = true := by
  rw [knows, Bool.and_eq_true, knowsAll_iff]

/-- A known type that is given a handle for each of its classes can be declared with. -/
theorem checkTy_of_knows
    (leads : ∀ name handle, replace name = .ok handle → (image.type? handle).isSome = true)
    (type : SourceTy) {resolved : RunTy} (known : image.knows names type = true)
    (done : type.resolve replace = .ok resolved) : image.checkTy resolved = .ok () := by
  induction type using Ty.induct generalizing resolved with
  | builtin builtin =>
      cases done
      obtain ⟨handle, isHandle⟩ := Option.isSome_iff_exists.mp known
      have found : image.handleOf (.builtin builtin) = .ok handle := handleOf_eq_ok.mpr isHandle
      simp [checkTy, found, discard, Functor.discard, Functor.mapConst, Except.map]
  | generic definition args ih =>
      obtain ⟨results, areArgs, ⟨⟩⟩ := bind_eq_ok.mp done
      obtain ⟨exists', each⟩ := knows_generic_iff.mp known
      obtain ⟨handle, isHandle⟩ := Option.isSome_iff_exists.mp exists'
      rw [← Ty.length_of_resolveList areArgs] at isHandle
      have found : image.handleOf (.generic definition results) = .ok handle :=
        handleOf_eq_ok.mpr isHandle
      have rest : image.checkTys results = .ok () := checkTys_eq_ok.mpr fun result isResult => by
        obtain ⟨arg, isArg, done⟩ :=
          exists_related_left (Ty.resolveList_eq_ok.mp areArgs) isResult
        exact ih arg isArg (each arg isArg) done
      simp [checkTy, found, rest, discard, Functor.discard, Functor.mapConst, Except.map,
        bind, Except.bind]
  | declared name =>
      obtain ⟨handle, isHandle, ⟨⟩⟩ := bind_eq_ok.mp done
      obtain ⟨info, isInfo⟩ := Option.isSome_iff_exists.mp (leads name handle isHandle)
      have found : image.handleOf (.declared handle) = .ok handle :=
        handleOf_eq_ok.mpr (Option.map_eq_some_iff.mpr ⟨info, isInfo, rfl⟩)
      simp [checkTy, found, discard, Functor.discard, Functor.mapConst, Except.map]
  | array element ih =>
      obtain ⟨inner, isInner, ⟨⟩⟩ := bind_eq_ok.mp done
      have there : image.checkTy inner = .ok () := ih known isInner
      exact there

/-- Known types that are given handles can be declared with. -/
theorem checkTys_of_knows
    (leads : ∀ name handle, replace name = .ok handle → (image.type? handle).isSome = true)
    (types : List SourceTy) {resolved : List RunTy}
    (known : ∀ type ∈ types, image.knows names type = true)
    (done : Ty.resolveList replace types = .ok resolved) : image.checkTys resolved = .ok () := by
  refine checkTys_eq_ok.mpr fun result isResult => ?_
  obtain ⟨type, isType, done⟩ := exists_related_left (Ty.resolveList_eq_ok.mp done) isResult
  exact checkTy_of_knows leads type (known type isType) done

/-- What is known stays known. -/
theorem knows_mono (growth : image.Extends extended) (type : SourceTy)
    (known : image.knows names type = true) : extended.knows names type = true := by
  induction type using Ty.induct with
  | builtin builtin =>
      obtain ⟨handle, isHandle⟩ := Option.isSome_iff_exists.mp known
      have later : extended.builtin? builtin = some handle :=
        growth.findType? (fun _ _ grows => by rw [grows.origin]) isHandle
      exact Option.isSome_iff_exists.mpr ⟨handle, later⟩
  | generic definition args ih =>
      obtain ⟨exists', each⟩ := knows_generic_iff.mp known
      obtain ⟨handle, isHandle⟩ := Option.isSome_iff_exists.mp exists'
      have later : extended.generic? definition args.length = some handle :=
        growth.findType? (fun _ _ grows => by rw [grows.origin]) isHandle
      exact knows_generic_iff.mpr ⟨Option.isSome_iff_exists.mpr ⟨handle, later⟩,
        fun arg isArg => ih arg isArg (each arg isArg)⟩
  | declared name => exact known
  | array element ih => exact ih known

/-- The classes in a known type have the names. -/
theorem mem_of_knows {name : Name} (type : SourceTy) (known : image.knows names type = true)
    (mentioned : name ∈ type.mentions) : name ∈ names := by
  induction type using Ty.induct with
  | builtin builtin => cases mentioned
  | generic definition args ih =>
      obtain ⟨arg, isArg, mentioned⟩ := Ty.mem_mentionsList.mp mentioned
      exact ih arg isArg ((knows_generic_iff.mp known).2 arg isArg) mentioned
  | declared key =>
      obtain rfl := List.mem_singleton.mp mentioned
      exact List.contains_iff_mem.mp known
  | array element ih => exact ih known mentioned

/-! ## Types of the platform -/

/-- The library has the types of values, and function types for up to eight parameters. -/
theorem library_knows : (library.builtin? .void).isSome = true ∧
    (∀ prim ∈ Prim.all, (library.builtin? (.prim prim)).isSome = true) ∧
    ∀ count < Library.maxDelegateArity,
      (library.generic? Platform.action count).isSome = true ∧
        (library.generic? Platform.func (count + 1)).isSome = true := by
  decide +kernel

section Platform

variable (built : image.Built)
include built

theorem Built.knows_builtin (builtin : Builtin)
    (found : (Image.library.builtin? builtin).isSome = true) :
    image.knows names (.builtin builtin) = true :=
  knows_mono built.extends_library (.builtin builtin) found

theorem Built.knows_void : image.knows names .void = true :=
  built.knows_builtin .void library_knows.1

theorem Built.knows_prim (prim : Prim) : image.knows names (.prim prim) = true :=
  built.knows_builtin (.prim prim) (library_knows.2.1 prim prim.mem_all)

theorem Built.knows_cell {content : SourceTy} (known : image.knows names content = true) :
    image.knows names (.cell content) = true := by
  obtain ⟨cell, isCell⟩ := built.exists_cell
  refine knows_generic_iff.mpr ⟨Option.isSome_iff_exists.mpr ⟨cell, isCell⟩, fun type isArg => ?_⟩
  rwa [List.mem_singleton.mp isArg]

theorem Built.knows_delegate (few : params.length < Library.maxDelegateArity)
    (areKnown : ∀ param ∈ params, image.knows names param = true)
    (isKnown : image.knows names ret = true) :
    image.knows names (.delegate params ret) = true := by
  have later : ∀ {definition arity}, (Image.library.generic? definition arity).isSome = true →
      (image.generic? definition arity).isSome = true := by
    intro definition arity found
    obtain ⟨handle, isHandle⟩ := Option.isSome_iff_exists.mp found
    exact Option.isSome_iff_exists.mpr ⟨handle, built.generic?_iff.mpr isHandle⟩
  unfold Ty.delegate
  split
  · exact knows_generic_iff.mpr ⟨later (library_knows.2.2 _ few).1, areKnown⟩
  · refine knows_generic_iff.mpr ⟨?_, fun type isArg => ?_⟩
    · rw [List.length_append]
      exact later (library_knows.2.2 _ few).2
    · rcases List.mem_append.mp isArg with isParam | isRet
      · exact areKnown type isParam
      · rwa [List.mem_singleton.mp isRet]

end Platform

/-- The types in the signature of a known function type are known. -/
theorem knows_signature (built : image.Built) {type : SourceTy}
    (known : image.knows names type = true) (signature : type.signature? = some (params, ret)) :
    (∀ param ∈ params, image.knows names param = true) ∧ image.knows names ret = true := by
  rcases Ty.eq_of_signature? signature with rfl | ⟨rfl, rfl⟩
  · obtain ⟨-, each⟩ := knows_generic_iff.mp known
    exact ⟨fun param isParam => each param (List.mem_append_left _ isParam), each ret (by simp)⟩
  · exact ⟨(knows_generic_iff.mp known).2, built.knows_void⟩

end Image

/-! ## Members that known types have -/

namespace PlatformMember

variable {image : Image} {names : List Name} {context : LowerContext}

/-- A generic type is replaced by one of as many arguments. -/
theorem exists_generic {definition : Name} {type : RunTy}
    (done : context.runTy (.generic definition args) = .ok type) :
    ∃ results, type = .generic definition results ∧ results.length = args.length := by
  obtain ⟨results, areArgs, ⟨⟩⟩ := bind_eq_ok.mp done
  exact ⟨results, rfl, Ty.length_of_resolveList areArgs⟩

/-- The members of the library that code may need without calling them itself. -/
theorem library_supplies : (Image.library.resolveCtor .object []).isOk = true ∧
    (Image.library.resolveMethod .string "Concat" false [.string, .string]).isOk = true := by
  decide +kernel

variable (built : context.image.Built)
include built

/-- Function types of the platform have their constructor. -/
theorem delegateCtor_found (known : context.image.knows names (.delegate params ret) = true) :
    (delegateCtor (.delegate params ret)).Found context := by
  intro type types isType areTypes
  have count : types.length = 2 := Ty.length_of_resolveList areTypes
  unfold Ty.delegate at known isType
  split at known
  all_goals
    rename_i isVoid
    first | rw [if_pos isVoid] at isType | rw [if_neg isVoid] at isType
    obtain ⟨results, rfl, sameCount⟩ := exists_generic isType
    obtain ⟨handle, isHandle⟩ :=
      Option.isSome_iff_exists.mp (Image.knows_generic_iff.mp known).1
    rw [← sameCount] at isHandle
    exact built.exists_ctor_generic isHandle rfl List.mem_cons_self count.symm

/-- Function types of the platform have a call of as many parameters. -/
theorem delegateInvoke_found {delegate : SourceTy}
    (known : context.image.knows names delegate = true) {member : PlatformMember}
    (isMember : member ∈ delegateInvoke? delegate) : member.Found context := by
  obtain ⟨⟨params, ret⟩, signature, rfl⟩ := Option.map_eq_some_iff.mp isMember
  intro type types isType areTypes
  have count : types.length = params.length := Ty.length_of_resolveList areTypes
  rcases Ty.eq_of_signature? signature with rfl | ⟨rfl, -⟩
  all_goals
    obtain ⟨results, rfl, sameCount⟩ := exists_generic isType
    obtain ⟨handle, isHandle⟩ :=
      Option.isSome_iff_exists.mp (Image.knows_generic_iff.mp known).1
    rw [← sameCount] at isHandle
    refine built.exists_method_generic isHandle rfl List.mem_cons_self ?_
    rw [List.length_replicate, count, sameCount]
  · rw [List.length_append]
    rfl

/-- `Object` has a constructor without parameters. -/
theorem objectCtor_found : (PlatformMember.ctor .object []).Found context := by
  rintro _ _ ⟨⟩ ⟨⟩
  obtain ⟨ctor, isCtor⟩ := exists_ok_of_isOk library_supplies.1
  exact ⟨ctor, built.resolveCtor_library isCtor⟩

/-- Texts can be joined. -/
theorem concat_found : (PlatformMember.method .string "Concat" false [.string, .string]).Found
    context := by
  rintro _ _ ⟨⟩ ⟨⟩
  obtain ⟨method, isMethod⟩ := exists_ok_of_isOk library_supplies.2
  exact ⟨method, built.resolveMethod_library isMethod⟩

end PlatformMember

end ClassForge
