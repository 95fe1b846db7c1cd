import ClassForge.Proofs.Image.VirtualResults
import ClassForge.Proofs.Typing.Ancestors

/-!
# Subtypes while checking and while running

The checker decides what can be assigned where from the types as they are written; the machine
decides what derives from what from the entries of an image.  In a finished build the two
agree on every class: what is directly above an entry was written above its type, and nothing
above an entry has two types that stand for it.
-/

namespace ClassForge

open Relation Schedule

/-! ## Where a declared type stands -/

namespace Image

variable {image extended : Image}

theorem Extends.below (growth : image.Extends extended) {lower upper : TypeHandle}
    (below : image.Below lower upper) : extended.Below lower upper := by
  obtain ⟨info, isInfo, direct⟩ := below
  obtain ⟨later, isLater, grows⟩ := growth.types _ info isInfo
  refine ⟨later, isLater, ?_⟩
  rwa [grows.base, grows.interfaces]

theorem Extends.derivesFrom (growth : image.Extends extended) (rooted : image.Rooted)
    (later : extended.Rooted) {lower upper : TypeHandle}
    (derives : image.derivesFrom lower upper = true) :
    extended.derivesFrom lower upper = true :=
  later.derivesFrom_iff.mpr
    (ReflTransGen.mono (fun _ _ => growth.below) _ _ (rooted.derivesFrom_iff.mp derives))

end Image

/-- Whatever is directly above the entry of a type was written above the type, and a written
base can have subtypes. -/
structure BuildState.Placed (state : BuildState Image) (name : Name) (attrs : TypeAttrs)
    (base : Option SourceTy) (interfaces : List SourceTy) : Prop where
  written : ∃ handle, state.resolution.type name = .ok handle ∧
    ∀ upper, state.target.Below handle upper →
      ∃ type ∈ attrs.above base interfaces, state.StandsFor type upper
  inheritable : ∀ type ∈ base, ∃ upper info, state.StandsFor type upper ∧
    state.target.type? upper = some info ∧ info.attrs.isSealed = false ∧
    info.attrs.isInterface = false ∧ info.attrs.isValueType = false

section

variable {before after state : BuildState Image} {name : Name} {attrs : TypeAttrs}
variable {base : Option SourceTy} {interfaces : List SourceTy}
variable {tailCalls : Bool} {start : BuildState Image}

/-- A type keeps its place while the build goes on. -/
theorem BuildState.Placed.mono (placed : before.Placed name attrs base interfaces)
    (known : ∀ handle, before.resolution.type name = .ok handle →
      ∃ info, before.target.type? handle = some info)
    (growth : before.Extends after) : after.Placed name attrs base interfaces := by
  refine ⟨?_, fun type isBase => ?_⟩
  · obtain ⟨handle, isHandle, written⟩ := placed.written
    obtain ⟨info, isInfo⟩ := known handle isHandle
    obtain ⟨later, isLater, grows⟩ := growth.target.types _ info isInfo
    refine ⟨handle, growth.resolution.type isHandle, fun upper below => ?_⟩
    obtain ⟨_, same, direct⟩ := below
    cases same.symm.trans isLater
    rw [grows.base, grows.interfaces] at direct
    obtain ⟨type, isAbove, stands⟩ := written upper ⟨info, isInfo, direct⟩
    exact ⟨type, isAbove, stands.mono growth⟩
  · obtain ⟨upper, info, stands, isInfo, inheritable⟩ := placed.inheritable type isBase
    obtain ⟨later, isLater, grows⟩ := growth.target.types _ info isInfo
    refine ⟨upper, later, stands.mono growth, isLater, ?_⟩
    rwa [grows.attrs]

/-- Declaring a type puts it in its place. -/
theorem Task.placed
    (ran : ((Task.declareType name attrs base interfaces).action tailCalls).run before =
      .ok () after) : after.Placed name attrs base interfaces := by
  cases carried ran with | declareType isRoot areAbove declared added => ?_
  have growth := (Build.Move.declareType declared added).extends'
  obtain ⟨parent, uppers, -, isParent, areUppers, rfl, rfl⟩ := Image.declareType_shape declared
  have isBase : ∀ upper, parent = some upper →
      ∃ type ∈ attrs.above base interfaces, before.StandsFor type upper := by
    rintro upper rfl
    cases base with
    | none =>
        cases isRoot
        have isParent := Image.resolveBase_of_none isParent
        split at isParent
        · cases isParent
        · rename_i isClass
          obtain ⟨_, ⟨⟩, isObject⟩ := isParent
          refine ⟨.object, List.mem_append_left _ ?_, .object, rfl, isObject⟩
          rw [if_neg isClass]
          exact List.mem_singleton_self _
    | some type =>
        obtain ⟨resolved, isResolved, ⟨⟩⟩ := ClassForge.bind_eq_ok.mp isRoot
        obtain ⟨_, info, ⟨⟩, isUpper, -⟩ := Image.resolveBase_of_some isParent
        refine ⟨type, List.mem_append_left _ ?_, resolved, isResolved, isUpper⟩
        split <;> exact List.mem_singleton_self _
  have isInterface : ∀ upper ∈ uppers,
      ∃ type ∈ attrs.above base interfaces, before.StandsFor type upper := by
    intro upper isUpper
    obtain ⟨resolved, listed, isHandle⟩ := exists_related_left (mapM_eq_ok.mp areUppers) isUpper
    obtain ⟨type, isType, isResolved⟩ :=
      exists_related_left (Ty.resolveList_eq_ok.mp areAbove) listed
    exact ⟨type, List.mem_append_right _ isType, resolved, isResolved, isHandle⟩
  refine ⟨⟨_, Resolution.type_eq_ok.mpr (Resolution.get?_of_insert? added), ?_⟩, ?_⟩
  · rintro upper ⟨info, isInfo, direct⟩
    cases isInfo.symm.trans Array.getElem?_push_size
    obtain ⟨type, isAbove, stands⟩ := direct.elim (isBase upper) (isInterface upper)
    exact ⟨type, isAbove, stands.mono growth⟩
  · rintro type ⟨⟩
    obtain ⟨resolved, isResolved, ⟨⟩⟩ := ClassForge.bind_eq_ok.mp isRoot
    obtain ⟨upper, info, -, isUpper, isInfo, inheritable⟩ := Image.resolveBase_of_some isParent
    obtain ⟨later, isLater, grows⟩ := growth.target.types _ info isInfo
    refine ⟨upper, later, BuildState.StandsFor.mono ⟨resolved, isResolved, isUpper⟩ growth, isLater, ?_⟩
    rwa [grows.attrs]

/-- A step that has been done had its turn, and what it left is still there. -/
theorem Schedule.Runs.exists_turn {program : Program} {done : List (Step Image)}
    (runs : Runs (program.steps tailCalls) start done state) {step : Step Image}
    (isDone : step ∈ done) :
    ∃ before after, step.action.run before = .ok () after ∧ after.Extends state := by
  induction runs with
  | start => cases isDone
  | step _ turn ran ih =>
      have acted := (runStep_eq_ok ran).1
      obtain ⟨task, -, rfl⟩ := Program.mem_steps.mp turn.member
      have growth := (Task.action_moves acted).1.extends'
      rcases List.mem_append.mp isDone with early | late
      · obtain ⟨before, after, earlier, grows⟩ := ih early
        exact ⟨before, after, earlier, grows.trans growth⟩
      · cases List.mem_singleton.mp late
        exact ⟨_, _, acted, .refl _⟩

/-- Every type of a program has its place. -/
theorem Program.placed {program : Program} {order : List (Step Image)}
    (runs : Runs (program.steps tailCalls) start order state)
    (perm : order.Perm (program.steps tailCalls))
    (isTask : .declareType name attrs base interfaces ∈ program.tasks) :
    state.Placed name attrs base interfaces := by
  have isDone := perm.mem_iff.mpr (Program.mem_steps.mpr ⟨_, isTask, rfl⟩)
  obtain ⟨before, after, acted, growth⟩ := runs.exists_turn isDone
  have ran : ((Task.declareType name attrs base interfaces).action tailCalls).run before =
    .ok () after := acted
  obtain ⟨handle, info, isHandle, isInfo, -⟩ :
      after.HoldsType name attrs (attrs.above base interfaces) := (Task.action_moves ran).2
  refine (Task.placed ran).mono (fun other isOther => ?_) growth
  cases isOther.symm.trans isHandle
  exact ⟨info, isInfo⟩

end

/-! ## Types of the platform -/

theorem Ty.origin?_ne_declared {κ : Type} (type : Ty κ) : type.origin? ≠ some .declared := by
  cases type <;> simp [origin?]

theorem Ty.origin?_resolve {κ μ ε : Type} {replace : κ → Except ε μ} {type : Ty κ} {result : Ty μ}
    {origin : Origin} (done : type.resolve replace = .ok result)
    (isOrigin : type.origin? = some origin) : result.origin? = some origin := by
  cases type with
  | builtin builtin =>
      cases done
      exact isOrigin
  | generic definition args =>
      obtain ⟨results, areResults, same⟩ := bind_eq_ok.mp done
      cases same
      rw [origin?, Ty.length_of_resolveList areResults]
      exact isOrigin
  | declared | array => cases isOrigin

namespace Image

variable {image : Image} {handle : TypeHandle} {origin : Origin}

/-- The entry of a platform type. -/
def platformType? (image : Image) (origin : Origin) : Option TypeHandle :=
  image.findType? fun info => info.origin == origin

theorem handleOf?_of_origin? {type : RunTy} (isOrigin : type.origin? = some origin) :
    image.handleOf? type = image.platformType? origin := by
  cases type with
  | builtin | generic =>
      cases isOrigin
      rfl
  | declared | array => cases isOrigin

theorem platformHandle?_of_origin? {type : SourceTy} (isOrigin : type.origin? = some origin) :
    image.platformHandle? type = image.platformType? origin := by
  cases type with
  | builtin | generic =>
      cases isOrigin
      rfl
  | declared | array => cases isOrigin

/-- Entries of the library are told apart by where they come from. -/
theorem library_origins : ∀ info ∈ library.types, ∀ other ∈ library.types,
    info.origin = other.origin → info = other := by
  decide +kernel

/-- Nothing is above `Object` and `Void`, and no value type has a base. -/
theorem library_based : ∀ info ∈ library.types, ∀ base ∈ info.base,
    info.attrs.isValueType = false ∧ info.origin ≠ .builtin .object ∧
      info.origin ≠ .builtin .void := by
  decide +kernel

/-- What has constructors in the library derives from `Object`. -/
theorem library_objects : library.handleOf .object = .ok ⟨0⟩ ∧
    ∀ index < library.types.size, ∀ info ∈ library.type? ⟨index⟩,
      info.ctors ≠ [] ∨ info.origin.isGeneric = true →
        library.derivesFrom ⟨index⟩ ⟨0⟩ = true := by
  decide +kernel

theorem type?_of_platformType? (found : image.platformType? origin = some handle) :
    ∃ info, image.type? handle = some info ∧ info.origin = origin := by
  obtain ⟨index, isIndex, rfl⟩ := Option.map_eq_some_iff.mp found
  obtain ⟨inBounds, fits, -⟩ := Array.findIdx?_eq_some_iff_getElem.mp isIndex
  exact ⟨_, Array.getElem?_eq_getElem inBounds, beq_iff_eq.mp fits⟩

theorem Extends.platformType? {extended : Image} (growth : image.Extends extended)
    (found : image.platformType? origin = some handle) :
    extended.platformType? origin = some handle :=
  growth.findType? (fun _ _ grows => by rw [grows.origin]) found

/-- A platform type has the entry that it has in the library. -/
theorem Built.platformType?_eq_some (built : image.Built) (platform : origin ≠ .declared)
    (found : image.platformType? origin = some handle) :
    ∃ info, Image.library.platformType? origin = some handle ∧
      Image.library.type? handle = some info ∧ image.type? handle = some info ∧
      info.origin = origin := by
  obtain ⟨info, isInfo, isOrigin⟩ := type?_of_platformType? found
  have inLibrary := built.platform info (Array.mem_of_getElem? isInfo) (isOrigin ▸ platform)
  have isSome : (Image.library.types.findIdx? fun other => other.origin == origin).isSome = true :=
    Array.findIdx?_isSome.trans (Array.any_eq_true'.mpr ⟨info, inLibrary, beq_iff_eq.mpr isOrigin⟩)
  obtain ⟨index, isIndex⟩ := Option.isSome_iff_exists.mp isSome
  have first : Image.library.platformType? origin = some ⟨index⟩ :=
    Option.map_eq_some_iff.mpr ⟨index, isIndex, rfl⟩
  cases found.symm.trans (built.extends_library.platformType? first)
  obtain ⟨entry, isEntry, sameOrigin⟩ := type?_of_platformType? first
  obtain rfl := library_origins entry (Array.mem_of_getElem? isEntry) info inLibrary
    (sameOrigin.trans isOrigin.symm)
  exact ⟨entry, first, isEntry, isInfo, isOrigin⟩

end Image

/-! ## Finished builds -/

section

variable {module : Module} {image : Image} {context : TypeContext} {program : Program}
variable {state : BuildState Image} {type : SourceTy} {lower upper : TypeHandle}
variable {origin : Origin} {name : Name} {cls : ClassDef}

theorem BuildState.StandsFor.platformType? (stands : state.StandsFor type lower)
    (isOrigin : type.origin? = some origin) : state.target.platformType? origin = some lower := by
  obtain ⟨resolved, isResolved, isHandle⟩ := stands
  rw [← Image.handleOf?_of_origin? (Ty.origin?_resolve isResolved isOrigin)]
  exact Image.handleOf_eq_ok.mp isHandle

theorem BuildState.StandsFor.declared (stands : state.StandsFor (.declared name) lower) :
    state.resolution.type name = .ok lower := by
  obtain ⟨_, isResolved, isHandle⟩ := stands
  obtain ⟨handle, isType, same⟩ := bind_eq_ok.mp isResolved
  cases same
  obtain ⟨_, -, rfl⟩ := Option.map_eq_some_iff.mp (Image.handleOf_eq_ok.mp isHandle)
  exact isType

theorem BuildState.not_standsFor_array {element : SourceTy} :
    ¬ state.StandsFor (.array element) lower := by
  rintro ⟨_, isResolved, isHandle⟩
  obtain ⟨_, -, ⟨⟩⟩ := bind_eq_ok.mp isResolved
  cases isHandle

/-- The entry that a type stands for comes from this type. -/
theorem Program.Finished.entry_of_standsFor (finished : program.Finished image state)
    (stands : state.StandsFor type lower) :
    ∃ info, state.target.type? lower = some info ∧
      (type.origin? = some info.origin ∨
        type = .declared info.name ∧ info.origin = .declared) := by
  cases type with
  | declared name =>
      have resolved := stands.declared
      obtain ⟨attrs, base, interfaces, isTask⟩ := finished.exists_declareType resolved
      obtain ⟨_, info, same, isInfo, isName, -, isOrigin, -⟩ := finished.holdsType isTask
      cases same.symm.trans resolved
      exact ⟨info, isInfo, .inr ⟨by rw [isName], isOrigin⟩⟩
  | builtin | generic =>
      obtain ⟨info, isInfo, isOrigin⟩ := Image.type?_of_platformType? (stands.platformType? rfl)
      exact ⟨info, isInfo, .inl (congrArg some isOrigin.symm)⟩
  | array => exact (BuildState.not_standsFor_array stands).elim

/-- A type of the module, or a platform type that is not generic. -/
def Ty.IsPlain {κ : Type} : Ty κ → Prop
  | .declared _ | .builtin _ => True
  | .generic _ _ | .array _ => False

/-- No two types stand for one entry, unless both are instances of one definition. -/
theorem Program.Finished.standsFor_injective (finished : program.Finished image state)
    {goal : SourceTy} (plain : goal.IsPlain)
    (stands : state.StandsFor type lower) (also : state.StandsFor goal lower) : type = goal := by
  obtain ⟨info, isInfo, ofType⟩ := finished.entry_of_standsFor stands
  obtain ⟨_, same, ofGoal⟩ := finished.entry_of_standsFor also
  cases same.symm.trans isInfo
  rcases ofType with isOrigin | ⟨isDeclared, isOrigin⟩ <;>
    rcases ofGoal with goalOrigin | ⟨goalDeclared, otherOrigin⟩
  · rw [← isOrigin] at goalOrigin
    cases goal with
    | builtin =>
        cases type with
        | builtin => simpa [Ty.origin?, eq_comm] using goalOrigin
        | generic | declared | array => simp [Ty.origin?] at goalOrigin
    | declared => cases type <;> simp [Ty.origin?] at goalOrigin isOrigin
    | generic | array => cases plain
  · exact (type.origin?_ne_declared (isOrigin.trans (congrArg some otherOrigin))).elim
  · exact (goal.origin?_ne_declared (goalOrigin.trans (congrArg some isOrigin))).elim
  · rw [isDeclared, goalDeclared]

/-! ## From entries to types -/

theorem ClassDef.base_eq_none (valid : cls.validate = .ok ())
    (notClass : (cls.attrs.isValueType || cls.attrs.isInterface) = true) : cls.base = none := by
  simp only [validate, checkShape, bind_eq_ok] at valid
  obtain ⟨_, ⟨_, -, _, noBase, -⟩, -⟩ := valid
  unfold checkRule at noBase
  split at noBase
  · cases noBase
  · rename_i allowed
    simpa [notClass] using allowed

theorem Module.Accepted.type?_of_class (accepted : module.Accepted image context program)
    (isClass : cls ∈ module.classes) :
    context.symbols.type? cls.name =
      some { attrs := cls.attrs, base := cls.base, interfaces := cls.interfaces } := by
  obtain ⟨-, -, entries, keyed⟩ := Symbols.ofModule_eq_ok.mp accepted.symbols
  have declared : (Key.type cls.name, Declaration.type
      { attrs := cls.attrs, base := cls.base, interfaces := cls.interfaces }) ∈
      context.symbols.entries :=
    entries ▸ List.mem_flatMap.mpr ⟨cls, isClass, List.mem_cons_self⟩
  rw [Symbols.type?, (KeyTable.get?_eq_some_iff keyed).mpr declared]

/-- The checker sees just what a class is declared below. -/
theorem Module.Accepted.supertypes_of_class (accepted : module.Accepted image context program)
    (isClass : cls ∈ module.classes) :
    context.supertypes cls.selfType = cls.attrs.above cls.base cls.interfaces := by
  have valid := (Symbols.ofModule_eq_ok.mp accepted.symbols).1 cls isClass
  rw [TypeContext.supertypes, ClassDef.selfType, TypeContext.base?, TypeContext.interfaces,
    accepted.type?_of_class isClass, TypeAttrs.above]
  dsimp only [Option.bind_eq_bind, Option.bind_some, Option.elim]
  split
  · rename_i notClass
    rw [ClassDef.base_eq_none valid notClass]
  · rfl

/-- The types of a program are its classes, and the types of its functions and loops. -/
theorem Module.Accepted.class_of_declareType (accepted : module.Accepted image context program)
    {attrs : TypeAttrs} {base : Option SourceTy} {interfaces : List SourceTy}
    (isTask : .declareType name attrs base interfaces ∈ program.tasks) :
    (∃ cls ∈ module.classes, name = cls.name ∧ attrs = cls.attrs ∧ base = cls.base ∧
        interfaces = cls.interfaces) ∨
      attrs = .sealedClass ∧ base = none ∧ interfaces = [] := by
  obtain ⟨core, isCore, isPlanned⟩ := Program.exists_plans isTask
  cases isPlanned with
  | type =>
      obtain ⟨cls, isClass, checked⟩ := exists_related_left accepted.classes isCore
      exact .inl ⟨cls, isClass, checked.name, checked.attrs, checked.base, checked.interfaces⟩
  | closure _ _ isTask =>
      cases isTask
      exact .inr ⟨rfl, rfl, rfl⟩

theorem TypeContext.base?_of_origin? (isOrigin : type.origin? = some origin)
    (notObject : origin ≠ .builtin .object) (notVoid : origin ≠ .builtin .void) :
    context.base? type = context.image.baseType? type := by
  unfold base?
  split
  · cases isOrigin
  · cases isOrigin
  · exact (notObject (Option.some.inj isOrigin).symm).elim
  · exact (notVoid (Option.some.inj isOrigin).symm).elim
  · rfl

/-- What is above the entry of a platform type is above the type, or it is `Object`. -/
theorem Module.Accepted.above_platform (accepted : module.Accepted image context program)
    (finished : program.Finished image state) (built : image.Built)
    (isOrigin : type.origin? = some origin) (stands : state.StandsFor type lower)
    (below : state.target.Below lower upper) :
    ∃ above, state.StandsFor above upper ∧ (context.Below type above ∨ above = .object) := by
  have platform : origin ≠ .declared := fun same => type.origin?_ne_declared (same ▸ isOrigin)
  obtain ⟨info, inLibrary, isEntry, isInfo, rfl⟩ := (finished.built built).platformType?_eq_some
    platform (stands.platformType? isOrigin)
  have listed : info ∈ Image.library.types := Array.mem_of_getElem? isEntry
  obtain ⟨_, same, direct⟩ := below
  cases same.symm.trans isInfo
  rw [(Image.library_entries info listed).interfaces] at direct
  have isBase : info.base = some upper := direct.resolve_right List.not_mem_nil
  obtain ⟨entry, isUpper, builtin, isBuiltin, ofBuiltin, isHandle⟩ :=
    Image.library_bases info listed upper isBase
  have standsAbove : state.StandsFor (.builtin builtin) upper :=
    ⟨.builtin builtin, rfl, (finished.built built).extends_library.handleOf isHandle⟩
  refine ⟨.builtin builtin, standsAbove, ?_⟩
  rcases List.mem_pair.mp isBuiltin with rfl | rfl
  · obtain ⟨noValue, notObject, notVoid⟩ := Image.library_based info listed upper isBase
    obtain rfl := accepted.image
    -- The image before the build has the same two entries.
    have isLower := built.extends_library.platformType? inLibrary
    obtain ⟨early, -, sameEntry, isEarly, -⟩ := built.platformType?_eq_some platform isLower
    cases sameEntry.symm.trans isEntry
    obtain ⟨later, present, grows⟩ := built.extends_library.types _ entry isUpper
    have isLater : context.image.type? upper = some later := present
    refine .inl (List.mem_append_left _ (Option.mem_toList.mpr ?_))
    rw [TypeContext.base?_of_origin? isOrigin notObject notVoid, Image.baseType?,
      Image.platformInfo?, Image.platformHandle?_of_origin? isOrigin, isLower]
    simp [isEarly, noValue, isBase, isLater, grows.origin, ofBuiltin]
  · exact .inr rfl

/-- What is above the entry of a type is above the type, or it is `Object`. -/
theorem Module.Accepted.above_of_below (accepted : module.Accepted image context program)
    (finished : program.Finished image state) (built : image.Built)
    (placed : ∀ {name attrs base interfaces}, .declareType name attrs base interfaces ∈
      program.tasks → state.Placed name attrs base interfaces)
    (stands : state.StandsFor type lower) (below : state.target.Below lower upper) :
    ∃ above, state.StandsFor above upper ∧ (context.Below type above ∨ above = .object) := by
  cases type with
  | declared name =>
      obtain ⟨attrs, base, interfaces, isTask⟩ := finished.exists_declareType stands.declared
      obtain ⟨_, same, written⟩ := (placed isTask).written
      cases same.symm.trans stands.declared
      obtain ⟨above, isAbove, standsAbove⟩ := written upper below
      refine ⟨above, standsAbove, ?_⟩
      rcases accepted.class_of_declareType isTask with
        ⟨cls, isClass, rfl, rfl, rfl, rfl⟩ | ⟨rfl, rfl, rfl⟩
      · rw [← accepted.supertypes_of_class isClass] at isAbove
        exact .inl isAbove
      · exact .inr (List.mem_singleton.mp isAbove)
  | builtin | generic => exact accepted.above_platform finished built rfl stands below
  | array => exact (BuildState.not_standsFor_array stands).elim

/-! ## Everything is an object -/

/-- A class has a constructor, which calls one of its base. -/
theorem Module.selects_base (recorded : Symbols.ofModule module = .ok context.symbols)
    (checked : module.check context.image = .ok program) (isClass : cls ∈ module.classes)
    (noValue : cls.attrs.isValueType = false) (noInterface : cls.attrs.isInterface = false) :
    context.ctorCandidates cls.baseType ≠ [] := by
  simp only [check, bind_eq_ok, TypeContext.checkModule, mapM_eq_ok] at checked
  obtain ⟨symbols, collected, classes⟩ := checked
  cases recorded.symm.trans collected
  obtain ⟨core, -, checked⟩ := exists_related_right classes isClass
  simp only [TypeContext.checkClass, bind_eq_ok, mapM_eq_ok] at checked
  obtain ⟨_, -, ctors, checkedCtors, -⟩ := checked
  obtain ⟨ctor, isCtor⟩ : ∃ ctor, ctor ∈ cls.allCtors := by
    unfold ClassDef.allCtors
    split
    · exact ⟨_, List.mem_singleton_self _⟩
    · rename_i hasCtors
      refine List.exists_mem_of_ne_nil _ fun empty => hasCtors ?_
      simp [empty, noInterface]
  obtain ⟨_, -, checked⟩ := exists_related_right checkedCtors isCtor
  simp only [TypeContext.checkCtor, TypeContext.checkBaseCall, noValue, Bool.false_eq_true,
    if_false, bind_eq_ok] at checked
  obtain ⟨_, ⟨args, -, callee, selected, -⟩, -⟩ := checked
  intro none
  unfold TypeContext.selectCtor TypeContext.select at selected
  rw [none] at selected
  cases selected

/-- A platform type with a constructor derives from `Object`. -/
theorem Image.Built.derives_object (built : image.Built) (platform : origin ≠ .declared)
    (found : image.platformType? origin = some lower)
    (hasCtors : ∀ info, image.type? lower = some info →
      info.ctors ≠ [] ∨ info.origin.isGeneric = true)
    (isObject : image.handleOf .object = .ok upper) : image.derivesFrom lower upper = true := by
  obtain ⟨info, -, inLibrary, isInfo, -⟩ := built.platformType?_eq_some platform found
  obtain ⟨inBounds, -⟩ := Array.getElem?_eq_some_iff.mp inLibrary
  obtain ⟨libraryObject, derives⟩ := Image.library_objects
  cases isObject.symm.trans (built.extends_library.handleOf libraryObject)
  exact built.extends_library.derivesFrom Image.Built.library.rooted built.rooted
    (derives lower.index inBounds info inLibrary (hasCtors info isInfo))

theorem TypeContext.hasCtors_of_candidates (isOrigin : type.origin? = some origin)
    (candidates : context.ctorCandidates type ≠ [])
    (found : context.image.platformType? origin = some lower) :
    ∀ info, context.image.type? lower = some info →
      info.ctors ≠ [] ∨ info.origin.isGeneric = true := by
  intro info isInfo
  refine or_iff_not_imp_right.mpr fun notGeneric empty => candidates ?_
  have isPlatform : context.image.platformInfo? type = some info := by
    rw [Image.platformInfo?, Image.platformHandle?_of_origin? isOrigin, found]
    exact isInfo
  have none : context.image.ctorSigs type = [] := by
    unfold Image.ctorSigs
    rw [isPlatform]
    dsimp only
    split
    · rename_i generic
      simp [generic, Origin.isGeneric] at notGeneric
    · simp [Image.ctorsOf, empty]
  unfold ctorCandidates
  split
  · cases isOrigin
  · rw [none]
    rfl

theorem Program.Finished.standsFor_declared (finished : program.Finished image state)
    (resolved : state.resolution.type name = .ok lower) :
    state.StandsFor (.declared name) lower := by
  obtain ⟨attrs, base, interfaces, isTask⟩ := finished.exists_declareType resolved
  obtain ⟨_, info, same, isInfo, -⟩ := finished.holdsType isTask
  cases same.symm.trans resolved
  exact ⟨.declared lower, bind_eq_ok.mpr ⟨lower, resolved, rfl⟩,
    Image.handleOf_eq_ok.mpr (Option.map_eq_some_iff.mpr ⟨info, isInfo, rfl⟩)⟩

/-- A platform type with a constructor stands for an entry that derives from `Object`. -/
theorem Module.Accepted.platform_derives_object (accepted : module.Accepted image context program)
    (finished : program.Finished image state) (built : image.Built)
    (isOrigin : type.origin? = some origin) (stands : state.StandsFor type lower)
    (candidates : context.ctorCandidates type ≠ []) {root : TypeHandle}
    (isRoot : state.target.handleOf .object = .ok root) :
    state.target.derivesFrom lower root = true := by
  obtain rfl := accepted.image
  have platform : origin ≠ .declared := fun same => type.origin?_ne_declared (same ▸ isOrigin)
  have later := finished.built built
  have growth := finished.moves.extends'.target
  obtain ⟨_, inLibrary, -⟩ := later.platformType?_eq_some platform (stands.platformType? isOrigin)
  have found := built.extends_library.platformType? inLibrary
  have isObject := built.extends_library.handleOf Image.library_objects.1
  cases isRoot.symm.trans (growth.handleOf isObject)
  exact growth.derivesFrom built.rooted later.rooted (built.derives_object platform found
    (TypeContext.hasCtors_of_candidates isOrigin candidates found) isObject)

/-- Every class derives from `Object`. -/
theorem Module.Accepted.class_derives_object (accepted : module.Accepted image context program)
    (checked : module.check image = .ok program) (finished : program.Finished image state)
    (built : image.Built)
    (placed : ∀ {name attrs base interfaces}, .declareType name attrs base interfaces ∈
      program.tasks → state.Placed name attrs base interfaces)
    {root : TypeHandle} (isRoot : state.target.handleOf .object = .ok root) {bound : Nat}
    (isClass : cls ∈ module.classes) (noValue : cls.attrs.isValueType = false)
    (noInterface : cls.attrs.isInterface = false)
    (resolved : state.resolution.type cls.name = .ok lower) (bounded : lower.index < bound) :
    state.target.derivesFrom lower root = true := by
  induction bound generalizing cls lower with
  | zero => exact absurd bounded (Nat.not_lt_zero _)
  | succ bound ih =>
      have rooted := (finished.built built).rooted
      have isBase : cls.baseType ∈ context.supertypes cls.selfType := by
        rw [accepted.supertypes_of_class isClass, TypeAttrs.above, noValue, noInterface]
        exact List.mem_append_left _ (List.mem_singleton_self _)
      obtain ⟨upper, stands, below⟩ := accepted.standsFor_above finished built
        (finished.standsFor_declared resolved) isBase
      have earlier := rooted.earlier below
      suffices state.target.derivesFrom upper root = true from
        rooted.derivesFrom_iff.mpr (.head below (rooted.derivesFrom_iff.mp this))
      have candidates := Module.selects_base accepted.symbols (accepted.image ▸ checked) isClass
        noValue noInterface
      have ofPlatform : ∀ origin, cls.baseType.origin? = some origin →
          state.target.derivesFrom upper root = true := fun origin isOrigin =>
        accepted.platform_derives_object finished built isOrigin stands candidates isRoot
      cases written : cls.base with
      | none =>
          exact ofPlatform (.builtin .object) (by rw [ClassDef.baseType, written]; rfl)
      | some base =>
          have isBaseType : cls.baseType = base := by rw [ClassDef.baseType, written]; rfl
          rw [isBaseType] at stands ofPlatform
          cases base with
          | builtin | generic => exact ofPlatform _ rfl
          | array => exact (BuildState.not_standsFor_array stands).elim
          | declared name =>
              obtain ⟨core, isCore, checks⟩ := exists_related_right accepted.classes isClass
              have isTask := CoreClass.mem_program_tasks isCore .type
              obtain ⟨_, info, also, isInfo, notSealed, notInterface, notValue⟩ :=
                (placed isTask).inheritable (.declared name) (checks.base.trans written)
              obtain rfl := stands.unique also
              obtain ⟨attrs, base, interfaces, isTask⟩ :=
                finished.exists_declareType stands.declared
              obtain ⟨_, _, same, sameInfo, -, isAttrs, -⟩ := finished.holdsType isTask
              cases same.symm.trans stands.declared
              cases sameInfo.symm.trans isInfo
              rw [isAttrs] at notSealed notInterface notValue
              rcases accepted.class_of_declareType isTask with
                ⟨other, isOther, rfl, rfl, -, -⟩ | ⟨rfl, -, -⟩
              · exact ih isOther notValue notInterface stands.declared (by omega)
              · cases notSealed

/-! ## Agreement -/

theorem TypeContext.supertypes_object (built : context.image.Built) :
    context.supertypes .object = [] := by
  have none : context.image.interfaceTypes .object = [] := built.interfaceTypes_eq_nil
  exact none

/-- What the checker takes for a subtype derives from the other type in a finished build, and
nothing else does. -/
theorem Module.Accepted.isAssignable_iff (accepted : module.Accepted image context program)
    (checked : module.check image = .ok program) (finished : program.Finished image state)
    (built : image.Built)
    (placed : ∀ {name attrs base interfaces}, .declareType name attrs base interfaces ∈
      program.tasks → state.Placed name attrs base interfaces)
    (isClass : cls ∈ module.classes) (noValue : cls.attrs.isValueType = false)
    (noInterface : cls.attrs.isInterface = false) {goal : SourceTy} (plain : goal.IsPlain)
    (isLower : state.StandsFor cls.selfType lower) (isUpper : state.StandsFor goal upper) :
    context.isAssignable cls.selfType goal = true ↔
      state.target.derivesFrom lower upper = true := by
  have rooted := (finished.built built).rooted
  have isReference : context.isValue cls.selfType = false := by
    simp [TypeContext.isValue, Symbols.isValue, ClassDef.selfType,
      accepted.type?_of_class isClass, noValue]
  rw [TypeContext.isAssignable_iff, rooted.derivesFrom_iff]
  constructor
  · rintro (rfl | ⟨-, -, rfl | above⟩)
    · rw [isLower.unique isUpper]
    · obtain ⟨_, same, isRoot⟩ := isUpper
      cases same
      exact rooted.derivesFrom_iff.mp (accepted.class_derives_object checked finished built placed
        isRoot isClass noValue noInterface isLower.declared (Nat.lt_succ_self _))
    · suffices ∃ handle, state.StandsFor goal handle ∧
          ReflTransGen state.target.Below lower handle by
        obtain ⟨handle, stands, reaches⟩ := this
        exact isUpper.unique stands ▸ reaches
      clear isUpper plain
      induction above with
      | single below =>
          obtain ⟨handle, stands, direct⟩ :=
            accepted.standsFor_above finished built isLower below
          exact ⟨handle, stands, .single direct⟩
      | tail _ below ih =>
          obtain ⟨middle, stands, reaches⟩ := ih
          obtain ⟨handle, standsAbove, direct⟩ :=
            accepted.standsFor_above finished built stands below
          exact ⟨handle, standsAbove, reaches.tail direct⟩
  · intro reaches
    -- Every entry on the way up is that of a type above the class, unless it is that of `Object`.
    obtain ⟨type, stands, above⟩ : ∃ type, state.StandsFor type upper ∧
        (ReflTransGen context.Below cls.selfType type ∨ type = .object) := by
      clear isUpper
      induction reaches with
      | refl => exact ⟨_, isLower, .inl .refl⟩
      | tail _ below ih =>
          obtain ⟨type, stands, above⟩ := ih
          obtain ⟨next, standsNext, direct | isObject⟩ :=
            accepted.above_of_below finished built placed stands below
          · refine ⟨next, standsNext, above.imp (fun reaches => reaches.tail direct) ?_⟩
            rintro rfl
            rw [TypeContext.Below, TypeContext.supertypes_object (accepted.image ▸ built)] at direct
            cases direct
          · exact ⟨next, standsNext, .inr isObject⟩
    obtain rfl := finished.standsFor_injective plain stands isUpper
    rcases above with reaches | rfl
    · rcases reflTransGen_iff_eq_or_transGen.mp reaches with rfl | strict
      · exact .inl rfl
      · exact .inr ⟨isReference, rfl, .inr strict⟩
    · exact .inr ⟨isReference, rfl, .inl rfl⟩

end

end ClassForge
