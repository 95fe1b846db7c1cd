import ClassForge.Proofs.Build.CompletedModules
import ClassForge.Proofs.Image.Dispatch
import ClassForge.Proofs.Typing.VoidFree

/-!
# Types above a type

The checker looks for the members of a type at its bases and interfaces as the program writes
them, the machine looks at the entries of an image.  In a finished build both go up together: a
value that is an instance of a type is an instance of all that the checker finds above it.
-/

namespace ClassForge

open Relation

namespace Image

variable {image : Image} {lower upper : TypeHandle}

/-- An entry is declared directly below another one. -/
def Below (image : Image) (lower upper : TypeHandle) : Prop :=
  ∃ info, image.type? lower = some info ∧ (info.base = some upper ∨ upper ∈ info.interfaces)

theorem Rooted.earlier (rooted : image.Rooted) (below : image.Below lower upper) :
    upper.index < lower.index := by
  obtain ⟨info, isInfo, isBase | listed⟩ := below
  · exact (rooted lower info isInfo).earlier upper isBase
  · exact (rooted lower info isInfo).interfaces upper listed

theorem derivesFromUpTo_succ {bound : Nat} :
    image.derivesFromUpTo upper (bound + 1) lower = true ↔
      lower = upper ∨
        ∃ middle, image.Below lower middle ∧ image.derivesFromUpTo upper bound middle = true := by
  rw [derivesFromUpTo, Bool.or_eq_true, beq_iff_eq]
  refine or_congr_right ?_
  unfold Below
  cases isInfo : image.type? lower with
  | none => simp
  | some info =>
      simp only [Bool.or_eq_true, List.any_eq_true, Option.any_eq_true, Option.some.injEq,
        exists_eq_left']
      constructor
      · rintro (⟨middle, listed, derives⟩ | ⟨middle, isBase, derives⟩)
        · exact ⟨middle, .inr listed, derives⟩
        · exact ⟨middle, .inl isBase, derives⟩
      · rintro ⟨middle, isBase | listed, derives⟩
        · exact .inr ⟨middle, isBase, derives⟩
        · exact .inl ⟨middle, listed, derives⟩

/-- Deriving is going up any number of times. -/
theorem Rooted.derivesFrom_iff (rooted : image.Rooted) :
    image.derivesFrom lower upper = true ↔ ReflTransGen image.Below lower upper := by
  constructor
  · suffices ∀ bound lower, image.derivesFromUpTo upper bound lower = true →
        ReflTransGen image.Below lower upper from this _ lower
    intro bound
    induction bound with
    | zero => simp [derivesFromUpTo]
    | succ bound ih =>
        intro lower derives
        rcases derivesFromUpTo_succ.mp derives with rfl | ⟨middle, below, above⟩
        · exact .refl
        · exact .head below (ih middle above)
  · -- Going up makes handles smaller, so the bound of the search is never reached.
    suffices ∀ bound, lower.index < bound → ReflTransGen image.Below lower upper →
        image.derivesFromUpTo upper bound lower = true from this _ (Nat.lt_succ_self _)
    intro bound enough reaches
    induction reaches using ReflTransGen.head_induction_on generalizing bound with
    | refl =>
        obtain ⟨bound, rfl⟩ := Nat.exists_eq_succ_of_ne_zero (Nat.ne_zero_of_lt enough)
        exact derivesFromUpTo_succ.mpr (.inl rfl)
    | head below _ ih =>
        obtain ⟨bound, rfl⟩ := Nat.exists_eq_succ_of_ne_zero (Nat.ne_zero_of_lt enough)
        have earlier := rooted.earlier below
        exact derivesFromUpTo_succ.mpr (.inr ⟨_, below, ih bound (by omega)⟩)

/-- What derives from an entry derives from all that the entry is below. -/
theorem Rooted.derivesFrom_trans (rooted : image.Rooted) {middle : TypeHandle}
    (derives : image.derivesFrom lower middle = true) (below : image.Below middle upper) :
    image.derivesFrom lower upper = true :=
  rooted.derivesFrom_iff.mpr ((rooted.derivesFrom_iff.mp derives).tail below)

/-- The base of a library type is a library type that is not generic. -/
theorem library_bases : ∀ info ∈ library.types, ∀ base ∈ info.base,
    ∃ entry ∈ library.type? base, ∃ builtin ∈ Builtin.named Platform.exception :: [.object],
      entry.origin = .builtin builtin ∧ library.handleOf (.builtin builtin) = .ok base := by
  decide +kernel

/-- The base of a platform type is the entry that its base stands for. -/
theorem Built.baseType?_eq_some (built : image.Built) {type above : SourceTy}
    (found : image.baseType? type = some above) :
    ∃ info base builtin, image.platformInfo? type = some info ∧ info.base = some base ∧
      above = .builtin builtin ∧ image.handleOf (.builtin builtin) = .ok base := by
  obtain ⟨info, isInfo, found⟩ := Option.bind_eq_some_iff.mp found
  split at found
  · cases found
  · obtain ⟨base, isBase, found⟩ := Option.bind_eq_some_iff.mp found
    obtain ⟨entry, isEntry, found⟩ := Option.bind_eq_some_iff.mp found
    have inLibrary := (built.platformInfo? isInfo).2.2
    obtain ⟨before, isBefore, builtin, -, isOrigin, isHandle⟩ :=
      library_bases info inLibrary base isBase
    obtain ⟨later, isLater, grows⟩ := built.extends_library.types _ before isBefore
    cases isLater.symm.trans isEntry
    refine ⟨info, base, builtin, isInfo, isBase, ?_, built.extends_library.handleOf isHandle⟩
    rw [grows.origin, isOrigin] at found
    exact (Option.some.inj found).symm

end Image

/-! ## Finished builds -/

section

variable {module : Module} {image : Image} {context : TypeContext} {program : Program}
variable {state : BuildState Image}
variable {type : SourceTy}

theorem BuildState.StandsFor.unique {handle other : TypeHandle}
    (stands : state.StandsFor type handle) (also : state.StandsFor type other) :
    handle = other := by
  obtain ⟨resolved, isResolved, isHandle⟩ := stands
  obtain ⟨_, same, isOther⟩ := also
  cases same.symm.trans isResolved
  exact Except.ok.inj (isHandle.symm.trans isOther)

/-- A platform type is resolved to the entry that it has on the platform. -/
theorem BuildState.handleOf_platform {resolved : RunTy} {handle : TypeHandle}
    (growth : image.Extends state.target) (isResolved : state.resolution.runTy type = .ok resolved)
    (isHandle : image.platformHandle? type = some handle) :
    state.target.handleOf resolved = .ok handle := by
  have ofImage : ∀ {run}, image.handleOf? run = some handle →
      state.target.handleOf run = .ok handle := fun found => by
    refine growth.handleOf ?_
    rw [Image.handleOf, found]
  cases type with
  | declared | array => cases isHandle
  | builtin builtin =>
      cases isResolved
      exact @ofImage (.builtin builtin) isHandle
  | generic definition args =>
      obtain ⟨results, areResults, same⟩ := bind_eq_ok.mp isResolved
      cases same
      refine ofImage ?_
      rw [Image.handleOf?, Ty.length_of_resolveList areResults]
      exact isHandle

theorem BuildState.StandsFor.platform {handle other : TypeHandle}
    (stands : state.StandsFor type handle) (growth : image.Extends state.target)
    (isOther : image.platformHandle? type = some other) : other = handle := by
  obtain ⟨resolved, isResolved, isHandle⟩ := stands
  exact Except.ok.inj
    ((BuildState.handleOf_platform growth isResolved isOther).symm.trans isHandle)

/-- A declared type stands below the types that it was declared below. -/
theorem Module.Accepted.declared_below (accepted : module.Accepted image context program)
    (finished : program.Finished image state) {name : Name} {decl : TypeDecl}
    (found : context.symbols.type? name = some decl) :
    state.HoldsType name decl.attrs (decl.attrs.above decl.base decl.interfaces) := by
  obtain ⟨cls, isClass, declaration⟩ :=
    accepted.mem_entries (Symbols.mem_entries_of_type? found)
  obtain ⟨rfl, rfl⟩ := ClassDef.of_mem_type declaration
  obtain ⟨core, isCore, checked⟩ := exists_related_right accepted.classes isClass
  have holds := finished.holdsClass isCore
  rwa [checked.name, checked.attrs, checked.base, checked.interfaces] at holds

/-- What the checker finds directly above a type stands for an entry directly above that of the
type. -/
theorem Module.Accepted.standsFor_above (accepted : module.Accepted image context program)
    (finished : program.Finished image state) (built : image.Built) {above : SourceTy}
    {lower : TypeHandle} (stands : state.StandsFor type lower)
    (isAbove : above ∈ context.supertypes type) :
    ∃ upper, state.StandsFor above upper ∧ state.target.Below lower upper := by
  obtain rfl := accepted.image
  have noInterfaces : context.image.interfaceTypes type = [] := built.interfaceTypes_eq_nil
  have growth := finished.moves.extends'.target
  have ofPlatform : context.image.baseType? type = some above →
      ∃ upper, state.StandsFor above upper ∧ state.target.Below lower upper := by
    intro isBase
    obtain ⟨info, base, builtin, isInfo, below, rfl, isHandle⟩ := built.baseType?_eq_some isBase
    obtain ⟨handle, isType, isEntry⟩ := Option.bind_eq_some_iff.mp isInfo
    obtain rfl := stands.platform growth isType
    obtain ⟨_, later, rfl⟩ := finished.unchanged.types _ info isEntry
    exact ⟨base, ⟨.builtin builtin, rfl, growth.handleOf isHandle⟩, info, later, .inl below⟩
  have ofDeclared : ∀ name decl, type = .declared name →
      context.symbols.type? name = some decl →
      above ∈ decl.attrs.above decl.base decl.interfaces →
      ∃ upper, state.StandsFor above upper ∧ state.target.Below lower upper := by
    rintro name decl rfl found listed
    obtain ⟨handle, info, resolved, isInfo, -, -, -, below⟩ :=
      accepted.declared_below finished found
    obtain ⟨_, isResolved, isHandle⟩ := stands
    obtain ⟨_, sameHandle, same⟩ := bind_eq_ok.mp isResolved
    cases sameHandle.symm.trans resolved
    cases same
    have isLower : state.target.handleOf (.declared handle) = .ok handle := by
      simp [Image.handleOf, Image.handleOf?, isInfo]
    cases isLower.symm.trans isHandle
    obtain ⟨upper, standsAbove, direct⟩ := below above listed
    exact ⟨upper, standsAbove, info, isInfo, direct⟩
  cases TypeContext.above_of_mem_supertypes isAbove with
  | base found isClass =>
      refine ofDeclared _ _ rfl found (List.mem_append_left _ ?_)
      rw [if_neg isClass]
      exact List.mem_singleton_self _
  | interface found listed => exact ofDeclared _ _ rfl found (List.mem_append_right _ listed)
  | array =>
      obtain ⟨_, isResolved, isHandle⟩ := stands
      obtain ⟨_, -, same⟩ := bind_eq_ok.mp isResolved
      cases same
      cases isHandle
  | platform listed =>
      rw [noInterfaces, List.append_nil, Option.mem_toList] at listed
      exact ofPlatform listed

/-! ## Instances -/

/-- What is known of a type that a value with some entry is an instance of.  A value without an
entry is an instance of `Object` at most, and arrays have no entries of their own. -/
def BuildState.Covers (state : BuildState Image) (actual : Option TypeHandle)
    (type : SourceTy) : Prop :=
  type = .object ∨ (∃ element, type = .array element) ∨
    ∃ lower upper, actual = some lower ∧ state.StandsFor type upper ∧
      state.target.derivesFrom lower upper = true

/-- A value is an instance of what it is accepted as an instance of. -/
theorem BuildState.covers_of_isInstance {resolved : RunTy} {heap : Heap} {value : Value}
    (isResolved : state.resolution.runTy type = .ok resolved)
    (accepted : Store.isInstance state.target heap value resolved = .ok true) :
    state.Covers (Store.typeOf? state.target heap value) type := by
  unfold Store.isInstance at accepted
  split at accepted
  · cases accepted
  · split at accepted
    · refine .inr (.inl ?_)
      cases type with
      | array element => exact ⟨element, rfl⟩
      | builtin => cases isResolved
      | generic | declared =>
          obtain ⟨_, -, same⟩ := bind_eq_ok.mp isResolved
          cases same
    · refine .inl ?_
      cases type with
      | builtin =>
          cases isResolved
          rfl
      | generic | declared | array =>
          obtain ⟨_, -, same⟩ := bind_eq_ok.mp isResolved
          cases same
    · obtain ⟨upper, isUpper, derives⟩ := bind_eq_ok.mp accepted
      obtain ⟨lower, isLower, derives⟩ := (Option.any_eq_true _ _).mp (Except.ok.inj derives)
      exact .inr (.inr ⟨lower, upper, isLower, ⟨resolved, isResolved, isUpper⟩, derives⟩)

/-- An instance of a type is an instance of all that the checker finds above the type. -/
theorem Module.Accepted.covers_above (accepted : module.Accepted image context program)
    (finished : program.Finished image state) (built : image.Built) {actual : Option TypeHandle}
    (covers : state.Covers actual type) :
    ∀ above ∈ context.supertypes type, state.Covers actual above := by
  intro above isAbove
  rcases covers with rfl | ⟨element, rfl⟩ | ⟨lower, upper, isActual, stands, derives⟩
  · have noInterfaces : context.image.interfaceTypes .object = [] :=
      (accepted.image ▸ built).interfaceTypes_eq_nil
    have none : above ∈ context.image.interfaceTypes .object := isAbove
    rw [noInterfaces] at none
    cases none
  · exact .inl (List.mem_singleton.mp isAbove)
  · obtain ⟨further, standsAbove, below⟩ := accepted.standsFor_above finished built stands isAbove
    exact .inr (.inr ⟨lower, further, isActual, standsAbove,
      (finished.built built).rooted.derivesFrom_trans derives below⟩)

end

end ClassForge
