import ClassForge.Proofs.Image.Subtyping
import ClassForge.Proofs.Typing.BaseChains

/-!
# Subtypes as they are declared

Assignability is the order that the declarations and the platform say: equal types, references to
`Object`, and references to types that are reached by going up through bases and interfaces.  It is
reflexive and transitive on all types, also where declarations go round in a circle, and the
searches that decide it end by themselves.
-/

namespace ClassForge

open Relation

namespace TypeContext

variable {context : TypeContext} {lower upper source goal : SourceTy}

/-- A type is directly above another one: as its base, which is `Object` for arrays and for classes
that name none, or as one of its interfaces. -/
inductive DeclaredAbove (context : TypeContext) : SourceTy → SourceTy → Prop where
  | base {name : Name} {decl : TypeDecl} {base : SourceTy}
      (found : context.symbols.type? name = some decl)
      (noValue : decl.attrs.isValueType = false) (noInterface : decl.attrs.isInterface = false)
      (written : decl.base = some base) : DeclaredAbove context (.declared name) base
  | root {name : Name} {decl : TypeDecl} (found : context.symbols.type? name = some decl)
      (noValue : decl.attrs.isValueType = false) (noInterface : decl.attrs.isInterface = false)
      (notWritten : decl.base = none) : DeclaredAbove context (.declared name) .object
  | interface {name : Name} {decl : TypeDecl} {interface : SourceTy}
      (found : context.symbols.type? name = some decl) (listed : interface ∈ decl.interfaces) :
      DeclaredAbove context (.declared name) interface
  | array (element : SourceTy) : DeclaredAbove context (.array element) .object
  | platformBase {type : SourceTy} {info entry : TypeInfo} {handle : TypeHandle} {builtin : Builtin}
      (found : context.image.platformInfo? type = some info) (isBase : info.base = some handle)
      (isEntry : context.image.type? handle = some entry) (isOrigin : entry.origin = .builtin builtin) :
      DeclaredAbove context type (.builtin builtin)
  | platformInterface {type : SourceTy} {info entry : TypeInfo} {handle : TypeHandle}
      {builtin : Builtin} (found : context.image.platformInfo? type = some info)
      (listed : handle ∈ info.interfaces) (isEntry : context.image.type? handle = some entry)
      (isOrigin : entry.origin = .builtin builtin) : DeclaredAbove context type (.builtin builtin)

theorem base?_declared {name : Name} {decl : TypeDecl}
    (found : context.symbols.type? name = some decl) (noValue : decl.attrs.isValueType = false)
    (noInterface : decl.attrs.isInterface = false) :
    context.base? (.declared name) = some (decl.base.getD .object) := by
  simp [base?, found, noValue, noInterface]

theorem interfaces_declared {name : Name} {decl : TypeDecl}
    (found : context.symbols.type? name = some decl) :
    context.interfaces (.declared name) = decl.interfaces := by
  rw [interfaces, found]
  rfl

/-- The base of a platform type is the one that its entry has. -/
theorem base?_platform (built : context.image.Built) {info entry : TypeInfo} {handle : TypeHandle}
    {builtin : Builtin} (found : context.image.platformInfo? lower = some info)
    (isBase : info.base = some handle) (isEntry : context.image.type? handle = some entry)
    (isOrigin : entry.origin = .builtin builtin) :
    context.base? lower = some (.builtin builtin) := by
  obtain ⟨noValue, notObject, notVoid⟩ :=
    Image.library_based info (built.platformInfo? found).2.2 handle isBase
  have isPlatform : lower.origin? = some info.origin := by
    rcases (Image.mem_types_of_platformInfo? found).2 with ⟨_, rfl, same⟩ | ⟨_, _, rfl, same⟩ <;>
      rw [same] <;> rfl
  rw [base?_of_origin? isPlatform notObject notVoid, Image.baseType?, found]
  simp [noValue, isBase, isEntry, isOrigin]

theorem declaredAbove_of_baseType? (built : context.image.Built)
    (isBase : context.image.baseType? lower = some upper) : context.DeclaredAbove lower upper := by
  obtain ⟨info, found, isBase⟩ := Option.bind_eq_some_iff.mp isBase
  split at isBase
  · cases isBase
  · obtain ⟨handle, isHandle, isBase⟩ := Option.bind_eq_some_iff.mp isBase
    obtain ⟨entry, isEntry, isBase⟩ := Option.bind_eq_some_iff.mp isBase
    -- Bases on the platform are never generic.
    obtain ⟨before, isBefore, builtin, -, isOrigin, -⟩ :=
      Image.library_bases info (built.platformInfo? found).2.2 handle isHandle
    obtain ⟨later, isLater, grows⟩ := built.extends_library.types _ before isBefore
    cases isLater.symm.trans isEntry
    rw [grows.origin, isOrigin] at isBase
    cases isBase
    exact .platformBase found isHandle isEntry (grows.origin.trans isOrigin)

/-- What the checker takes for a direct supertype is what was declared as one. -/
theorem declaredAbove_iff (built : context.image.Built) :
    context.DeclaredAbove lower upper ↔ context.Below lower upper := by
  constructor
  · intro above
    cases above with
    | base found noValue noInterface written =>
        refine List.mem_append_left _ (Option.mem_toList.mpr ?_)
        rw [base?_declared found noValue noInterface, written]
        rfl
    | root found noValue noInterface notWritten =>
        refine List.mem_append_left _ (Option.mem_toList.mpr ?_)
        rw [base?_declared found noValue noInterface, notWritten]
        rfl
    | interface found listed =>
        refine List.mem_append_right _ ?_
        rw [interfaces_declared found]
        exact listed
    | array element => exact List.mem_append_left _ List.mem_cons_self
    | platformBase found isBase isEntry isOrigin =>
        refine List.mem_append_left _ (Option.mem_toList.mpr ?_)
        exact base?_platform built found isBase isEntry isOrigin
    | platformInterface found listed =>
        rw [(Image.library_entries _ (built.platformInfo? found).2.2).interfaces] at listed
        cases listed
  · intro below
    have none : context.image.interfaceTypes lower = [] := built.interfaceTypes_eq_nil
    cases above_of_mem_supertypes below with
    | @base _ decl found isClass =>
        simp only [Bool.or_eq_true, not_or, Bool.not_eq_true] at isClass
        cases written : decl.base with
        | none => exact .root found isClass.1 isClass.2 written
        | some base => exact .base found isClass.1 isClass.2 written
    | interface found listed => exact .interface found listed
    | array => exact .array _
    | platform listed =>
        rw [none, List.append_nil, Option.mem_toList] at listed
        exact declaredAbove_of_baseType? built listed

/-! ## The order -/

/-- A type is assignable to another one by declaration. -/
def IsSubtype (context : TypeContext) (source goal : SourceTy) : Prop :=
  source = goal ∨ (context.isValue source = false ∧ source ≠ .void ∧
    (goal = .object ∨ TransGen context.DeclaredAbove source goal))

theorem isAssignable_iff_isSubtype (built : context.image.Built) :
    context.isAssignable source goal = true ↔ context.IsSubtype source goal := by
  have same : context.DeclaredAbove = context.Below := by
    funext lower upper
    exact propext (declaredAbove_iff built)
  have isVoid : source.isVoid = false ↔ source ≠ .void := by
    rw [← Bool.not_eq_true, Ty.isVoid_iff]
  rw [isAssignable_iff, IsSubtype, same, isVoid]

theorem isAssignable_refl (type : SourceTy) : context.isAssignable type type = true :=
  isAssignable_iff.mpr (.inl rfl)

/-- Nothing is above `Object`, so going up does not go on from there. -/
theorem isAssignable_trans (built : context.image.Built) {middle : SourceTy}
    (first : context.isAssignable source middle = true)
    (second : context.isAssignable middle goal = true) :
    context.isAssignable source goal = true := by
  rw [isAssignable_iff] at *
  rcases first with rfl | ⟨noValue, noVoid, above⟩
  · exact second
  · rcases second with rfl | ⟨-, -, rfl | reaches⟩
    · exact .inr ⟨noValue, noVoid, above⟩
    · exact .inr ⟨noValue, noVoid, .inl rfl⟩
    · refine .inr ⟨noValue, noVoid, .inr ?_⟩
      rcases above with rfl | early
      · obtain ⟨_, below, -⟩ := TransGen.head'_iff.mp reaches
        rw [Below, supertypes_object built] at below
        cases below
      · exact early.trans reaches

/-- The searches that start from a type end by themselves: with more steps than they have they find
the same. -/
structure SearchesEnd (context : TypeContext) (type : SourceTy) : Prop where
  baseChain : ∀ steps, context.parents.length ≤ steps →
    context.climb steps [type] type = context.baseChain type
  ancestors : ∀ steps, context.parents.length < steps →
    context.spread steps [] [type] = context.ancestors type
  candidates : ∀ steps, context.parents.length < steps →
    context.spread steps (context.baseChain type) (context.baseChain type) =
      context.withAncestors (context.baseChain type)

theorem searchesEnd (type : SourceTy) : context.SearchesEnd type := by
  refine ⟨baseChain_ends.choose_spec.2.2.2, fun steps enough => ?_, fun steps enough => ?_⟩
  · exact searching_ancestors.spread_eq (List.Subset.refl _) (by simp) enough
  · refine searching_baseChain.spread_eq (List.subset_cons_self _ _) ?_ enough
    have := List.length_pos_of_mem (@mem_baseChain_self context type)
    rw [List.length_cons]
    omega

/-- Assignability is the declared order of types, for every symbol table, also where bases or
interfaces go round in a circle: the searches that decide it end, and it is reflexive and
transitive. -/
theorem assignability_declared (symbols : Symbols) {image : Image} (built : image.Built) :
    let context : TypeContext := { symbols, image }
    (∀ type, context.SearchesEnd type) ∧
    (∀ source goal, context.isAssignable source goal = true ↔ context.IsSubtype source goal) ∧
    (∀ type, context.isAssignable type type = true) ∧
    ∀ first second third, context.isAssignable first second = true →
      context.isAssignable second third = true → context.isAssignable first third = true := by
  intro context
  exact ⟨searchesEnd, fun _ _ => isAssignable_iff_isSubtype built, isAssignable_refl,
    fun _ _ _ => isAssignable_trans built⟩

/-- Two classes that derive from each other, one of which lists an interface. -/
def circular : Symbols :=
  let hen : TypeDecl := { attrs := .publicClass, base := some (.declared "Egg") }
  let egg : TypeDecl :=
    { attrs := .publicClass, base := some (.declared "Hen"), interfaces := [.declared "Round"] }
  let round : TypeDecl := { attrs := .publicInterface }
  ⟨[(.type "Hen", .type hen), (.type "Egg", .type egg), (.type "Round", .type round)]⟩

theorem assignability_circular :
    let context : TypeContext := { symbols := circular, image := .library }
    Image.library.Built ∧ context.SearchesEnd (.declared "Hen") ∧
      context.isAssignable (.declared "Hen") (.declared "Round") = true := by
  intro context
  obtain ⟨searches, declared, -⟩ := assignability_declared circular .library
  have egg : context.DeclaredAbove (.declared "Hen") (.declared "Egg") := .base rfl rfl rfl rfl
  have round : context.DeclaredAbove (.declared "Egg") (.declared "Round") :=
    .interface rfl List.mem_cons_self
  refine ⟨.library, searches _, (declared _ _).mpr (.inr ⟨rfl, nofun, .inr ?_⟩)⟩
  exact .tail (.single egg) round

end TypeContext

end ClassForge
