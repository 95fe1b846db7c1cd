import ClassForge.Proofs.Typing.VoidFree

/-!
# Which expressions have values

Where a module mentions `Void` only for methods, loops and throws, the members that the
checker finds have void-free types, and whether a method returns a value is what its
declaration or the platform says.  An accepted expression then is of a void-free type, or it
is of type `Void` and stands where no value is taken.
-/

namespace ClassForge

/-! ## Types that a module mentions -/

/-- The types of values that a form mentions. -/
def UnaryForm.valueTypes : UnaryForm → List SourceTy
  | newArray type | setStaticField type _ | setStaticProperty type _ | unbox type | cast type
  | isInstance type => [type]
  | _ => []

/-- The types that a form claims for its result. -/
def UnaryForm.resultTypes : UnaryForm → List SourceTy
  | throw type => [type]
  | _ => []

namespace Expr

/-- The types of values that a node mentions. -/
def valueTypes : Expr → List SourceTy
  | literal (.null type) => [type]
  | letRec clauses _ => clauses.map fun clause => clause.1.type
  | loop _ _ vars _ _ => vars.map fun var => var.1.type
  | lambda _ params _ => params.map Param.type
  | unary form _ => form.valueTypes
  | staticField owner _ | staticProperty owner _ | staticCall owner _ _ => [owner]
  | new type _ => [type]
  | tryCatch _ _ catches | tryFinally _ _ catches _ => catches.map fun handler => handler.1.type
  | _ => []

/-- The types of results that a node mentions. -/
def resultTypes : Expr → List SourceTy
  | loop _ _ _ ret _ => [ret]
  | unary form _ => form.resultTypes
  | _ => []

/-- A node mentions `Void` at most as the type of a result. -/
structure VoidOnlyReturned (expr : Expr) : Prop where
  values : ∀ type ∈ expr.valueTypes, type.isVoidFree = true
  results : ∀ type ∈ expr.resultTypes, type.IsResult

end Expr

namespace ClassDef

/-- The types of values that the declarations of a class mention. -/
def valueTypes (cls : ClassDef) : List SourceTy :=
  cls.base.toList ++ cls.interfaces ++ cls.fields.map FieldDef.type ++
    cls.methods.flatMap MethodDef.paramTypes ++ cls.ctors.flatMap CtorDef.paramTypes ++
    cls.properties.map PropertyDef.type

/-- Every expression in a class. -/
def nodes (cls : ClassDef) : List Expr :=
  cls.roots.flatMap Expr.preorder

end ClassDef

/-- `Void` occurs only as the type that a method or a loop returns and as the type of a
throw. -/
def Module.VoidOnlyReturned (module : Module) : Prop :=
  ∀ cls ∈ module.classes,
    (∀ type ∈ cls.valueTypes, type.isVoidFree = true) ∧
    (∀ method ∈ cls.methods, method.ret.IsResult) ∧
    ∀ node ∈ cls.nodes, (∀ type ∈ node.valueTypes, type.isVoidFree = true) ∧
      ∀ type ∈ node.resultTypes, type.IsResult

instance (module : Module) : Decidable module.VoidOnlyReturned :=
  inferInstanceAs (Decidable (∀ _ ∈ _, _))

namespace Symbols

/-- A method is declared that returns a type. -/
def Returns (symbols : Symbols) (key : MethodKey) (ret : SourceTy) : Prop :=
  ∃ attrs, (Key.method key, Declaration.method ⟨attrs, ret⟩) ∈ symbols.entries

/-- Declarations mention `Void` only as what methods return, and properties are declared with
their accessors. -/
structure VoidFree (symbols : Symbols) : Prop where
  supertypes : ∀ {name : Name} {decl : TypeDecl},
    (Key.type name, Declaration.type decl) ∈ symbols.entries →
      ∀ type ∈ decl.base.toList ++ decl.interfaces, type.isVoidFree = true
  field : ∀ {key : FieldKey} {decl : FieldDecl},
    (Key.field key, Declaration.field decl) ∈ symbols.entries → decl.type.isVoidFree = true
  method : ∀ {key : MethodKey} {decl : MethodDecl},
    (Key.method key, Declaration.method decl) ∈ symbols.entries →
      (∀ param ∈ key.params, param.isVoidFree = true) ∧ decl.ret.IsResult
  ctor : ∀ {key : CtorKey} {decl : CtorDecl},
    (Key.ctor key, Declaration.ctor decl) ∈ symbols.entries →
      ∀ param ∈ key.params, param.isVoidFree = true
  property : ∀ {key : PropertyKey} {decl : PropertyDecl},
    (Key.property key, Declaration.property decl) ∈ symbols.entries →
      decl.type.isVoidFree = true ∧
      (decl.hasGetter = true →
        symbols.Returns ⟨key.owner, getterName key.name, !decl.isStatic, []⟩ decl.type) ∧
      (decl.hasSetter = true →
        symbols.Returns ⟨key.owner, setterName key.name, !decl.isStatic, [decl.type]⟩ .void)

end Symbols

theorem Module.Accepted.voidFree {module : Module} {image : Image} {context : TypeContext}
    {program : Program} (accepted : module.Accepted image context program)
    (returned : module.VoidOnlyReturned) : context.symbols.VoidFree := by
  have declares : ∀ {cls key decl}, cls ∈ module.classes → (key, decl) ∈ cls.declarations →
      (key, decl) ∈ context.symbols.entries := by
    intro cls key decl member declared
    rw [Symbols.ofModule_entries accepted.symbols]
    exact List.mem_flatMap.mpr ⟨cls, member, declared⟩
  have mentions : ∀ {cls type}, cls ∈ module.classes → type ∈ cls.valueTypes →
      type.isVoidFree = true := fun isClass mentioned => (returned _ isClass).1 _ mentioned
  refine ⟨?_, ?_, ?_, ?_, ?_⟩
  · intro name decl entry type isAbove
    obtain ⟨cls, isClass, declared⟩ := accepted.mem_entries entry
    obtain ⟨rfl, rfl⟩ := ClassDef.of_mem_type declared
    refine mentions isClass ?_
    simp only [ClassDef.valueTypes, List.append_assoc]
    rw [← List.append_assoc]
    exact List.mem_append_left _ isAbove
  · intro key decl entry
    obtain ⟨cls, isClass, declared⟩ := accepted.mem_entries entry
    obtain ⟨field, isField, -, rfl⟩ := ClassDef.of_mem_field declared
    refine mentions isClass ?_
    simp only [ClassDef.valueTypes, List.mem_append, List.mem_map]
    exact .inl (.inl (.inl (.inr ⟨field, isField, rfl⟩)))
  · intro key decl entry
    obtain ⟨cls, isClass, declared⟩ := accepted.mem_entries entry
    rcases ClassDef.mem_declarations.mp declared with ⟨⟨⟩, -⟩ | ⟨_, -, ⟨⟩, -⟩ |
      ⟨method, isMethod, same, isDecl⟩ | ⟨_, -, ⟨⟩, -⟩ | ⟨property, isProperty, ofProperty⟩
    · cases same
      cases isDecl
      refine ⟨fun param isParam => mentions isClass ?_, (returned cls isClass).2.1 method isMethod⟩
      simp only [ClassDef.valueTypes, List.mem_append, List.mem_flatMap]
      exact .inl (.inl (.inr ⟨method, isMethod, isParam⟩))
    · have propertyFree : property.type.isVoidFree = true :=
        mentions isClass (List.mem_append_right _ (List.mem_map_of_mem isProperty))
      rcases ClassDef.mem_ofProperty.mp ofProperty with ⟨⟨⟩, -⟩ | ⟨getter, isGetter, same, isDecl⟩ |
        ⟨setter, isSetter, same, isDecl⟩
      · cases same
        cases isDecl
        obtain ⟨_, -, rfl⟩ := Option.map_eq_some_iff.mp isGetter
        exact ⟨nofun, .inr propertyFree⟩
      · cases same
        cases isDecl
        obtain ⟨_, -, rfl⟩ := Option.map_eq_some_iff.mp isSetter
        refine ⟨fun param isParam => ?_, .inl rfl⟩
        obtain rfl := List.mem_singleton.mp isParam
        exact propertyFree
  · intro key decl entry param isParam
    obtain ⟨cls, isClass, declared⟩ := accepted.mem_entries entry
    rcases ClassDef.mem_declarations.mp declared with ⟨⟨⟩, -⟩ | ⟨_, -, ⟨⟩, -⟩ |
      ⟨_, -, ⟨⟩, -⟩ | ⟨ctor, isCtor, same, -⟩ | ⟨property, -, ofProperty⟩
    · cases same
      unfold ClassDef.allCtors at isCtor
      split at isCtor
      · obtain rfl := List.mem_singleton.mp isCtor
        cases isParam
      · refine mentions isClass ?_
        simp only [ClassDef.valueTypes, List.mem_append, List.mem_flatMap]
        exact .inl (.inr ⟨ctor, isCtor, isParam⟩)
    · rcases ClassDef.mem_ofProperty.mp ofProperty with ⟨⟨⟩, -⟩ | ⟨_, -, ⟨⟩, -⟩ | ⟨_, -, ⟨⟩, -⟩
  · intro key decl entry
    obtain ⟨cls, isClass, declared⟩ := accepted.mem_entries entry
    obtain ⟨property, isProperty, isType, getter, setter⟩ := ClassDef.of_mem_property declared
    refine ⟨isType ▸ mentions isClass (List.mem_append_right _ (List.mem_map_of_mem isProperty)),
      fun hasGetter => ?_, fun hasSetter => ?_⟩
    · obtain ⟨attrs, isDeclared⟩ := getter hasGetter
      exact ⟨attrs, declares isClass isDeclared⟩
    · obtain ⟨attrs, isDeclared⟩ := setter hasSetter
      exact ⟨attrs, declares isClass isDeclared⟩

/-! ## Members that are found -/

/-- What a callee returns is what its declaration says, and a platform method returns a value
if the others of its name do. -/
structure Callee.Known (returns : MethodKey → SourceTy → Prop) (callee : Callee) : Prop where
  declared : ∀ key ∈ callee.methodKey?, returns key callee.ret
  platform : ∀ origin ∈ callee.owner.origin?,
    callee.ret.isVoid = Image.library.returnsVoid origin callee.name

theorem Callee.Known.imp {returns other : MethodKey → SourceTy → Prop} {callee : Callee}
    (known : callee.Known returns) (implies : ∀ key ret, returns key ret → other key ret) :
    callee.Known other :=
  ⟨fun key isKey => implies key _ (known.declared key isKey), known.platform⟩

namespace TypeContext

variable {candidates : List Callee} {args : List SourceTy}

/-- Neither the declarations nor the platform mention `Void` as the type of a value. -/
structure VoidFree (context : TypeContext) : Prop where
  symbols : context.symbols.VoidFree
  built : context.image.Built

variable {context : TypeContext} {owner type : SourceTy} {name : Name}

theorem isVoid_of_isReference (reference : context.isReference type = true) :
    type.isVoid = false := by
  simpa using (Bool.and_eq_true_iff.mp reference).1

/-- Only what has a value can be assigned to a variable that has one. -/
theorem isVoid_of_isAssignable {goal : SourceTy}
    (assignable : context.isAssignable type goal = true) (isValue : goal.isVoid = false) :
    type.isVoid = false := by
  rcases Bool.or_eq_true_iff.mp assignable with same | converts
  · rwa [beq_iff_eq.mp same]
  · simpa using (Bool.and_eq_true_iff.mp (Bool.and_eq_true_iff.mp converts).1).2

/-- A callee that is chosen has as many parameters as there are arguments, and takes them. -/
theorem select_takes {callee : Callee}
    (selected : context.select owner name candidates args = .ok callee) :
    callee.params.length = args.length ∧
      (callee.params = args ∨ context.accepts callee.params args = true) := by
  -- What is left of two tests passes both.
  have passes : ∀ {test other : Callee → Bool},
      ((candidates.filter test).filter other) = [callee] →
        test callee = true ∧ other callee = true := by
    intro test other shape
    have kept : callee ∈ (candidates.filter test).filter other := by simp [shape]
    exact ⟨(List.mem_filter.mp (List.mem_of_mem_filter kept)).2, (List.mem_filter.mp kept).2⟩
  unfold select at selected
  split at selected
  · cases selected
  · dsimp only at selected
    split at selected
    · cases selected
    · split at selected
      · rename_i shape
        cases selected
        obtain ⟨count, same⟩ := passes shape
        exact ⟨beq_iff_eq.mp count, .inl (beq_iff_eq.mp same)⟩
      · cases selected
      · split at selected
        · rename_i shape
          cases selected
          obtain ⟨count, accepted⟩ := passes shape
          exact ⟨beq_iff_eq.mp count, .inr accepted⟩
        · cases selected
        · split at selected <;> cases selected

/-- The arguments of a callee whose parameters are types of values have values. -/
theorem isVoid_of_select {callee : Callee}
    (selected : context.select owner name candidates args = .ok callee)
    (params : ∀ param ∈ callee.params, param.isVoidFree = true) :
    ∀ arg ∈ args, arg.isVoid = false := by
  obtain ⟨count, rfl | accepted⟩ := select_takes selected
  · exact fun arg isArg => Ty.isVoid_eq_false (params arg isArg)
  · intro arg isArg
    obtain ⟨param, paired⟩ := exists_mem_zip count isArg
    exact isVoid_of_isAssignable (List.all_eq_true.mp accepted _ paired)
      (Ty.isVoid_eq_false (params param (List.of_mem_zip paired).1))

namespace VoidFree

variable {property : PropertyTarget} {callee : Callee} {isStatic : Bool}

variable (voidFree : context.VoidFree)
include voidFree

/-- The supertypes of a type of values are types of values. -/
theorem supertypes (type : SourceTy) (free : type.isVoidFree = true) :
    ∀ above ∈ context.supertypes type, above.isVoidFree = true := by
  intro above member
  have noInterfaces : context.image.interfaceTypes type = [] :=
    voidFree.built.interfaceTypes_eq_nil
  cases above_of_mem_supertypes member with
  | @base _ decl found =>
      rcases decl.base_listed with isObject | listed
      · rw [isObject]
        rfl
      · exact voidFree.symbols.supertypes (Symbols.mem_entries_of_type? found) _ listed
  | interface found listed =>
      exact voidFree.symbols.supertypes (Symbols.mem_entries_of_type? found) above
        (List.mem_append_right _ listed)
  | array => rfl
  | platform listed =>
      rw [noInterfaces, List.append_nil, Option.mem_toList] at listed
      exact voidFree.built.baseType?_voidFree listed

theorem ownField? (free : type.isVoidFree = true) {field : FieldTarget}
    (found : context.ownField? name type = some field) :
    field.type.isVoidFree = true := by
  unfold TypeContext.ownField? at found
  split at found
  · obtain ⟨⟨key, decl⟩, present, rfl⟩ := Option.map_eq_some_iff.mp found
    exact voidFree.symbols.field (Symbols.mem_of_fieldNamed? present).1
  · obtain ⟨sig, present, rfl⟩ := Option.map_eq_some_iff.mp found
    exact voidFree.built.fieldSig?_voidFree free present

/-- A property is of a void-free type; its getter returns a value, its setter does not. -/
theorem ownProperty? (found : context.ownProperty? name type = some property) :
    property.type.isVoidFree = true ∧
      (property.hasGetter = true → property.getter.Known context.symbols.Returns) ∧
      (property.hasSetter = true → property.setter.Known context.symbols.Returns) := by
  unfold TypeContext.ownProperty? at found
  split at found
  · obtain ⟨⟨key, decl⟩, present, rfl⟩ := Option.map_eq_some_iff.mp found
    obtain ⟨entry, rfl, rfl⟩ := Symbols.mem_of_propertyNamed? present
    obtain ⟨free, getter, setter⟩ := voidFree.symbols.property entry
    refine ⟨free, fun has => ⟨?_, nofun⟩, fun has => ⟨?_, nofun⟩⟩
    · rintro _ ⟨⟩
      exact getter has
    · rintro _ ⟨⟩
      exact setter has
  · rename_i notDeclared
    obtain ⟨sig, present, rfl⟩ := Option.map_eq_some_iff.mp found
    obtain ⟨free, accessors⟩ := voidFree.built.propertySig?_voidFree present
    have noKey : type.declared? = none := by
      cases type with
      | declared name => exact (notDeclared name rfl).elim
      | _ => rfl
    refine ⟨free, fun has => ⟨?_, fun origin isOrigin => ?_⟩,
      fun has => ⟨?_, fun origin isOrigin => ?_⟩⟩
    · simp [Callee.methodKey?, PropertyTarget.getter, noKey]
    · exact (Ty.isVoid_eq_false free).trans ((accessors origin isOrigin).1 (by simpa using has)).symm
    · simp [Callee.methodKey?, PropertyTarget.setter, noKey]
    · exact ((accessors origin isOrigin).2 (by simpa using has)).symm

theorem ownMethods (free : type.isVoidFree = true) (found : callee ∈ context.ownMethods name type) :
    (∀ param ∈ callee.params, param.isVoidFree = true) ∧ callee.ret.IsResult ∧
      callee.Known context.symbols.Returns := by
  unfold TypeContext.ownMethods at found
  split at found
  · obtain ⟨⟨key, decl⟩, present, rfl⟩ := List.mem_map.mp found
    obtain ⟨entry, rfl, rfl⟩ := Symbols.mem_methodsNamed present
    obtain ⟨params, isResult⟩ := voidFree.symbols.method entry
    refine ⟨params, isResult, ?_, nofun⟩
    rintro _ ⟨⟩
    exact ⟨decl.attrs, entry⟩
  · rename_i notDeclared
    obtain ⟨sig, present, rfl⟩ := List.mem_map.mp found
    obtain ⟨params, isResult, platform⟩ := voidFree.built.methodSigs_voidFree free present
    have noKey : type.declared? = none := by
      cases type with
      | declared name => exact (notDeclared name rfl).elim
      | _ => rfl
    exact ⟨params, isResult, by simp [Callee.methodKey?, noKey], platform⟩

theorem accessField (free : owner.isVoidFree = true) {field : FieldTarget}
    (found : context.accessField owner name isStatic = .ok field) :
    field.type.isVoidFree = true ∧ field.isStatic = isStatic := by
  obtain ⟨type, member, own, static⟩ := accessField_eq_ok found
  exact ⟨voidFree.ownField? (baseChain_all voidFree.supertypes free type member) own, static⟩

theorem accessGetter {getter : Callee}
    (found : context.accessGetter owner name isStatic = .ok getter) :
    getter.ret.isVoidFree = true ∧ getter.Known context.symbols.Returns ∧
      getter.isInstance = !isStatic ∧ getter.params = [] := by
  obtain ⟨property, type, -, own, rfl, has, rfl⟩ := accessGetter_eq_ok found
  obtain ⟨free, known, -⟩ := voidFree.ownProperty? own
  exact ⟨free, known has, rfl, rfl⟩

theorem accessSetter (found : context.accessSetter owner name isStatic = .ok property) :
    property.type.isVoidFree = true ∧ property.setter.Known context.symbols.Returns ∧
      property.isStatic = isStatic := by
  obtain ⟨type, -, own, static, has⟩ := accessSetter_eq_ok found
  obtain ⟨free, -, known⟩ := voidFree.ownProperty? own
  exact ⟨free, known has, static⟩

theorem methodCandidates (free : owner.isVoidFree = true) {isInstance : Bool}
    (candidate : callee ∈ context.methodCandidates owner name isInstance) :
    callee.isInstance = isInstance ∧ (∀ param ∈ callee.params, param.isVoidFree = true) ∧
      callee.ret.IsResult ∧ callee.Known context.symbols.Returns := by
  obtain ⟨agrees, type, reaches, own⟩ := mem_methodCandidates voidFree.supertypes candidate
  exact ⟨agrees, voidFree.ownMethods (reaches free) own⟩

theorem ctorCandidates (free : type.isVoidFree = true)
    (candidate : callee ∈ context.ctorCandidates type) :
    ∀ param ∈ callee.params, param.isVoidFree = true := by
  obtain ⟨params, areParams, rfl⟩ := List.mem_map.mp candidate
  split at areParams
  · obtain ⟨⟨key, decl⟩, present, rfl⟩ := List.mem_map.mp areParams
    exact voidFree.symbols.ctor (Symbols.mem_ctorsOf present).1
  · obtain ⟨sig, present, rfl⟩ := List.mem_map.mp areParams
    exact voidFree.built.ctorSigs_voidFree free present

end VoidFree

end TypeContext

end ClassForge
