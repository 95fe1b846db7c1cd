import ClassForge.Proofs.Build.MadeEntries

/-!
# Requests that are granted

An image grants a request when what it refers to is there and what it adds is not.  These are the
conditions under which each request is granted, for types that build on nothing and that have one
constructor and one method.
-/

namespace ClassForge

namespace Image

variable {image : Image} {owner : TypeHandle} {info : TypeInfo} {name : Name}

/-- A type of a new name can be declared. -/
theorem declareType_granted (built : image.Built) (free : image.typeNamed? name = none)
    (attrs : TypeAttrs) : ∃ result, image.declareType name attrs none [] = .ok result := by
  obtain ⟨root, isRoot⟩ : ∃ root, image.resolveBase attrs none = .ok root := by
    unfold resolveBase
    dsimp only
    split
    · exact ⟨none, rfl⟩
    · exact ⟨_, bind_eq_ok.mpr ⟨_, built.handleOf_object, rfl⟩⟩
  unfold declareType
  rw [free, isRoot]
  exact ⟨_, rfl⟩

/-- A field of a new name can be declared on an open type. -/
theorem declareField_granted {type : RunTy} (known : image.checkTy type = .ok ())
    (isOpen : image.openType owner = .ok info)
    (isNew : ∀ handle ∈ info.fields, ∀ field ∈ image.field? handle, field.name ≠ name)
    (attrs : FieldAttrs) : ∃ result, image.declareField owner name type attrs = .ok result := by
  unfold declareField
  rw [known, isOpen]
  dsimp only [bind, Except.bind]
  rw [if_neg]
  · exact ⟨_, rfl⟩
  · intro present
    obtain ⟨⟨handle, field⟩, isField, same⟩ := List.any_eq_true.mp present
    obtain ⟨listed, isHere⟩ := mem_fieldsOf.mp isField
    exact isNew handle listed field isHere (beq_iff_eq.mp same)

/-- A first method can be declared on an open type. -/
theorem declareMethod_granted {params : List RunTy} {ret : RunTy}
    (known : image.checkTys (params ++ [ret]) = .ok ())
    (isOpen : image.openType owner = .ok info) (none : info.methods = []) (attrs : MethodAttrs) :
    ∃ result, image.declareMethod owner name attrs params ret = .ok result := by
  unfold declareMethod
  rw [known, isOpen]
  dsimp only [bind, Except.bind]
  rw [methodsOf, none]
  exact ⟨_, rfl⟩

/-- A first constructor can be declared on an open type. -/
theorem declareCtor_granted {params : List RunTy} (known : image.checkTys params = .ok ())
    (isOpen : image.openType owner = .ok info) (none : info.ctors = []) :
    ∃ result, image.declareCtor owner params = .ok result := by
  unfold declareCtor
  rw [known, isOpen]
  dsimp only [bind, Except.bind]
  rw [ctorsOf, none]
  exact ⟨_, rfl⟩

/-- A method of an open type that should have code and has none can be given some. -/
theorem defineMethod_granted {handle : MethodHandle} {method : MethodInfo}
    (isMethod : image.method? handle = some method)
    (isOpen : image.openType method.owner = .ok info) (concrete : method.attrs.isAbstract = false)
    (missing : method.implementation.isMissing = true) (body : Body) :
    ∃ result, image.defineMethod handle body = .ok result := by
  unfold defineMethod
  rw [method_eq_ok.mpr isMethod]
  simp only [bind, Except.bind, isOpen, concrete, missing]
  exact ⟨_, rfl⟩

/-- A constructor of an open type that has no code can be given some. -/
theorem defineCtor_granted {handle : CtorHandle} {ctor : CtorInfo}
    (isCtor : image.ctor? handle = some ctor) (isOpen : image.openType ctor.owner = .ok info)
    (missing : ctor.implementation.isMissing = true) (body : Body) :
    ∃ result, image.defineCtor handle body = .ok result := by
  unfold defineCtor
  rw [ctor_eq_ok.mpr isCtor]
  simp only [bind, Except.bind, isOpen, missing]
  exact ⟨_, rfl⟩

/-- An open type can be completed when its base is complete and its members have their code. -/
theorem sealType_granted {handle : TypeHandle} (isOpen : image.openType handle = .ok info)
    (based : ∀ root ∈ info.base, ∃ above, image.type? root = some above ∧ above.isComplete = true)
    (alone : info.interfaces = [])
    (methods : ∀ member ∈ info.methods, ∃ method, image.method? member = some method ∧
      method.implementation.isMissing = false)
    (ctors : ∀ member ∈ info.ctors, ∃ ctor, image.ctor? member = some ctor ∧
      ctor.implementation.isMissing = false) :
    ∃ result, image.sealType handle = .ok result := by
  obtain ⟨inherited, isInherited⟩ : ∃ count, image.inheritedSlots info = .ok count := by
    unfold inheritedSlots
    cases isBase : info.base with
    | none => exact ⟨0, rfl⟩
    | some root =>
        obtain ⟨above, isAbove, complete⟩ := based root isBase
        refine ⟨above.instanceSlots, bind_eq_ok.mpr ⟨above, type_eq_ok.mpr isAbove, ?_⟩⟩
        rw [complete]
        rfl
  have bodies : image.checkBodies info = .ok () := by
    refine bind_eq_ok.mpr ⟨(), forM_eq_ok.mpr fun member listed => ?_,
      forM_eq_ok.mpr fun member listed => ?_⟩
    · obtain ⟨method, isMethod, isThere⟩ := methods member listed
      refine bind_eq_ok.mpr ⟨method, method_eq_ok.mpr isMethod, ?_⟩
      rw [isThere]
      rfl
    · obtain ⟨ctor, isCtor, isThere⟩ := ctors member listed
      refine bind_eq_ok.mpr ⟨ctor, ctor_eq_ok.mpr isCtor, ?_⟩
      rw [isThere]
      rfl
  have interfaces : image.checkInterfaces handle info = .ok () := by
    unfold checkInterfaces
    rw [alone]
    split <;> rfl
  unfold sealType
  simp only [bind, Except.bind, isOpen, isInherited, bodies, interfaces]
  exact ⟨_, rfl⟩

end Image

/-! ## Actions that are not refused -/

namespace Build.Ensures

variable {τ α β : Type} {permits : Diagnostic → Prop} {state : BuildState τ}
variable {post : β → BuildState τ → Prop}

/-- What goes on with something that was read may rely on where it comes from. -/
theorem resolveThen {read : Resolution → Except Diagnostic α} {next : α → Build τ β}
    (yields : Yields permits (read state.resolution) fun _ => True)
    (continues : ∀ value, read state.resolution = .ok value →
      Build.Ensures permits state (next value) post) :
    Build.Ensures permits state (Build.resolve read >>= next) post := by
  have reads : Build.Ensures permits state (Build.resolve read) fun value after =>
      read state.resolution = .ok value ∧ after = state := by
    unfold Build.Ensures
    rw [Build.run_resolve]
    cases isRead : read state.resolution with
    | ok value => exact ⟨rfl, rfl⟩
    | error diagnostic =>
        rw [isRead] at yields
        exact yields
  refine reads.bind ?_
  rintro value _ ⟨isRead, rfl⟩
  exact continues value isRead

/-- A request that is granted is not what an action fails with. -/
theorem requestThen {action : τ → Except ImageError (α × τ)} {next : α → Build τ β}
    (granted : ∃ result, action state.target = .ok result)
    (continues : ∀ value target, Build.Ensures permits { state with target } (next value) post) :
    Build.Ensures permits state (Build.request action >>= next) post := by
  obtain ⟨⟨value, target⟩, isGranted⟩ := granted
  unfold Build.Ensures
  rw [EStateM.run_bind, Build.run_request, isGranted]
  exact continues value target

end Build.Ensures

end ClassForge
