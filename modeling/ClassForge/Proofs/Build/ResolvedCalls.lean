import ClassForge.Proofs.Code.CallEffects
import ClassForge.Proofs.Typing.Ancestry

/-!
# Methods that calls are resolved to

In a finished build every type that checked code mentions has a handle, and so has every method
that the checker found for a call.  The entry of the method returns what the checker took the
call to return, unless the method is that of a function type, whose entries are erased.
-/

namespace ClassForge

variable {name : Name} {params : List SourceTy}

/-! ## Types there and back -/

namespace Ty

variable {κ μ ε : Type} {replace : κ → Except ε μ} {label : μ → κ}

/-- A type whose names are resolved says the same when the handles are labelled with the names. -/
theorem mapKeys_of_resolve (labels : ∀ key handle, replace key = .ok handle → label handle = key)
    {type : Ty κ} {result : Ty μ} (done : type.resolve replace = .ok result) :
    result.mapKeys label = type := by
  induction type generalizing result with
  | builtin builtin =>
      cases done
      rfl
  | generic definition args ih =>
      obtain ⟨results, areResults, ⟨⟩⟩ := bind_eq_ok.mp done
      have each := (List.forall₂_and_left _ _).mpr ⟨@ih, resolveList_eq_ok.mp areResults⟩
      have same : List.Forall₂ (fun result arg => result.mapKeys label = arg) results args :=
        (each.imp fun _ _ ⟨there, done⟩ => there done).flip
      have there : results.map (mapKeys label) = args :=
        List.forall₂_eq_eq_eq ▸ List.forall₂_map_left_iff.mpr same
      rw [mapKeys, mapKeysList_eq_map, there]
  | declared key =>
      obtain ⟨handle, isHandle, ⟨⟩⟩ := bind_eq_ok.mp done
      rw [mapKeys, labels key handle isHandle]
  | array element ih =>
      obtain ⟨inner, isInner, ⟨⟩⟩ := bind_eq_ok.mp done
      rw [mapKeys, ih isInner]

theorem mapKeysList_of_resolveList
    (labels : ∀ key handle, replace key = .ok handle → label handle = key) {types : List (Ty κ)}
    {results : List (Ty μ)} (done : resolveList replace types = .ok results) :
    mapKeysList label results = types := by
  have same := ((resolveList_eq_ok.mp done).imp fun _ _ => mapKeys_of_resolve labels).flip
  rw [mapKeysList_eq_map]
  exact List.forall₂_eq_eq_eq ▸ List.forall₂_map_left_iff.mpr same

theorem mentions_of_generic {definition : Name} {args : List (Ty κ)}
    (plain : (generic definition args).mentions = []) : ∀ arg ∈ args, arg.mentions = [] := by
  rwa [mentions, mentionsList_eq_flatMap, List.flatMap_eq_nil_iff] at plain

/-- A type that mentions no declared types is resolved to itself, however it is labelled. -/
theorem resolve_mapKeys (replace : κ → Except ε μ) (label : μ → κ) {type : Ty μ}
    (plain : type.mentions = []) : (type.mapKeys label).resolve replace = .ok type := by
  induction type with
  | builtin builtin => rfl
  | generic definition args ih =>
      refine bind_eq_ok.mpr ⟨args, resolveList_eq_ok.mpr ?_, rfl⟩
      rw [mapKeysList_eq_map, List.forall₂_map_left_iff, List.forall₂_same]
      exact fun arg isArg => ih arg isArg (mentions_of_generic plain arg isArg)
  | declared key => cases plain
  | array element ih => exact bind_eq_ok.mpr ⟨element, ih plain, rfl⟩

/-- How handles are labelled is of no account to a type that mentions none. -/
theorem mapKeys_congr (label other : κ → μ) {type : Ty κ} (plain : type.mentions = []) :
    type.mapKeys label = type.mapKeys other := by
  induction type with
  | builtin builtin => rfl
  | generic definition args ih =>
      rw [mapKeys, mapKeys, mapKeysList_eq_map, mapKeysList_eq_map, List.map_congr_left]
      exact fun arg isArg => ih arg isArg (mentions_of_generic plain arg isArg)
  | declared key => cases plain
  | array element ih => rw [mapKeys, mapKeys, ih plain]

theorem exists_resolveList {types : List (Ty κ)}
    (each : ∀ type ∈ types, ∃ result, type.resolve replace = .ok result) :
    ∃ results, resolveList replace types = .ok results := by
  induction types with
  | nil => exact ⟨_, rfl⟩
  | cons type types ih =>
      obtain ⟨⟨first, isFirst⟩, others⟩ := List.forall_mem_cons.mp each
      obtain ⟨rest, areRest⟩ := ih others
      exact ⟨_, bind_eq_ok.mpr ⟨first, isFirst, bind_eq_ok.mpr ⟨rest, areRest, rfl⟩⟩⟩

/-- A type can be resolved once the declared types that it mentions can. -/
theorem exists_resolve {type : Ty κ}
    (known : ∀ key ∈ type.mentions, ∃ handle, replace key = .ok handle) :
    ∃ result, type.resolve replace = .ok result := by
  induction type with
  | builtin builtin => exact ⟨_, rfl⟩
  | generic definition args ih =>
      obtain ⟨results, areResults⟩ := exists_resolveList fun arg isArg =>
        ih arg isArg fun key mentioned => known key (mem_mentionsList.mpr ⟨arg, isArg, mentioned⟩)
      exact ⟨_, bind_eq_ok.mpr ⟨results, areResults, rfl⟩⟩
  | declared key =>
      obtain ⟨handle, isHandle⟩ := known key List.mem_cons_self
      exact ⟨_, bind_eq_ok.mpr ⟨handle, isHandle, rfl⟩⟩
  | array element ih =>
      obtain ⟨inner, isInner⟩ := ih known
      exact ⟨_, bind_eq_ok.mpr ⟨inner, isInner, rfl⟩⟩

end Ty

/-! ## What finished builds know -/

section

variable {module : Module} {image : Image} {context : TypeContext} {program : Program}
variable {state : BuildState Image} {tailCalls : Bool}

/-- A build has recorded something under a key. -/
def BuildState.Knows (state : BuildState Image) (key : Key) : Prop :=
  (state.resolution.get? key).isSome = true

/-- Every expression of a class is read by some task of the class. -/
theorem CoreClass.exists_task_of_root {cls : CoreClass} {root : Core} (isRoot : root ∈ cls.roots) :
    ∃ task, cls.Plans task ∧ ∃ roots, root ∈ roots ∧
      ∀ key ∈ references cls.name roots, key ∈ task.inputs := by
  simp only [CoreClass.roots, List.mem_append, List.mem_map, List.mem_flatMap] at isRoot
  rcases isRoot with (⟨routine, isRoutine, rfl⟩ | ⟨ctor, isCtor, isRoot⟩) |
    ⟨property, isProperty, routine, isRoutine, rfl⟩
  · obtain ⟨method, isMethod, found⟩ := List.mem_filterMap.mp isRoutine
    exact ⟨_, .methodCode isMethod found, _, List.mem_singleton_self _,
      fun key isKey => List.mem_cons_of_mem _ (List.mem_cons_of_mem _ isKey)⟩
  · exact ⟨_, .ctorCode isCtor, _, isRoot, fun key isKey =>
      List.mem_cons_of_mem _ (List.mem_append_left _ (List.mem_cons_of_mem _ isKey))⟩
  · rcases isRoutine with found | found
    · have isGetter := Option.mem_toList.mp found
      exact ⟨_, .getterCode isProperty (by rw [CoreProperty.getterKey?, isGetter]; rfl) isGetter, _,
        List.mem_singleton_self _,
        fun key isKey => List.mem_cons_of_mem _ (List.mem_cons_of_mem _ isKey)⟩
    · have isSetter := Option.mem_toList.mp found
      exact ⟨_, .setterCode isProperty (by rw [CoreProperty.setterKey?, isSetter]; rfl) isSetter, _,
        List.mem_singleton_self _,
        fun key isKey => List.mem_cons_of_mem _ (List.mem_cons_of_mem _ isKey)⟩

namespace Program.Finished

variable (finished : program.Finished image state)
include finished

/-- A build that is finished knows whatever its tasks read. -/
theorem knows_inputs (valid : Schedule.Valid (program.steps tailCalls)) {task : Task}
    (isTask : task ∈ program.tasks) {key : Key} (isInput : key ∈ task.inputs) :
    state.Knows key := by
  obtain ⟨producer, isProducer, made, -⟩ :=
    valid.produced _ (Program.mem_steps.mpr ⟨task, isTask, rfl⟩) key
      (Task.mem_step_inputs.mpr isInput)
  obtain ⟨maker, isMaker, rfl⟩ := Program.mem_steps.mp isProducer
  exact (finished.present key).mpr ⟨maker, isMaker, Task.mem_step_outputs.mp made⟩

theorem closed (valid : Schedule.Valid (program.steps tailCalls)) : program.Closed state.Knows :=
  fun _ isTask _ _ _ _ isInput => finished.knows_inputs valid isTask isInput

/-- The types of all nodes of the code are known. -/
theorem knows_node (valid : Schedule.Valid (program.steps tailCalls)) {cls : CoreClass}
    (isClass : cls ∈ program) {node : Core} (isNode : node ∈ Core.preorderAll cls.roots) :
    HoldsType state.Knows node.type := by
  rw [Core.preorderAll_eq_flatMap] at isNode
  obtain ⟨root, isRoot, inRoot⟩ := List.mem_flatMap.mp isNode
  obtain ⟨task, isTask, roots, listed, reads⟩ := CoreClass.exists_task_of_root isRoot
  refine holdsType_of_typeKeys (fun key isKey => ?_) node.type (List.mem_singleton_self _)
  refine finished.knows_inputs valid (CoreClass.mem_program_tasks isClass isTask) (reads key ?_)
  exact mem_references.mpr ⟨root, listed, node, inRoot, by simp [Core.nodeKeys, isKey]⟩

theorem exists_type (known : state.Knows (.type name)) :
    ∃ handle, state.resolution.type name = .ok handle := by
  obtain ⟨task, isTask, made⟩ := (finished.present _).mp known
  obtain ⟨attrs, base, interfaces, rfl⟩ := Task.eq_declareType made
  obtain ⟨handle, _, resolved, -⟩ := finished.holdsType isTask
  exact ⟨handle, resolved⟩

theorem exists_runTy {type : SourceTy} (holds : HoldsType state.Knows type) :
    ∃ result, state.resolution.runTy type = .ok result :=
  Ty.exists_resolve fun name mentioned => finished.exists_type (holds name mentioned)

theorem exists_runTys {types : List SourceTy} (holds : ∀ type ∈ types, HoldsType state.Knows type) :
    ∃ results, state.resolution.runTys types = .ok results :=
  Ty.exists_resolveList fun type isType => finished.exists_runTy (holds type isType)

/-- A handle that a name was declared under is labelled with the name. -/
theorem typeLabel {handle : TypeHandle} (resolved : state.resolution.type name = .ok handle) :
    state.target.typeLabel handle = name := by
  obtain ⟨attrs, base, interfaces, isTask⟩ := finished.exists_declareType resolved
  obtain ⟨_, info, sameHandle, isInfo, isName, -⟩ := finished.holdsType isTask
  cases sameHandle.symm.trans resolved
  simp [Image.typeLabel, Image.typeName?, isInfo, isName]

/-- A resolved type is labelled as the program wrote it. -/
theorem sourceTy {type : SourceTy} {result : RunTy}
    (resolved : state.resolution.runTy type = .ok result) : state.target.sourceTy result = type :=
  Ty.mapKeys_of_resolve (fun _ _ => finished.typeLabel) resolved

end Program.Finished

end

/-! ## Methods -/

namespace Image

variable {image : Image} {owner : RunTy} {info : TypeInfo}
variable {handle : MethodHandle} {method : MethodInfo}

/-- On a type that is not generic the only method of its signature is found. -/
theorem resolveMethod_of_unique (isOwner : image.ownerInfo owner = .ok info)
    (notGeneric : info.origin.isGeneric = false) (listed : (handle, method) ∈ image.methodsOf info)
    (unique : ∀ other ∈ image.methodsOf info, other.2.signature = method.signature →
      other.1 = handle) :
    image.resolveMethod owner method.name (!method.attrs.isStatic) method.params = .ok handle := by
  refine bind_eq_ok.mpr ⟨info, isOwner, ?_⟩
  dsimp only
  split
  · rename_i other entry found
    have fits := List.find?_some found
    simp only [paramsMatch, notGeneric, Bool.false_eq_true, if_false, Bool.and_eq_true, beq_iff_eq,
      bne_iff_ne, ne_eq, Bool.not_eq_not] at fits
    obtain ⟨⟨isName, isStatic⟩, areParams⟩ := fits
    refine congrArg _ (unique _ (List.mem_of_find?_eq_some found) ?_)
    rw [MethodInfo.signature, MethodInfo.signature, isName, isStatic, areParams]
  · rename_i absent
    have refused := List.find?_eq_none.mp absent _ listed
    simp [paramsMatch, notGeneric] at refused

theorem DeclaredEntry.unique_method (entry : image.DeclaredEntry info)
    (listed : handle ∈ info.methods) (isMethod : image.method? handle = some method) :
    ∀ other ∈ image.methodsOf info, other.2.signature = method.signature → other.1 = handle := by
  intro other isOther same
  have kept : other ∈ (image.methodsOf info).filter
      fun other => other.2.signature = method.signature := by
    simp [isOther, same]
  rw [methodsOf, entry.methods.filter_eq_singleton listed isMethod] at kept
  rw [List.mem_singleton.mp kept]

/-- Methods of a library type that is not generic are told apart by their signatures, and what
they return mentions no declared types. -/
theorem library_signatures : ∀ info ∈ library.types, info.origin.isGeneric = false →
    ((library.methodsOf info).map fun entry => entry.2.signature).Nodup ∧
      ∀ entry ∈ library.methodsOf info, entry.2.ret.mentions = [] := by
  decide +kernel

/-- Function types have a call that takes as many values as the functions do. -/
theorem library_calls : ∀ info ∈ library.types, ∀ definition ∈ info.origin.definition?,
    (definition = Platform.func → ∃ entry ∈ library.methodsOf info,
      entry.2.name = Closure.invokeName ∧ entry.2.attrs.isStatic = false ∧
        info.origin = .generic definition (entry.2.params.length + 1)) ∧
    (definition = Platform.action → ∃ entry ∈ library.methodsOf info,
      entry.2.name = Closure.invokeName ∧ entry.2.attrs.isStatic = false ∧
        info.origin = .generic definition entry.2.params.length) := by
  decide +kernel

/-- The entry of a function type has a call that takes the parameters of the functions. -/
theorem library_call (inLibrary : info ∈ library.types) {delegate ret : SourceTy}
    (isOrigin : delegate.origin? = some info.origin)
    (signature : delegate.signature? = some (params, ret)) :
    ∃ entry ∈ library.methodsOf info, entry.2.name = Closure.invokeName ∧
      entry.2.attrs.isStatic = false ∧ entry.2.params.length = params.length := by
  cases delegate with
  | generic definition args =>
      have isOrigin := Option.some.inj isOrigin
      obtain ⟨ofFunc, ofAction⟩ :=
        library_calls info inLibrary definition (by rw [← isOrigin]; rfl)
      simp only [Ty.signature?] at signature
      split at signature
      · rename_i isFunc
        obtain ⟨last, isLast, same⟩ := Option.map_eq_some_iff.mp signature
        cases same
        obtain ⟨entry, listed, isName, isStatic, sameOrigin⟩ := ofFunc isFunc
        refine ⟨entry, listed, isName, isStatic, ?_⟩
        have count : args.length = entry.2.params.length + 1 := by
          rw [← isOrigin] at sameOrigin
          exact (Origin.generic.inj sameOrigin).2
        rw [List.length_dropLast, count, Nat.add_sub_cancel]
      · split at signature
        · rename_i isAction
          cases signature
          obtain ⟨entry, listed, isName, isStatic, sameOrigin⟩ := ofAction isAction
          refine ⟨entry, listed, isName, isStatic, ?_⟩
          rw [← isOrigin] at sameOrigin
          exact (Origin.generic.inj sameOrigin).2.symm
        · cases signature
  | _ => cases signature

/-- On a generic type a method is found by its name and the number of its parameters. -/
theorem exists_resolveMethod_generic {params : List RunTy}
    (isOwner : image.ownerInfo owner = .ok info) (generic : info.origin.isGeneric = true)
    (listed : (handle, method) ∈ image.methodsOf info)
    (count : method.params.length = params.length) :
    ∃ found, image.resolveMethod owner method.name (!method.attrs.isStatic) params = .ok found := by
  cases done : image.resolveMethod owner method.name (!method.attrs.isStatic) params with
  | ok found => exact ⟨found, rfl⟩
  | error =>
      rw [resolveMethod, isOwner] at done
      dsimp only [bind, Except.bind] at done
      split at done
      · cases done
      · rename_i absent
        have refused := List.find?_eq_none.mp absent _ listed
        simp [paramsMatch, generic, count] at refused

end Image

section

variable {module : Module} {image : Image} {context : TypeContext} {program : Program}
variable {state : BuildState Image}
variable {callee : Callee} {type : SourceTy}

/-- What a call is resolved to in a build: the entry of a method that returns what the checker
took the call to return. -/
structure BuildState.Resolves (state : BuildState Image) (callee : Callee) (owner : RunTy)
    (params : List RunTy) (method : MethodHandle) (info : MethodInfo) : Prop where
  isOwner : state.resolution.runTy callee.owner = .ok owner
  areParams : state.resolution.runTys callee.params = .ok params
  found : state.target.resolveMethod owner callee.name callee.isInstance params = .ok method
  entry : state.target.method? method = some info
  ret : callee.owner.isDelegate = false → state.target.sourceTy info.ret = callee.ret

/-- A virtual method of a declared type. -/
theorem Module.Accepted.resolves_declared (accepted : module.Accepted image context program)
    (finished : program.Finished image state) (built : image.Built) {ownerName : Name}
    (own : callee ∈ context.ownMethods name (.declared ownerName))
    (isVirtual : callee.isVirtual = true) :
    ∃ owner params method info, state.Resolves callee owner params method info := by
  obtain ⟨⟨key, decl⟩, present, rfl⟩ := List.mem_map.mp own
  obtain ⟨entry, rfl, rfl⟩ := Symbols.mem_methodsNamed present
  obtain ⟨cls, isClass, declared⟩ := accepted.mem_entries entry
  rcases ClassDef.mem_declarations.mp declared with ⟨⟨⟩, -⟩ | ⟨_, -, ⟨⟩, -⟩ |
    ⟨source, isSource, same, isDecl⟩ | ⟨_, -, ⟨⟩, -⟩ | ⟨property, -, ofProperty⟩
  · cases same
    cases isDecl
    obtain ⟨core, isCore, checked⟩ := exists_related_right accepted.classes isClass
    obtain ⟨method, isMethod, holds⟩ := exists_related_right checked.methods isSource
    obtain ⟨owner, above, handle, info, isOwner, isAbove, listed, -, isInfo, isName, isAttrs,
        areParams, isRet⟩ : state.HoldsMethod method.key method.attrs method.key.params method.ret :=
      finished.realized _ (CoreClass.mem_program_tasks isCore (.method isMethod))
        (by simp [Task.outputs])
    rw [holds.key] at isOwner isName areParams
    obtain ⟨_, _, sameOwner, sameAbove, -, -, isDeclared, -⟩ := finished.holdsClass isCore
    rw [checked.name] at sameOwner
    cases sameOwner.symm.trans isOwner
    cases sameAbove.symm.trans isAbove
    have orderly := (finished.built built).orderly owner above isAbove isDeclared
    have ownerInfo : state.target.ownerInfo (.declared owner) = .ok above := by
      refine bind_eq_ok.mpr ⟨owner, ?_, Image.type_eq_ok.mpr isAbove⟩
      simp [Image.handleOf, Image.handleOf?, isAbove]
    have resolved := Image.resolveMethod_of_unique ownerInfo (by rw [isDeclared]; rfl)
      (Image.mem_methodsOf.mpr ⟨listed, isInfo⟩)
      (orderly.unique_method listed isInfo)
    refine ⟨.declared owner, info.params, handle, info,
      bind_eq_ok.mpr ⟨owner, isOwner, rfl⟩, areParams, ?_, isInfo, fun _ => ?_⟩
    · have isStatic : info.attrs.isStatic = source.attrs.isStatic := by
        rw [isAttrs, holds.attrs, ClassDef.methodAttrs]
        split <;> rfl
      rw [isName, isStatic] at resolved
      exact resolved
    · rw [holds.returns] at isRet
      exact finished.sourceTy isRet
  · -- The accessors of properties are not virtual.
    rcases ClassDef.mem_ofProperty.mp ofProperty with ⟨⟨⟩, -⟩ | ⟨_, -, -, ⟨⟩⟩ | ⟨_, -, -, ⟨⟩⟩ <;>
      cases isVirtual

theorem Program.Finished.ownerInfo_platform (finished : program.Finished image state)
    {owner : RunTy} {info : TypeInfo} (isOwner : state.resolution.runTy type = .ok owner)
    (found : image.platformInfo? type = some info) :
    state.target.ownerInfo owner = .ok info ∧ info ∈ state.target.types := by
  obtain ⟨handle, isHandle, isEntry⟩ := Option.bind_eq_some_iff.mp found
  obtain ⟨_, isTarget, rfl⟩ := finished.unchanged.types _ info isEntry
  refine ⟨bind_eq_ok.mpr ⟨handle, ?_, Image.type_eq_ok.mpr isTarget⟩, Array.mem_of_getElem? isTarget⟩
  exact BuildState.handleOf_platform finished.moves.extends'.target isOwner isHandle

/-- The call of a function type. -/
theorem Program.Finished.resolves_call (finished : program.Finished image state)
    (built : image.Built) {info : TypeInfo} {ret : SourceTy} (holds : HoldsType state.Knows type)
    (found : image.platformInfo? type = some info) (generic : info.origin.isGeneric = true)
    (signature : type.signature? = some (params, ret)) (isOwner : callee.owner = type)
    (isName : callee.name = Closure.invokeName) (isInstance : callee.isInstance = true)
    (areParams : callee.params = params) :
    ∃ owner params method info, state.Resolves callee owner params method info := by
  obtain ⟨-, -, inLibrary⟩ := built.platformInfo? found
  obtain ⟨owner, resolved⟩ := finished.exists_runTy holds
  obtain ⟨types, areTypes⟩ : ∃ types, state.resolution.runTys params = .ok types :=
    finished.exists_runTys fun param isParam name mentioned =>
      holds name (Ty.mem_mentions_of_signature? signature isParam mentioned)
  obtain ⟨⟨method, before⟩, listed, named, isStatic, count⟩ :=
    Image.library_call inLibrary (Image.origin?_of_platformInfo? found) signature
  obtain ⟨isListed, isBefore⟩ := Image.mem_methodsOf.mp listed
  obtain ⟨entry, isMethod, grows⟩ :=
    (finished.built built).extends_library.methods _ before isBefore
  have counts : entry.params.length = types.length := by
    rw [grows.params, count, Ty.length_of_resolveList areTypes]
  obtain ⟨handle, done⟩ := Image.exists_resolveMethod_generic
    (finished.ownerInfo_platform resolved found).1 generic
    (Image.mem_methodsOf.mpr ⟨isListed, isMethod⟩) counts
  rw [grows.name, grows.attrs, named, isStatic] at done
  obtain ⟨_, other, -, answers⟩ := Image.resolveMethod_eq_ok done
  refine ⟨owner, types, handle, other, isOwner ▸ resolved, areParams ▸ areTypes, ?_,
    (Image.mem_methodsOf.mp answers.member).2, fun notDelegate => ?_⟩
  · rw [isName, isInstance]
    exact done
  · rw [isOwner, Ty.isDelegate, signature] at notDelegate
    cases notDelegate

/-- A method of a platform type that is not generic. -/
theorem Program.Finished.resolves_builtin (finished : program.Finished image state)
    (built : image.Built) {info : TypeInfo} (holds : HoldsType state.Knows type)
    (found : image.platformInfo? type = some info) (notGeneric : info.origin.isGeneric = false)
    {method : MethodHandle} {entry : MethodInfo} (listed : (method, entry) ∈ image.methodsOf info)
    (isOwner : callee.owner = type) (isName : callee.name = entry.name)
    (isInstance : callee.isInstance = !entry.attrs.isStatic)
    (areParams : callee.params = entry.params.map image.sourceTy)
    (isRet : callee.ret = image.sourceTy entry.ret) :
    ∃ owner params method info, state.Resolves callee owner params method info := by
  obtain ⟨isInfo, notDeclared, inLibrary⟩ := built.platformInfo? found
  obtain ⟨owner, resolved⟩ := finished.exists_runTy holds
  obtain ⟨ownerInfo, isTarget⟩ := finished.ownerInfo_platform resolved found
  obtain ⟨isListed, isMethod⟩ := Image.mem_methodsOf.mp listed
  obtain ⟨_, isTargetMethod, rfl⟩ := finished.unchanged.methods _ entry isMethod
  obtain ⟨before, isBefore, grows⟩ := built.platform_method isInfo notDeclared listed
  obtain ⟨distinct, plainRets⟩ := Image.library_signatures info inLibrary notGeneric
  have unique : ∀ other ∈ state.target.methodsOf info, other.2.signature = entry.signature →
      other.1 = method := by
    intro other isOther same
    obtain ⟨earlier, isEarlier, alsoGrows⟩ :=
      (finished.built built).platform_method isTarget notDeclared isOther
    have same : earlier.signature = before.signature := by
      simpa only [MethodInfo.signature, grows.name, grows.params, grows.attrs, alsoGrows.name,
        alsoGrows.params, alsoGrows.attrs] using same
    exact (Prod.mk.inj (List.inj_on_of_nodup_map distinct isEarlier isBefore same)).1
  have plainParams : ∀ param ∈ entry.params, param.mentions = [] := by
    obtain ⟨other, isOther, mentions⟩ :=
      (Image.plainEntry_of_platformInfo? built.plainPlatform found).methods _ isListed
    cases Option.some.inj (isOther.symm.trans isMethod)
    exact mentions
  refine ⟨owner, entry.params, method, entry, isOwner ▸ resolved, ?_, ?_, isTargetMethod,
    fun _ => ?_⟩
  · rw [areParams]
    refine Ty.resolveList_eq_ok.mpr ?_
    rw [List.forall₂_map_left_iff, List.forall₂_same]
    exact fun param isParam => Ty.resolve_mapKeys _ _ (plainParams param isParam)
  · rw [isName, isInstance]
    exact Image.resolveMethod_of_unique ownerInfo notGeneric
      (Image.mem_methodsOf.mpr ⟨isListed, isTargetMethod⟩) unique
  · rw [isRet]
    exact Ty.mapKeys_congr _ _ (grows.ret ▸ plainRets _ isBefore)

/-- A method of a platform type. -/
theorem Module.Accepted.resolves_platform (accepted : module.Accepted image context program)
    (finished : program.Finished image state) (built : image.Built)
    (platform : type.declared? = none) (holds : HoldsType state.Knows type)
    (own : callee ∈ context.ownMethods name type) :
    ∃ owner params method info, state.Resolves callee owner params method info := by
  obtain rfl := accepted.image
  have ofImage : context.ownMethods name type =
      (context.image.methodSigs type name).map fun sig =>
        { owner := type, name, isInstance := sig.isInstance, isVirtual := sig.isVirtual,
          params := sig.params, ret := sig.type } := by
    cases type <;> first | rfl | cases platform
  rw [ofImage] at own
  obtain ⟨sig, present, rfl⟩ := List.mem_map.mp own
  unfold Image.methodSigs at present
  split at present
  · cases present
  · rename_i info found
    split at present
    · rename_i generic
      split at present
      · rename_i isInvoke
        obtain ⟨⟨params, ret⟩, signature, rfl⟩ :=
          Option.map_eq_some_iff.mp (Option.mem_toList.mp present)
        exact finished.resolves_call built holds found generic signature rfl isInvoke rfl rfl
      · cases present
    · rename_i notGeneric
      obtain ⟨⟨method, entry⟩, named, rfl⟩ := List.mem_map.mp present
      obtain ⟨listed, isName⟩ := List.mem_filter.mp named
      exact finished.resolves_builtin built holds found (by simpa using notGeneric) listed rfl
        (beq_iff_eq.mp isName).symm rfl rfl rfl

/-- A virtual method that the checker finds for a call on a known type. -/
theorem Module.Accepted.resolves_candidate (accepted : module.Accepted image context program)
    (finished : program.Finished image state) (built : image.Built)
    (closed : program.Closed state.Knows) {receiver : SourceTy} {isInstance : Bool}
    (holds : HoldsType state.Knows receiver)
    (candidate : callee ∈ context.methodCandidates receiver name isInstance)
    (isVirtual : callee.isVirtual = true) :
    ∃ owner params method info, state.Resolves callee owner params method info := by
  obtain ⟨-, type, reached, own⟩ :=
    TypeContext.mem_methodCandidates (accepted.holdsType_supertypes closed) candidate
  cases isDeclared : type.declared? with
  | some ownerName =>
      obtain rfl := Ty.eq_declared isDeclared
      exact accepted.resolves_declared finished built own isVirtual
  | none => exact accepted.resolves_platform finished built isDeclared (reached holds) own

end

end ClassForge
