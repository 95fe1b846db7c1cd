import ClassForge.Proofs.Build.Dependencies
import ClassForge.Proofs.Build.ResolvedCalls
import ClassForge.Proofs.Machine.MachineFaults

/-!
# What virtual calls return

A call is checked against one declaration of a method, while the machine runs the method that the
type of the receiver has under the same name and parameters.  Nothing compares the results of the
two, so where no method hides another one with a result of another type, and only there, a
virtual call returns what the checker took it to return.
-/

namespace ClassForge

variable {image : Image} {compiled : CompiledModule} {program : Program}
variable {method selected : MethodHandle} {type : SourceTy} {state : BuildState Image}
    {module : Module} {after : Image}
variable {handle : TypeHandle} {context : TypeContext}

/-! ## Methods that hide others -/

/-- An entry is, derives from or implements another one.  Whatever has an entry is an object. -/
def Image.IsKind (image : Image) (lower upper : TypeHandle) : Prop :=
  image.builtin? .object = some upper ∨ image.derivesFrom lower upper = true

/-- One method is run in place of another one, which is virtual. -/
structure MethodInfo.Hides (given promised : MethodInfo) : Prop where
  name : given.name = promised.name
  params : given.params = promised.params
  isInstance : given.attrs.isStatic = false
  concrete : given.attrs.isAbstract = false
  isVirtual : promised.attrs.isVirtual = true
  onInstance : promised.attrs.isStatic = false

/-- A result of one type will do where one of another type is promised. -/
def TypeContext.Fits (context : TypeContext) (given promised : SourceTy) : Prop :=
  context.isAssignable given promised = true ∧ given.isVoid = promised.isVoid

/-- A type is one that the code of a module can name: a type of the platform, or of the module. -/
def CompiledModule.Names (compiled : CompiledModule) (handle : TypeHandle) (info : TypeInfo) :
    Prop :=
  info.origin = .declared → ∃ entry ∈ compiled.types, entry.2.handle = handle

/-- A method of a type is hidden on the types below only by methods whose results will do for its
own. -/
def Image.KeepsPromise (image : Image) (context : TypeContext) (upper : TypeHandle)
    (promised : MethodInfo) : Prop :=
  ∀ lower, image.IsKind lower upper → ∀ info ∈ image.lineage lower,
    ∀ given ∈ image.methodsOf info, given.2.Hides promised →
      context.Fits (image.sourceTy given.2.ret) (image.sourceTy promised.ret)

/-- The virtual methods of the module and of the platform are hidden only by methods whose results
will do for theirs. -/
def CompiledModule.KeepsResults (compiled : CompiledModule) (context : TypeContext)
    (image : Image) : Prop :=
  ∀ upper above, image.type? upper = some above → compiled.Names upper above →
    ∀ promised ∈ image.methodsOf above, image.KeepsPromise context upper promised.2

instance (image : Image) (lower upper : TypeHandle) : Decidable (image.IsKind lower upper) :=
  inferInstanceAs (Decidable (_ ∨ _))

instance (given promised : MethodInfo) : Decidable (given.Hides promised) :=
  decidable_of_iff
    ((promised.attrs.isVirtual = true ∧ promised.attrs.isStatic = false) ∧
      (given.attrs.isStatic = false ∧ given.attrs.isAbstract = false) ∧
      given.name = promised.name ∧ given.params = promised.params)
    ⟨fun ⟨⟨isVirtual, onInstance⟩, ⟨isInstance, concrete⟩, name, params⟩ =>
      ⟨name, params, isInstance, concrete, isVirtual, onInstance⟩,
      fun hides => ⟨⟨hides.isVirtual, hides.onInstance⟩, ⟨hides.isInstance, hides.concrete⟩,
        hides.name, hides.params⟩⟩

instance (context : TypeContext) (given promised : SourceTy) :
    Decidable (context.Fits given promised) :=
  inferInstanceAs (Decidable (_ ∧ _))

theorem Image.lineage_of_none (absent : image.type? handle = none) :
    image.lineage handle = [] := by
  rw [lineage, lineageUpTo, absent]

instance (image : Image) (context : TypeContext) (upper : TypeHandle) (promised : MethodInfo) :
    Decidable (image.KeepsPromise context upper promised) :=
  decidable_of_iff
    (promised.attrs.isVirtual = true → ∀ lower : Fin image.types.size, image.IsKind ⟨lower⟩ upper →
      ∀ info ∈ image.lineage ⟨lower⟩, ∀ given ∈ image.methodsOf info, given.2.Hides promised →
        context.Fits (image.sourceTy given.2.ret) (image.sourceTy promised.ret)) <| by
    constructor
    · intro bounded lower kind info isInfo given isGiven hides
      cases isLower : image.type? lower with
      | none =>
          rw [Image.lineage_of_none isLower] at isInfo
          cases isInfo
      | some below =>
          obtain ⟨inBounds, -⟩ := Array.getElem?_eq_some_iff.mp isLower
          exact bounded hides.isVirtual ⟨lower.index, inBounds⟩ kind info isInfo given isGiven hides
    · exact fun keeps _ lower => keeps ⟨lower⟩

/-- All methods of all types may be looked at instead of those that the module can name. -/
theorem CompiledModule.KeepsResults.of_all
    (all : ∀ upper : Fin image.types.size, ∀ above ∈ image.type? ⟨upper⟩,
      ∀ promised ∈ image.methodsOf above, image.KeepsPromise context ⟨upper⟩ promised.2) :
    compiled.KeepsResults context image := by
  intro upper above isAbove _
  obtain ⟨inBounds, -⟩ := Array.getElem?_eq_some_iff.mp isAbove
  exact all ⟨upper.index, inBounds⟩ above isAbove

theorem TypeContext.Fits.refl (context : TypeContext) (type : SourceTy) : context.Fits type type :=
  ⟨by simp [isAssignable], rfl⟩

/-! ## Dispatch -/

/-- The method that a call on an instance runs is the one that is called, or hides it on the type
of the receiver. -/
theorem Machine.dispatch_eq_ok {info : MethodInfo} {receiver : Value} {args : List Value}
    {store last : Store} (isMethod : image.method? method = some info)
    (isInstance : info.attrs.isStatic = false)
    (ran : (dispatch image method (receiver :: args)).run store = .ok selected last) :
    selected = method ∨ ∃ lower above entry, Store.typeOf? image store.heap receiver = some lower ∧
      above ∈ image.lineage lower ∧ (selected, entry) ∈ image.methodsOf above ∧
        entry.Hides info := by
  simp only [dispatch, Exec.ofImage, Image.method_eq_ok.mpr isMethod, isInstance, Exec.require,
    List.head?_cons, pure_bind, Bool.false_eq_true, if_false] at ran
  split at ran
  · exact (Exec.raise_bind_ne_ok ran).elim
  · split at ran
    · cases ran
      exact .inl rfl
    · rename_i isVirtual
      rw [EStateM.run_bind, show Exec.heap.run store = .ok store.heap store from rfl] at ran
      dsimp only at ran
      split at ran
      · rename_i found
        cases ran
        have fits := List.find?_some found
        obtain ⟨above, isAbove, listed⟩ := List.mem_flatMap.mp (List.mem_of_find?_eq_some found)
        simp only [Bool.and_eq_true, beq_iff_eq, Bool.not_eq_true'] at fits
        split at isAbove
        · rename_i ofType
          exact .inr ⟨_, above, _, ofType, isAbove, listed, fits.1.1.1, fits.1.1.2, fits.1.2,
            fits.2, by simpa using isVirtual, isInstance⟩
        · cases isAbove
      · split at ran
        · cases ran
        · cases ran
          exact .inl rfl

/-! ## Calls that the checker accepts -/

/-- A virtual call on an instance is of a method that the checker finds for the receiver. -/
theorem Expr.Checks.calls_candidate {scope : Scope SourceTy} {expr : Expr} {callee : Callee}
    {receiver : Core} {args : List Core}
    (checked : expr.Checks context scope (.member type (.call callee) (receiver :: args)))
    (isInstance : callee.isInstance = true) (isVirtual : callee.isVirtual = true) :
    type = callee.ret ∧ ∃ name, callee ∈ context.methodCandidates receiver.type name true := by
  cases checked.elaborates with
  | operation _ _ _ acts =>
      cases acts with
      | member found =>
          cases found with
          | getter _ access =>
              obtain ⟨property, _, -, -, -, -, rfl⟩ := TypeContext.accessGetter_eq_ok access
              cases isVirtual
          | call start candidate same =>
              have agrees := (TypeContext.mem_methodCandidates (fun _ (_ : True) _ _ => trivial)
                candidate).1
              rw [isInstance] at agrees
              subst agrees
              rcases start with ⟨⟨⟩⟩ | ⟨first, rest, isReceiver, rfl⟩
              cases isReceiver
              exact ⟨same, _, candidate⟩

/-- The entry that a resolved type names is one of the platform, or of the module. -/
theorem Program.Finished.names_own {moduleName : Name} (finished : program.Finished image state)
    (built : image.Built) {resolved : RunTy} {info : TypeInfo}
    (isResolved : state.resolution.runTy type = .ok resolved)
    (isHandle : state.target.handleOf resolved = .ok handle)
    (isInfo : state.target.type? handle = some info) :
    (CompiledModule.ofResolution moduleName state.resolution).Names handle info := by
  intro declared
  cases isDeclared : type.declared? with
  | none =>
      have found := Image.platformInfo?_of_resolve isDeclared isResolved
        (bind_eq_ok.mpr ⟨handle, isHandle, Image.type_eq_ok.mpr isInfo⟩)
      exact ((finished.built built).platformInfo? found).2.1 declared |>.elim
  | some name =>
      obtain rfl := Ty.eq_declared isDeclared
      obtain ⟨own, isOwn, same⟩ := bind_eq_ok.mp isResolved
      cases same
      obtain rfl : own = handle := by
        unfold Image.handleOf at isHandle
        split at isHandle
        · rename_i found
          cases isHandle
          obtain ⟨_, -, same⟩ := Option.map_eq_some_iff.mp found
          exact same
        · cases isHandle
      have found : (CompiledModule.ofResolution moduleName state.resolution).typeHandle name =
          .ok own := finished.typeHandle isOwn
      unfold CompiledModule.typeHandle at found
      split at found
      · rename_i realized present
        cases found
        obtain ⟨before, rest, shape, -⟩ := List.lookup_eq_some_iff.mp present
        exact ⟨(name, realized), by simp [shape], rfl⟩
      · cases found

/-- A value that the checker's type covers has an entry of the kind that the type stands for. -/
theorem BuildState.Covers.isKind {lower upper : TypeHandle} {resolved : RunTy}
    (covers : state.Covers (some lower) type)
    (isResolved : state.resolution.runTy type = .ok resolved)
    (isUpper : state.target.handleOf resolved = .ok upper) : state.target.IsKind lower upper := by
  rcases covers with rfl | ⟨element, rfl⟩ | ⟨other, above, same, stands, derives⟩
  · cases isResolved
    left
    unfold Image.handleOf at isUpper
    split at isUpper
    · rename_i found
      cases isUpper
      exact found
    · cases isUpper
  · obtain ⟨_, -, same⟩ := bind_eq_ok.mp isResolved
    cases same
    cases isUpper
  · cases same
    rw [stands.unique ⟨resolved, isResolved, isUpper⟩] at derives
    exact .inr derives

/-- Virtual calls return what the checker promised.  The method that the machine runs for a call on
an instance of the type of the receiver is declared with a result that will do for that of the
method which the call was resolved to, which in turn is the type of the call unless it calls a
function: the entry of a function type is shared by all functions of as many parameters. -/
theorem Module.virtual_results {module : Module} {image after : Image} {symbols : Symbols}
    {program : Program} {options : CompileOptions} {compiled : CompiledModule} (built : image.Built)
    (recorded : Symbols.ofModule module = .ok symbols) (checked : module.check image = .ok program)
    (done : module.compile options image = (.ok compiled, after))
    (keeps : compiled.KeepsResults ⟨symbols, image⟩ after)
    {cls : CoreClass} (isClass : cls ∈ program)
    {type : SourceTy} {callee : Callee} {receiver : Core} {args : List Core}
    (isNode : .member type (.call callee) (receiver :: args) ∈ Core.preorderAll cls.roots)
    (isInstance : callee.isInstance = true) (isVirtual : callee.isVirtual = true) :
    type = callee.ret ∧
    ∃ static owner params method info, compiled.runTy receiver.type = .ok static ∧
      compiled.runTy callee.owner = .ok owner ∧ compiled.runTys callee.params = .ok params ∧
      after.resolveMethod owner callee.name true params = .ok method ∧
      after.method? method = some info ∧
      (callee.owner.isDelegate = false → after.sourceTy info.ret = type) ∧
      ∀ value values store selected last,
        Store.isInstance after store.heap value static = .ok true →
        (Machine.dispatch after method (value :: values)).run store = .ok selected last →
        ∃ entry, after.method? selected = some entry ∧
          TypeContext.Fits ⟨symbols, image⟩ (after.sourceTy entry.ret)
            (after.sourceTy info.ret) := by
  obtain ⟨context, state, accepted, valid, finished, rfl, rfl⟩ :=
    Module.finished_of_check built checked done
  obtain rfl : (⟨symbols, image⟩ : TypeContext) = context := by
    cases context
    cases accepted.image
    cases accepted.symbols.symm.trans recorded
    rfl
  have closed := finished.closed valid
  obtain ⟨source, -, checkedClass⟩ := exists_related_left accepted.classes isClass
  obtain ⟨scope, expr, nodeChecked⟩ := checkedClass.exists_checks_node isNode
  obtain ⟨rfl, name, candidate⟩ := nodeChecked.calls_candidate isInstance isVirtual
  have isReceiver : receiver ∈ Core.preorderAll cls.roots :=
    checkedClass.preorder_subset isNode
      (Core.mem_preorder_of_mem_parts List.mem_cons_self (Core.mem_preorder_self _))
  have holds := finished.knows_node valid isClass isReceiver
  obtain ⟨static, isStatic⟩ := finished.exists_runTy holds
  obtain ⟨owner, params, method, info, resolves⟩ :=
    accepted.resolves_candidate finished built closed holds candidate isVirtual
  obtain ⟨isOwner, areParams, found, isEntry, isRet⟩ := resolves
  rw [isInstance] at found
  refine ⟨rfl, static, owner, params, method, info, finished.runTy isStatic, finished.runTy isOwner,
    finished.runTys areParams, found, isEntry, isRet, ?_⟩
  intro value values store selected last isInst ran
  obtain ⟨above, _, ownerInfo, answers⟩ := Image.resolveMethod_eq_ok found
  obtain ⟨listed, sameEntry⟩ := Image.mem_methodsOf.mp answers.member
  cases sameEntry.symm.trans isEntry
  obtain ⟨upper, isUpper, isAbove⟩ := bind_eq_ok.mp ownerInfo
  have isAbove := Image.type_eq_ok.mp isAbove
  rcases Machine.dispatch_eq_ok isEntry (by simpa using answers.isStatic) ran with
    rfl | ⟨lower, between, entry, ofType, isBetween, isGiven, hides⟩
  · exact ⟨info, isEntry, .refl _ _⟩
  · refine ⟨entry, (Image.mem_methodsOf.mp isGiven).2, ?_⟩
    have covers := BuildState.covers_of_isInstance isStatic isInst
    rw [ofType] at covers
    obtain ⟨-, reached, reaches, own⟩ := TypeContext.mem_methodCandidates
      (fun _ => accepted.covers_above finished built) candidate
    have ownerIs := (TypeContext.ownMethods_foundOn (accepted.image ▸ built.plainPlatform) own).1
    have kind := ((ownerIs ▸ reaches covers : state.Covers (some lower) callee.owner)).isKind isOwner
      isUpper
    exact keeps upper above isAbove (finished.names_own built isOwner isUpper isAbove)
      (method, info) answers.member lower kind between isBetween (selected, entry) isGiven hides

/-- The only entry that is labelled with the name of a class is that of the class. -/
theorem Module.runTy_of_typeLabel {options : CompileOptions} (built : image.Built)
    (checked : module.check image = .ok program)
    (done : module.compile options image = (.ok compiled, after)) {cls : CoreClass}
    (isClass : cls ∈ program)
    (only : ∀ index < after.types.size, after.typeLabel ⟨index⟩ = cls.name → ⟨index⟩ = handle) :
    compiled.runTy (.declared cls.name) = .ok (.declared handle) := by
  obtain ⟨_, state, -, -, finished, rfl, rfl⟩ := Module.finished_of_check built checked done
  obtain ⟨own, info, isOwn, isInfo, -⟩ := finished.holdsClass isClass
  obtain rfl : own = handle :=
    only own.index (Array.getElem?_eq_some_iff.mp isInfo).1 (finished.typeLabel isOwn)
  exact finished.runTy (bind_eq_ok.mpr ⟨own, isOwn, rfl⟩)

/-! ## A method that is hidden -/

/-- A class with a virtual method that says how many sides a shape has and a method that asks any
shape, and a class below it whose method answers with `sides`. -/
def Module.shapes (sides : Literal) : Module where
  classes := [
    { name := "Shape"
      attrs := .publicClass
      base := none
      interfaces := []
      fields := []
      methods := [
        { name := "sides"
          attrs := .publicVirtual
          params := []
          ret := .int32
          body := some (.literal (.int32 0)) },
        { name := "count"
          attrs := .publicStatic
          params := [⟨"shape", .declared "Shape"⟩]
          ret := .int32
          body := some (.call (.var "shape") "sides" []) }]
      ctors := []
      properties := [] },
    { name := "Square"
      attrs := .publicClass
      base := some (.declared "Shape")
      interfaces := []
      fields := []
      methods := [
        { name := "sides"
          attrs := .publicVirtual
          params := []
          ret := sides.type
          body := some (.literal sides) }]
      ctors := []
      properties := [] }]

/-- The virtual method, as the checker finds it. -/
def Callee.sides : Callee where
  owner := .declared "Shape"
  name := "sides"
  isInstance := true
  isVirtual := true
  params := []
  ret := .int32

/-- Whether a node asks a shape. -/
def Core.asksShape : Core → Bool
  | .member type (.call callee) [.var name receiver] =>
      type == .int32 && callee == .sides && name == "shape" && receiver == .declared "Shape"
  | _ => false

theorem Core.eq_of_asksShape {core : Core} (asks : core.asksShape = true) :
    core = .member .int32 (.call .sides) [.var "shape" (.declared "Shape")] := by
  unfold asksShape at asks
  split at asks
  · simp only [Bool.and_eq_true, beq_iff_eq] at asks
    obtain ⟨⟨⟨rfl, rfl⟩, rfl⟩, rfl⟩ := asks
    rfl
  · cases asks

/-- A store with one object, a square. -/
def squareStore : Store where
  heap := ⟨#[.instance ⟨46⟩ #[]]⟩
  statics := #[]
  output := ""

/-- Everything that compiling a module for the library makes of it. -/
def Module.compileAll (module : Module) :
    Except Diagnostic (Symbols × Program × CompiledModule × Image) := do
  let symbols ← Symbols.ofModule module
  let program ← module.check .library
  let compiled ← (module.compile {} .library).1
  return (symbols, program, compiled, (module.compile {} .library).2)

theorem Module.compileAll_eq_ok {symbols : Symbols}
    (done : module.compileAll = .ok (symbols, program, compiled, after)) :
    Symbols.ofModule module = .ok symbols ∧ module.check .library = .ok program ∧
      module.compile {} .library = (.ok compiled, after) := by
  simp only [compileAll, bind_eq_ok] at done
  obtain ⟨_, isRecorded, _, isChecked, _, isCompiled, same⟩ := done
  cases same
  exact ⟨isRecorded, isChecked, Prod.ext isCompiled rfl⟩

/-- The method that a virtual call selects, when it selects one. -/
def Machine.selected? (image : Image) (method : MethodHandle) (args : List Value) (store : Store) :
    Option MethodHandle :=
  match (dispatch image method args).run store with
  | .ok selected _ => some selected
  | .error _ _ => none

theorem Machine.selected?_eq_some {args : List Value} {store : Store}
    (found : selected? image method args store = some selected) :
    ∃ last, (dispatch image method args).run store = .ok selected last := by
  unfold selected? at found
  split at found
  · rename_i last ran
    cases found
    exact ⟨last, ran⟩
  · cases found

/-- What is found in a build of the shapes: the call, the class and its only entry, and what the
call selects for an instance of the class below. -/
structure Module.FoundShapes (program : Program) (after : Image) (given : RunTy) : Prop where
  asks : ∃ cls ∈ program, ∃ node ∈ Core.preorderAll cls.roots, node.asksShape = true
  shape : ∃ cls ∈ program, cls.name = "Shape"
  entry : ∀ index < after.types.size, after.typeLabel ⟨index⟩ = "Shape" → index = 45
  sides : after.resolveMethod (.declared ⟨45⟩) "sides" true [] = .ok ⟨56⟩
  square : Store.isInstance after squareStore.heap (.ref ⟨0⟩) (.declared ⟨45⟩) = .ok true
  selects : ∃ selected ∈ Machine.selected? after ⟨56⟩ [.ref ⟨0⟩] squareStore,
    ∃ entry ∈ after.method? selected, entry.ret = given

instance (program : Program) (after : Image) (given : RunTy) :
    Decidable (Module.FoundShapes program after given) :=
  decidable_of_iff
    ((∃ cls ∈ program, ∃ node ∈ Core.preorderAll cls.roots, node.asksShape = true) ∧
      (∃ cls ∈ program, cls.name = "Shape") ∧
      (∀ index < after.types.size, after.typeLabel ⟨index⟩ = "Shape" → index = 45) ∧
      after.resolveMethod (.declared ⟨45⟩) "sides" true [] = .ok ⟨56⟩ ∧
      Store.isInstance after squareStore.heap (.ref ⟨0⟩) (.declared ⟨45⟩) = .ok true ∧
      ∃ selected ∈ Machine.selected? after ⟨56⟩ [.ref ⟨0⟩] squareStore,
        ∃ entry ∈ after.method? selected, entry.ret = given)
    ⟨fun ⟨asks, shape, entry, sides, square, selects⟩ =>
      ⟨asks, shape, entry, sides, square, selects⟩,
      fun found => ⟨found.asks, found.shape, found.entry, found.sides, found.square,
        found.selects⟩⟩

theorem Module.FoundShapes.runTy {given : RunTy} (found : FoundShapes program after given)
    (checked : module.check .library = .ok program)
    (done : module.compile {} .library = (.ok compiled, after)) :
    compiled.runTy (.declared "Shape") = .ok (.declared ⟨45⟩) := by
  obtain ⟨cls, isClass, isName⟩ := found.shape
  rw [← isName]
  refine runTy_of_typeLabel .library checked done isClass fun index inBounds labelled => ?_
  rw [found.entry index inBounds (labelled.trans isName)]

open Schedule in
theorem Module.shapes_virtual_results :
    ∃ symbols program compiled after, (shapes (.int32 4)).compileAll =
        .ok (symbols, program, compiled, after) ∧
      compiled.KeepsResults ⟨symbols, .library⟩ after ∧
      compiled.runTy (.declared "Shape") = .ok (.declared ⟨45⟩) ∧
      after.resolveMethod (.declared ⟨45⟩) "sides" true [] = .ok ⟨56⟩ ∧
      Store.isInstance after squareStore.heap (.ref ⟨0⟩) (.declared ⟨45⟩) = .ok true ∧
      ∃ selected entry last,
        (Machine.dispatch after ⟨56⟩ [.ref ⟨0⟩]).run squareStore = .ok selected last ∧
        after.method? selected = some entry ∧
        TypeContext.Fits ⟨symbols, .library⟩ (after.sourceTy entry.ret) .int32 := by
  have evaluates : (shapes (.int32 4)).compileAll.toOption.any (fun (symbols, program, _, after) =>
      decide (FoundShapes program after .int32 ∧
        ∀ upper : Fin after.types.size, ∀ above ∈ after.type? ⟨upper⟩,
          ∀ promised ∈ after.methodsOf above,
            after.KeepsPromise ⟨symbols, .library⟩ ⟨upper⟩ promised.2)) = true := by
    decide +kernel
  obtain ⟨⟨symbols, program, compiled, after⟩, made, holds⟩ := exists_ok_of_any evaluates
  obtain ⟨found, all⟩ := of_decide_eq_true holds
  obtain ⟨recorded, checked, done⟩ := compileAll_eq_ok made
  have keeps : compiled.KeepsResults ⟨symbols, .library⟩ after := .of_all all
  obtain ⟨cls, isClass, node, isNode, asks⟩ := found.asks
  rw [Core.eq_of_asksShape asks] at isNode
  obtain ⟨-, static, owner, params, method, info, isStatic, isOwner, areParams, resolved, isMethod,
    isRet, fits⟩ := virtual_results .library recorded checked done keeps isClass isNode rfl rfl
  have isShape := found.runTy checked done
  cases isStatic.symm.trans isShape
  cases isOwner.symm.trans isShape
  cases areParams
  cases resolved.symm.trans found.sides
  obtain ⟨selected, isSelected, -⟩ := found.selects
  obtain ⟨last, ran⟩ := Machine.selected?_eq_some isSelected
  obtain ⟨entry, isEntry, result⟩ := fits _ _ _ _ _ found.square ran
  rw [isRet rfl] at result
  exact ⟨symbols, program, compiled, after, made, keeps, isShape, found.sides, found.square,
    selected, entry, last, ran, isEntry, result⟩

open Schedule in
/-- The checker takes the number of sides for a number, and a square answers with a text. -/
theorem Module.square_breaks_promise :
    ∃ symbols program compiled after, (shapes (.string "four")).compileAll =
        .ok (symbols, program, compiled, after) ∧
      (∃ cls ∈ program, .member .int32 (.call .sides) [.var "shape" (.declared "Shape")] ∈
        Core.preorderAll cls.roots) ∧
      compiled.runTy (.declared "Shape") = .ok (.declared ⟨45⟩) ∧
      after.resolveMethod (.declared ⟨45⟩) "sides" true [] = .ok ⟨56⟩ ∧
      Store.isInstance after squareStore.heap (.ref ⟨0⟩) (.declared ⟨45⟩) = .ok true ∧
      ∃ selected entry last,
        (Machine.dispatch after ⟨56⟩ [.ref ⟨0⟩]).run squareStore = .ok selected last ∧
        after.method? selected = some entry ∧ after.sourceTy entry.ret = .builtin .string ∧
        TypeContext.isAssignable ⟨symbols, .library⟩ (.builtin .string) .int32 = false := by
  have evaluates : (shapes (.string "four")).compileAll.toOption.any
      (fun (symbols, program, _, after) =>
        decide (FoundShapes program after (.builtin .string) ∧
          TypeContext.isAssignable ⟨symbols, .library⟩ (.builtin .string) .int32 = false)) =
        true := by
    decide +kernel
  obtain ⟨⟨symbols, program, compiled, after⟩, made, holds⟩ := exists_ok_of_any evaluates
  obtain ⟨found, refused⟩ := of_decide_eq_true holds
  obtain ⟨-, checked, done⟩ := compileAll_eq_ok made
  obtain ⟨cls, isClass, node, isNode, asks⟩ := found.asks
  rw [Core.eq_of_asksShape asks] at isNode
  obtain ⟨selected, isSelected, entry, isEntry, isRet⟩ := found.selects
  obtain ⟨last, ran⟩ := Machine.selected?_eq_some isSelected
  refine ⟨symbols, program, compiled, after, made, ⟨cls, isClass, isNode⟩,
    found.runTy checked done, found.sides, found.square, selected, entry, last, ran, isEntry, ?_,
    refused⟩
  rw [isRet]
  rfl

end ClassForge
