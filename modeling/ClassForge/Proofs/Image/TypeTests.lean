import ClassForge.Proofs.Image.Subtyping
import ClassForge.Proofs.Machine.FrameSteps

/-!
# Casts and type tests

A cast or type test of an instance of a class succeeds for just those types that the checker
would let the class be assigned to.
-/

namespace ClassForge

/-! ## Raising an exception -/

namespace Image

variable {image : Image}

theorem library_systemExceptions : ∀ exception ∈ SystemException.all,
    ∃ handle ∈ library.typeNamed? exception.typeName, ∃ info ∈ library.type? handle,
      info.isComplete = true := by
  decide +kernel

theorem Built.systemException (built : image.Built) (exception : SystemException) :
    ∃ handle info, image.typeNamed? exception.typeName = some handle ∧
      image.type? handle = some info ∧ info.isComplete = true := by
  have listed : exception ∈ SystemException.all := by cases exception <;> decide
  obtain ⟨handle, isHandle, info, isInfo, isComplete⟩ := library_systemExceptions exception listed
  obtain ⟨later, isLater, grows⟩ := built.extends_library.types _ info isInfo
  refine ⟨handle, later, ?_, isLater, grows.isComplete isComplete⟩
  exact built.extends_library.findType?
    (fun _ _ grows => by rw [grows.origin, grows.name]) isHandle

end Image

namespace Exec

variable {image : Image} {store : Store}

/-- Whatever the fields start with, the instance itself is allocated last. -/
theorem run_instanceWith {default : RunTy → StateM Heap Value} {handle : TypeHandle}
    {info : TypeInfo} {heap : Heap} :
    ∃ fields middle, (instanceWith image default handle info).run heap =
      Heap.alloc middle (.instance handle fields) :=
  ⟨_, _, rfl⟩

theorem run_onHeap {α : Type} {action : Heap → α × Heap} :
    (onHeap action).run store =
      .ok (action store.heap).1 { store with heap := (action store.heap).2 } :=
  rfl

/-- Allocating an instance adds one of this type. -/
theorem run_allocInstance {handle : TypeHandle} {info : TypeInfo}
    (isInfo : image.type? handle = some info) (isComplete : info.isComplete = true) :
    ∃ object last fields, (allocInstance image handle).run store = .ok object last ∧
      last.heap.get? object = some (.instance handle fields) := by
  obtain ⟨fields, middle, allocated⟩ := @run_instanceWith image
    (defaultUpTo image (image.types.size + 1)) handle info store.heap
  unfold allocInstance
  rw [Image.type_eq_ok.mpr isInfo, ofImage, EStateM.run_bind]
  simp only [EStateM.run_pure, isComplete, if_true, run_onHeap, allocated]
  exact ⟨_, _, fields, rfl, Array.getElem?_push_size⟩

/-- Raising an exception of the library throws an instance of it. -/
theorem raise_throws {α : Type} (built : image.Built) (exception : SystemException) :
    ∃ handle object last, image.typeNamed? exception.typeName = some handle ∧
      (raise image exception : Exec α).run store = .error (.throw (.ref object)) last ∧
      Store.typeOf? image last.heap (.ref object) = some handle := by
  obtain ⟨handle, info, isHandle, isInfo, isComplete⟩ := built.systemException exception
  obtain ⟨object, last, fields, ran, isObject⟩ := @run_allocInstance image store _ _ isInfo isComplete
  let final : Store :=
    { last with heap := last.heap.setField object messageSlot (.string exception.message) }
  refine ⟨handle, object, final, isHandle, ?_, ?_⟩
  · unfold raise
    rw [isHandle]
    dsimp only
    rw [EStateM.run_bind, ran]
    rfl
  · have found : last.heap.objects[object.index]? = some (.instance handle fields) := isObject
    have isChanged : final.heap.get? object = some (.instance handle
        (fields.setIfInBounds messageSlot (.string exception.message))) := by
      simp [final, Heap.get?, Heap.setField, Heap.modify, Array.getElem?_modify, found]
    simp only [Store.typeOf?, isChanged]

end Exec

/-! ## Running an instruction -/

namespace FrameStep

variable {image : Image} {frame : Frame} {store : Store} {value : Value} {stack : List Value}
variable {resolved : RunTy}
variable {holds : Bool} {current : Nat}

/-- An instruction that replaces the value on top of the stack does what its action does. -/
theorem run_mapTop {action : Value → Exec Value} (shape : frame.stack = value :: stack) :
    (mapTop action).run frame = do
      let result ← action value
      return (.next, { frame with stack := result :: stack }) := by
  simp [mapTop, run_pop shape, push]

theorem run_isInstance (tested : Store.isInstance image store.heap value resolved = .ok holds) :
    (Exec.isInstance image value resolved).run store = .ok holds store := by
  unfold Exec.isInstance
  rw [EStateM.run_bind]
  change (Exec.ofImage (Store.isInstance image store.heap value resolved)).run store = _
  rw [tested]
  rfl

/-- A type test leaves an instance of the type where it is, and null in place of anything else. -/
theorem run_execute_isInstance (shape : frame.stack = value :: stack)
    (tested : Store.isInstance image store.heap value resolved = .ok holds) :
    ((execute image current (.isInstance resolved)).run frame).run store =
      .ok (.next, { frame with stack := (if holds then value else .null) :: stack }) store := by
  change ((mapTop _).run frame).run store = _
  rw [run_mapTop shape]
  simp only [EStateM.run_bind, run_isInstance tested, EStateM.run_pure]

/-- A cast leaves an instance of the type where it is. -/
theorem run_execute_castClass (shape : frame.stack = value :: stack)
    (tested : Store.isInstance image store.heap value resolved = .ok true) :
    ((execute image current (.castClass resolved)).run frame).run store =
      .ok (.next, frame) store := by
  have isFrame : { frame with stack := value :: stack } = frame := by rw [← shape]
  have ran : (castClass image resolved value).run store = .ok value store := by
    unfold castClass
    split
    · rfl
    · simp [EStateM.run_bind, run_isInstance tested]
  change ((mapTop _).run frame).run store = _
  rw [run_mapTop shape]
  simp only [EStateM.run_bind, ran, EStateM.run_pure, isFrame]

/-- A cast of anything else but null throws. -/
theorem run_execute_castClass_refused (built : image.Built) (shape : frame.stack = value :: stack)
    (notNull : value.isNull = false)
    (tested : Store.isInstance image store.heap value resolved = .ok false) :
    ∃ handle object last, image.typeNamed? SystemException.invalidCast.typeName = some handle ∧
      ((execute image current (.castClass resolved)).run frame).run store =
        .error (.throw (.ref object)) last ∧
      Store.typeOf? image last.heap (.ref object) = some handle := by
  obtain ⟨handle, object, last, isHandle, raised, isObject⟩ :=
    @Exec.raise_throws image store Value built .invalidCast
  have ran : (castClass image resolved value).run store = .error (.throw (.ref object)) last := by
    unfold castClass
    simp [notNull, EStateM.run_bind, run_isInstance tested, raised]
  refine ⟨handle, object, last, isHandle, ?_, isObject⟩
  change ((mapTop _).run frame).run store = _
  rw [run_mapTop shape]
  simp only [EStateM.run_bind, ran]

/-- How type tests and casts of a value end: whether the value counts as an instance of a type. -/
structure Tells (image : Image) (store : Store) (value : Value) (resolved : RunTy)
    (holds : Bool) : Prop where
  isInstance : ∀ (current : Nat) (frame : Frame) (stack : List Value),
    frame.stack = value :: stack →
      ((execute image current (.isInstance resolved)).run frame).run store =
        .ok (.next, { frame with stack := (if holds then value else .null) :: stack }) store
  castClass : holds = true → ∀ (current : Nat) (frame : Frame) (stack : List Value),
    frame.stack = value :: stack →
      ((execute image current (.castClass resolved)).run frame).run store =
        .ok (.next, frame) store
  invalidCast : holds = false → ∀ (current : Nat) (frame : Frame) (stack : List Value),
    frame.stack = value :: stack →
      ∃ handle object last,
        image.typeNamed? SystemException.invalidCast.typeName = some handle ∧
        ((execute image current (.castClass resolved)).run frame).run store =
          .error (.throw (.ref object)) last ∧
        Store.typeOf? image last.heap (.ref object) = some handle

theorem Tells.of_isInstance (built : image.Built) (notNull : value.isNull = false)
    (tested : Store.isInstance image store.heap value resolved = .ok holds) :
    Tells image store value resolved holds := by
  refine ⟨fun current frame stack shape => run_execute_isInstance shape tested, ?_, ?_⟩
  · rintro rfl current frame stack shape
    exact run_execute_castClass shape tested
  · rintro rfl current frame stack shape
    exact run_execute_castClass_refused built shape notNull tested

end FrameStep

/-- What has a type is an instance of another type if its type derives from the other. -/
theorem Store.isInstance_of_typeOf? {image : Image} {heap : Heap} {value : Value}
    {resolved : RunTy} {lower upper : TypeHandle} (isLower : typeOf? image heap value = some lower)
    (isUpper : image.handleOf resolved = .ok upper)
    (object : resolved = .object → image.derivesFrom lower upper = true) :
    value.isNull = false ∧
      isInstance image heap value resolved = .ok (image.derivesFrom lower upper) := by
  have notNull : value.isNull = false := by
    cases value <;> first | rfl | cases isLower
  have notNumber : isNumber value = false := by
    cases value <;> first | rfl | cases isLower
  refine ⟨notNull, ?_⟩
  unfold isInstance
  rw [notNull, if_neg Bool.false_ne_true]
  split
  · cases isUpper
  · rw [notNumber, object rfl]
    rfl
  · rw [isUpper, isLower]
    rfl

/-! ## Classes -/

/-- A class of a module, or a platform type that is not generic. -/
def Module.Offers (module : Module) (image : Image) (type : SourceTy) : Prop :=
  (∃ cls ∈ module.classes, type = cls.selfType) ∨
    ∃ builtin, type = .builtin builtin ∧ (image.builtin? builtin).isSome = true

theorem Module.Accepted.standsFor_offered {module : Module} {image : Image}
    {context : TypeContext} {program : Program} {state : BuildState Image}
    (accepted : module.Accepted image context program) (finished : program.Finished image state)
    {type : SourceTy} (offers : module.Offers image type) :
    type.IsPlain ∧ ∃ handle, state.StandsFor type handle := by
  rcases offers with ⟨cls, isClass, rfl⟩ | ⟨builtin, rfl, isSome⟩
  · obtain ⟨core, isCore, checked⟩ := exists_related_right accepted.classes isClass
    obtain ⟨handle, _, isHandle, -⟩ := finished.holdsClass isCore
    rw [checked.name] at isHandle
    exact ⟨trivial, handle, finished.standsFor_declared isHandle⟩
  · obtain ⟨handle, isHandle⟩ := Option.isSome_iff_exists.mp isSome
    have found : image.handleOf (.builtin builtin) = .ok handle :=
      Image.handleOf_eq_ok.mpr isHandle
    exact ⟨trivial, handle, .builtin builtin, rfl, finished.moves.extends'.target.handleOf found⟩

/-- The checker and the machine agree on subtypes.  After a compilation, a class of the module can
be assigned to a class of the module or to a platform type just when its entry derives from that of
the other type; and casts and type tests of an instance of the class succeed just then. -/
theorem Module.subtyping_agrees {module : Module} {image after : Image} {symbols : Symbols}
    {options : CompileOptions} {compiled : CompiledModule} (built : image.Built)
    (recorded : Symbols.ofModule module = .ok symbols)
    (done : module.compile options image = (.ok compiled, after))
    {cls : ClassDef} (isClass : cls ∈ module.classes) (noValue : cls.attrs.isValueType = false)
    (noInterface : cls.attrs.isInterface = false)
    {goal : SourceTy} (offers : module.Offers image goal) :
    ∃ lower upper resolved, compiled.typeHandle cls.name = .ok lower ∧
      compiled.runTy goal = .ok resolved ∧ after.handleOf resolved = .ok upper ∧
      (TypeContext.isAssignable ⟨symbols, image⟩ cls.selfType goal = true ↔
        after.derivesFrom lower upper = true) ∧
      ∀ store value, Store.typeOf? after store.heap value = some lower →
        FrameStep.Tells after store value resolved
          (TypeContext.isAssignable ⟨symbols, image⟩ cls.selfType goal) := by
  cases checked : module.check image with
  | error diagnostic =>
      unfold Module.compile at done
      rw [checked] at done
      cases done
  | ok program =>
      obtain ⟨context, state, accepted, valid, ⟨order, runs, perm⟩, finished, rfl, rfl⟩ :=
        Module.runs_of_check built checked done
      obtain rfl : (⟨symbols, image⟩ : TypeContext) = context := by
        cases context
        cases accepted.image
        cases accepted.symbols.symm.trans recorded
        rfl
      obtain ⟨plain, upper, isUpper⟩ := accepted.standsFor_offered finished offers
      obtain ⟨-, lower, isLower⟩ := accepted.standsFor_offered finished (.inl ⟨cls, isClass, rfl⟩)
      have agrees := accepted.isAssignable_iff checked finished built (Program.placed runs perm)
        isClass noValue noInterface plain isLower isUpper
      obtain ⟨resolved, isResolved, isHandle⟩ := isUpper
      refine ⟨lower, upper, resolved, finished.typeHandle isLower.declared,
        finished.runTy isResolved, isHandle, agrees, fun store value isInstance => ?_⟩
      have object : resolved = .object → state.target.derivesFrom lower upper = true := by
        rintro rfl
        exact accepted.class_derives_object checked finished built (Program.placed runs perm)
          isHandle isClass noValue noInterface isLower.declared (Nat.lt_succ_self _)
      obtain ⟨notNull, tested⟩ := Store.isInstance_of_typeOf? isInstance isHandle object
      rw [Bool.eq_iff_iff.mpr agrees]
      exact .of_isInstance (finished.built built) notNull tested

open Schedule in
/-- A square can be assigned to a shape, and it is one. -/
theorem Module.shapes_subtyping :
    ∃ symbols program compiled after, (shapes (.int32 4)).compileAll =
        .ok (symbols, program, compiled, after) ∧
      ∃ lower upper resolved, compiled.typeHandle "Square" = .ok lower ∧
        compiled.runTy (.declared "Shape") = .ok resolved ∧ after.handleOf resolved = .ok upper ∧
        after.derivesFrom lower upper = true ∧
        ∀ store value, Store.typeOf? after store.heap value = some lower →
          FrameStep.Tells after store value resolved true := by
  have evaluates : (shapes (.int32 4)).compileAll.toOption.any (fun (symbols, _) =>
      TypeContext.isAssignable ⟨symbols, .library⟩ (.declared "Square") (.declared "Shape")) =
        true := by
    decide +kernel
  obtain ⟨⟨symbols, program, compiled, after⟩, made, assignable⟩ := exists_ok_of_any evaluates
  obtain ⟨recorded, -, done⟩ := compileAll_eq_ok made
  obtain ⟨lower, upper, resolved, isLower, isResolved, isUpper, agrees, tells⟩ :=
    subtyping_agrees .library recorded done (List.mem_cons_of_mem _ List.mem_cons_self) rfl rfl
      (.inl ⟨_, List.mem_cons_self, rfl⟩)
  refine ⟨symbols, program, compiled, after, made, lower, upper, resolved, isLower, isResolved,
    isUpper, agrees.mp assignable, fun store value isInstance => ?_⟩
  rw [← show _ = true from assignable]
  exact tells store value isInstance

end ClassForge
