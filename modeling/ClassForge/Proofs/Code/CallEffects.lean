import ClassForge.Proofs.Code.NodeWeights
import ClassForge.Proofs.Code.StackShifts

/-!
# What calls in generated code take and leave

The handles that code is generated with stand for members whose signatures are those that the
checker saw.  So a call takes as many values as the callee has parameters, with the receiver,
and leaves a value just if the callee returns one.
-/

namespace ClassForge

variable {isInstance : Bool}

/-! ## Handles of platform members -/

namespace Image

variable {image : Image} {info : TypeInfo} {owner : RunTy} {name : Name} {params : List RunTy}
variable {handle : MethodHandle}

/-- A method has the name, and takes as many values, as a caller expects. -/
structure Answers (image : Image) (info : TypeInfo) (name : Name) (isInstance : Bool)
    (count : Nat) (handle : MethodHandle) (method : MethodInfo) : Prop where
  member : (handle, method) ∈ image.methodsOf info
  name : method.name = name
  isStatic : method.attrs.isStatic = !isInstance
  count : method.params.length = count

theorem length_eq_of_paramsMatch {declared wanted : List RunTy}
    (same : paramsMatch info declared wanted = true) : declared.length = wanted.length := by
  unfold paramsMatch at same
  split at same
  · exact beq_iff_eq.mp same
  · rw [beq_iff_eq.mp same]

theorem resolveMethod_eq_ok (done : image.resolveMethod owner name isInstance params = .ok handle) :
    ∃ info method, image.ownerInfo owner = .ok info ∧
      image.Answers info name isInstance params.length handle method := by
  obtain ⟨info, isOwner, done⟩ := bind_eq_ok.mp done
  dsimp only at done
  split at done
  · rename_i found
    cases done
    have tested := List.find?_some found
    obtain ⟨⟨named, static⟩, same⟩ := Bool.and_eq_true_iff.mp tested |>.imp_left
      Bool.and_eq_true_iff.mp
    exact ⟨info, _, isOwner, List.mem_of_find?_eq_some found, beq_iff_eq.mp named,
      Bool.eq_not_of_ne (bne_iff_ne.mp static), length_eq_of_paramsMatch same⟩
  · cases done

theorem resolveCtor_eq_ok {handle : CtorHandle}
    (done : image.resolveCtor owner params = .ok handle) :
    ∃ info ctor, image.ownerInfo owner = .ok info ∧ (handle, ctor) ∈ image.ctorsOf info ∧
      ctor.params.length = params.length := by
  obtain ⟨info, isOwner, done⟩ := bind_eq_ok.mp done
  dsimp only at done
  split at done
  · rename_i found
    cases done
    have tested := List.find?_some found
    exact ⟨info, _, isOwner, List.mem_of_find?_eq_some found, length_eq_of_paramsMatch tested⟩
  · cases done

/-- The entry of a platform type is found whether or not its arguments are resolved. -/
theorem platformInfo?_of_resolve {type : SourceTy} {ε : Type}
    {replace : Name → Except ε TypeHandle} (platform : type.declared? = none)
    (resolved : type.resolve replace = .ok owner) (isOwner : image.ownerInfo owner = .ok info) :
    image.platformInfo? type = some info := by
  obtain ⟨handle, found, isInfo⟩ := ownerInfo_eq_ok.mp isOwner
  refine Option.bind_eq_some_iff.mpr ⟨handle, ?_, isInfo⟩
  cases type with
  | builtin builtin =>
      cases resolved
      exact found
  | generic definition args =>
      obtain ⟨resolvedArgs, areResolved, ⟨⟩⟩ := bind_eq_ok.mp resolved
      change image.generic? definition args.length = some handle
      rw [← Ty.length_of_resolveList areResolved]
      exact found
  | declared => cases platform
  | array element =>
      obtain ⟨_, -, ⟨⟩⟩ := bind_eq_ok.mp resolved
      cases found

theorem Answers.calls {count gives : Nat} {method : MethodInfo}
    (answers : image.Answers info name isInstance count handle method)
    (weight : method.ret.weight = gives) :
    image.Calls (count + isInstance.toNat) gives handle := by
  refine ⟨method, (mem_methodsOf.mp answers.member).2, ?_, weight⟩
  rw [answers.count, answers.isStatic, Bool.not_not]

end Image

namespace LowerContext

variable {captures : List Param}

/-- What code is generated with is right about the members that it names: they take as many
values as their keys say, and return a value just if they were declared to. -/
structure Sound (context : LowerContext) (returns : MethodKey → SourceTy → Prop) : Prop where
  built : context.image.Built
  method : ∀ {key handle}, context.resolution.method key = .ok handle →
    ∀ ret, returns key ret →
      context.image.Calls (key.params.length + key.isInstance.toNat) ret.weight handle
  ctor : ∀ {key handle}, context.resolution.ctor key = .ok handle →
    context.image.Constructs key.params.length handle

section Handles

open Lower

variable {context : LowerContext} {returns : MethodKey → SourceTy → Prop}
variable {image : Image} {result before : Nat} {known : List (Label × Nat)}
variable {params : List SourceTy}
variable {owner : SourceTy}

theorem runTy_shifts {type : SourceTy} :
    Shifts image result known (liftM (context.runTy type)) before before
      fun run => context.runTy type = .ok run :=
  .lift fun _ done => done

theorem platformMethod_shifts {name : Name} (platform : owner.declared? = none) :
    Shifts image result known (context.platformMethod owner name isInstance params) before before
      fun handle => ∃ info method, context.image.platformInfo? owner = some info ∧
        context.image.Answers info name isInstance params.length handle method := by
  refine runTy_shifts.bind fun run isRun => ?_
  refine (Shifts.lift fun _ done => done).bind fun runs areRuns => .ofImage fun handle done => ?_
  obtain ⟨info, method, isOwner, answers⟩ := Image.resolveMethod_eq_ok done
  rw [Ty.length_of_resolveList areRuns] at answers
  exact ⟨info, method, Image.platformInfo?_of_resolve platform isRun isOwner, answers⟩

theorem platformCtor_shifts :
    Shifts image result known (context.platformCtor owner params) before before
      (context.image.Constructs params.length) := by
  refine runTy_shifts.bind fun run _ => ?_
  refine (Shifts.lift fun _ done => done).bind fun runs areRuns => .ofImage fun handle done => ?_
  obtain ⟨_, ctor, -, member, count⟩ := Image.resolveCtor_eq_ok done
  exact ⟨ctor, (Image.mem_ctorsOf.mp member).2, count.trans (Ty.length_of_resolveList areRuns)⟩

variable (sound : context.Sound returns)
include sound

theorem method_shifts {callee : Callee} (isKnown : callee.Known returns) :
    Shifts image result known (context.method callee) before before
      (context.image.Calls callee.arity callee.ret.weight) := by
  unfold method
  cases isKey : callee.methodKey? with
  | some key =>
      obtain ⟨owner, -, same⟩ := Option.map_eq_some_iff.mp isKey
      refine .lift fun handle done => ?_
      have calls := sound.method done callee.ret (isKnown.declared key isKey)
      rw [← same] at calls
      exact calls
  | none =>
      refine (platformMethod_shifts (Option.map_eq_none_iff.mp isKey)).imp ?_
      rintro handle ⟨info, method, found, answers⟩
      obtain ⟨isInfo, platform, -⟩ := sound.built.platformInfo? found
      refine answers.calls (Ty.weight_of_isVoid_eq ?_)
      rw [sound.built.isVoid_ret isInfo platform answers.member, answers.name]
      exact (isKnown.platform _ (Image.origin?_of_platformInfo? found)).symm

theorem ctor_shifts {callee : Callee} :
    Shifts image result known (context.ctor callee) before before
      (context.image.Constructs callee.params.length) := by
  unfold ctor
  cases isKey : callee.ctorKey? with
  | some key =>
      obtain ⟨owner, -, same⟩ := Option.map_eq_some_iff.mp isKey
      refine .lift fun handle done => ?_
      have constructs := sound.ctor done
      rw [← same] at constructs
      exact constructs
  | none => exact platformCtor_shifts

theorem delegateInvoke_shifts {delegate ret : SourceTy}
    (signature : delegate.signature? = some (params, ret)) (free : delegate.isVoidFree = true) :
    Shifts image result known (context.delegateInvoke delegate) before before
      (context.image.Calls (params.length + 1) ret.weight) := by
  unfold delegateInvoke
  rw [signature]
  have platform : delegate.declared? = none := by
    cases delegate with
    | declared => cases signature
    | _ => rfl
  refine (platformMethod_shifts platform).imp ?_
  rintro handle ⟨info, method, found, answers⟩
  obtain ⟨isInfo, isPlatform, -⟩ := sound.built.platformInfo? found
  refine answers.calls (Ty.weight_of_isVoid_eq ?_)
  rw [sound.built.isVoid_ret isInfo isPlatform answers.member, answers.name]
  exact (sound.built.isVoid_of_signature? free found signature).symm

/-- The routines that operators call return values. -/
theorem routine_shifts {name : Name} (isOwner : owner = .string ∨ owner = .named Platform.math) :
    Shifts image result known (context.platformMethod owner name false params) before before
      (context.image.Calls params.length 1) := by
  have platform : owner.declared? = none := by rcases isOwner with rfl | rfl <;> rfl
  refine (platformMethod_shifts platform).imp ?_
  rintro handle ⟨info, method, found, answers⟩
  obtain ⟨isInfo, isPlatform, inLibrary⟩ := sound.built.platformInfo? found
  obtain ⟨earlier, isEarlier, grows⟩ := sound.built.platform_method isInfo isPlatform answers.member
  have isOrigin : info.origin = .builtin .string ∨
      info.origin = .builtin (.named Platform.math) := by
    have isOrigin := Image.origin?_of_platformInfo? found
    rcases isOwner with rfl | rfl
    · exact .inl (Option.some.inj isOrigin).symm
    · exact .inr (Option.some.inj isOrigin).symm
  refine answers.calls (Ty.weight_eq_one ?_)
  rw [grows.ret]
  exact (Image.library_entries info inLibrary).routines isOrigin _ isEarlier

end Handles

/-! ## Storage -/

section Storage

open Lower

variable {context : LowerContext} {result before : Nat} {known : List (Label × Nat)}
variable {image : Image} {type : SourceTy}

theorem declareLocal_shifts :
    Shifts image result known (context.declareLocal type) before before fun _ => True :=
  runTy_shifts.andThen fun _ => .declareLocal

theorem storeTop_shifts :
    Shifts image result known (context.storeTop type) (before + 1) before fun _ => True := by
  refine declareLocal_shifts.andThen fun slot => ?_
  exact (Shifts.step rfl).andThen fun _ => .pure trivial

theorem newCell_shifts {content : SourceTy} {filled : Bool} :
    Shifts context.image result known (context.newCell content filled) (before + filled.toNat)
      before fun _ => True := by
  refine platformCtor_shifts.bind fun ctor constructs => ?_
  rw [show (if filled then [content] else []).length = filled.toNat by
    cases filled <;> rfl] at constructs
  exact (Shifts.newObject constructs).andThen fun _ =>
    storeTop_shifts.andThen fun _ => .pure trivial

theorem bindTop_shifts {boxed : Bool} :
    Shifts context.image result known (context.bindTop type boxed) (before + 1) before
      fun _ => True := by
  unfold bindTop
  cases boxed with
  | true => exact newCell_shifts
  | false => exact storeTop_shifts.andThen fun _ => .pure trivial

theorem bindFresh_shifts {boxed : Bool} :
    Shifts context.image result known (context.bindFresh type boxed) before before
      fun _ => True := by
  unfold bindFresh
  cases boxed with
  | true => exact @newCell_shifts _ _ before _ _ false
  | false => exact declareLocal_shifts.andThen fun _ => .pure trivial

theorem load_shifts {place : Place} :
    Shifts image result known place.load before (before + 1) fun _ => True := by
  cases place with
  | argument | localSlot => exact .step rfl
  | receiverField =>
      exact .emitAll (by
        simp [Instr.depthAfter?, Instr.effect?, Instr.targets, Instr.fallsThrough])

theorem cellField_shifts {content : SourceTy} :
    Shifts image result known (context.cellField content) before before fun _ => True :=
  runTy_shifts.andThen fun _ => .ofImage fun _ _ => trivial

theorem fetch_shifts {binding : Binding} :
    Shifts image result known (context.fetch binding) before (before + 1) fun _ => True := by
  refine load_shifts.andThen fun _ => ?_
  split
  · exact cellField_shifts.andThen fun _ => .step rfl
  · exact .pure trivial

/-- Storing the value that some code pushes. -/
theorem store_shifts {binding : Binding} {value : Lower Unit}
    (pushes : ∀ depth, Shifts image result known value depth (depth + 1) fun _ => True) :
    Shifts image result known (context.store binding value) before before fun _ => True := by
  unfold store
  split
  · refine load_shifts.andThen fun _ => (pushes _).andThen fun _ => ?_
    exact cellField_shifts.andThen fun _ => .step rfl
  · cases binding.place with
    | argument | localSlot => exact (pushes _).andThen fun _ => .step rfl
    | receiverField => exact (Shifts.step rfl).andThen fun _ => (pushes _).andThen fun _ => .step rfl

theorem fetchCells_shifts {env : Scope Binding} :
    Shifts image result known (env.fetchCells captures) before (before + captures.length)
      fun _ => True := by
  refine .forM_push fun capture _ depth => ?_
  refine (Shifts.lift fun _ _ => trivial).andThen fun binding => ?_
  unfold Binding.fetchCell
  split
  · exact load_shifts
  · exact .throw

end Storage

/-! ## Nodes that act on operands -/

section Nodes

open Lower

variable {context : LowerContext} {returns : MethodKey → SourceTy → Prop}
variable {result before : Nat} {known : List (Label × Nat)}
variable (sound : context.Sound returns)
variable {env : Scope Binding}

theorem field_shifts {image : Image} {target : FieldTarget} :
    Shifts image result known (context.field target) before before fun _ => True := by
  unfold field
  split
  · exact .lift fun _ _ => trivial
  · exact runTy_shifts.andThen fun _ => .ofImage fun _ _ => trivial

include sound in
theorem lowerAction_shifts {action : Action} {operands gives : Nat}
    (leaves : action.Leaves operands gives) :
    Shifts context.image result known (context.lowerAction action) (before + operands)
      (before + gives) fun _ => True := by
  cases action with
  | code instrs =>
      rcases leaves with ⟨rfl, rfl⟩ | ends
      · have throws : Shifts context.image result known (emit .throw) (before + 1)
            (before + gives) fun _ => True :=
          .instruction ⟨1, 0⟩ rfl (Nat.le_add_left ..) (by simp [Instr.targets]) nofun nofun nofun
        exact throws.andThen fun _ => .pure trivial
      · exact .emitAll (ends _ _)
  | routine owner name params =>
      obtain ⟨isOwner, rfl, rfl⟩ := leaves
      exact (routine_shifts sound isOwner).bind fun _ calls => .call calls
  | onType action type =>
      refine runTy_shifts.andThen fun type => .emitAll ?_
      have effect := action.depthAfter?_code context.image type before
      rwa [show action.effect = ⟨operands, gives⟩ from leaves] at effect

include sound in
theorem lowerMember_shifts {use : MemberUse} {operands : Lower Unit} {count gives : Nat}
    {tail : Bool} (leaves : use.Leaves returns count gives)
    (pushes : Shifts context.image result known operands before (before + count) fun _ => True)
    (ends : tail = true → before = 0 ∧ gives = result) :
    Shifts context.image result known (context.lowerMember use operands tail) before
      (before + gives) fun _ => True := by
  cases use with
  | loadField target =>
      obtain ⟨rfl, rfl⟩ := leaves
      refine field_shifts.andThen fun field => pushes.andThen fun _ => ?_
      cases target.isStatic with
      | true => exact .step rfl
      | false => exact .step rfl
  | storeField target =>
      obtain ⟨rfl, rfl⟩ := leaves
      refine field_shifts.andThen fun field => pushes.andThen fun _ => ?_
      cases target.isStatic with
      | true => exact .step rfl
      | false => exact .step rfl
  | call callee =>
      obtain ⟨rfl, rfl, isKnown⟩ := leaves
      exact (method_shifts sound isKnown).bind fun method calls =>
        pushes.andThen fun _ => .emitCall calls ends
  | write callee =>
      obtain ⟨rfl, rfl, isKnown⟩ := leaves
      exact (method_shifts sound isKnown).bind fun method calls =>
        pushes.andThen fun _ => .emitCall calls nofun
  | new callee =>
      obtain ⟨rfl, rfl⟩ := leaves
      exact (ctor_shifts sound).bind fun ctor constructs =>
        pushes.andThen fun _ => .newObject constructs

include sound in
/-- A function is made of its cells. -/
theorem lowerClosure_shifts {closure : Closure} :
    Shifts context.image result known (context.lowerClosure closure env) before (before + 1)
      fun _ => True := by
  refine fetchCells_shifts.andThen fun _ => ?_
  refine (Shifts.lift fun _ done => sound.ctor done).bind fun ctor constructs => ?_
  rw [show closure.ctorKey.params.length = closure.captures.length from
    List.length_map ..] at constructs
  refine (Shifts.newObject constructs).andThen fun _ => ?_
  refine (Shifts.lift fun _ _ => trivial).andThen fun invoke => ?_
  refine (Shifts.step rfl).andThen fun _ => ?_
  exact platformCtor_shifts.bind fun delegate constructs => .newObject constructs

include sound in
/-- The arguments of a block are the cells and the arrays. -/
theorem lowerBlockCall_shifts {block : Option Block} {found : Block}
    {arrays : Lower Unit} (isBlock : block = some found) (returned : returns found.key found.ret)
    (cells : found.captures = captures)
    (pushes : ∀ depth, Shifts context.image result known arrays depth
      (depth + found.arrays.length) fun _ => True) :
    Shifts context.image result known (context.lowerBlockCall block captures arrays env) before
      (before + found.ret.weight) fun _ => True := by
  subst isBlock cells
  refine fetchCells_shifts.andThen fun _ => (pushes _).andThen fun _ => ?_
  refine (Shifts.lift fun _ done => sound.method done _ returned).bind fun method calls => ?_
  have count : found.key.params.length + found.key.isInstance.toNat =
      found.captures.length + found.arrays.length := by
    simp [Block.key, Block.params, cellTypes]
  rw [count] at calls
  rw [Nat.add_assoc]
  exact .call calls

include sound in
theorem lowerLoopCall_shifts {closure : Closure} {function : Binder} {params : List SourceTy}
    {ret : SourceTy} {slots : List Nat} {tail : Bool}
    (isFunction : function.type = .delegate params ret) (free : function.type.isVoidFree = true)
    (count : slots.length = params.length) (ends : tail = true → before = 0 ∧ ret.weight = result) :
    Shifts context.image result known (context.lowerLoopCall closure function slots env tail)
      before (before + ret.weight) fun _ => True := by
  refine bindFresh_shifts.andThen fun binding => ?_
  refine (store_shifts fun _ => lowerClosure_shifts sound).andThen fun _ => ?_
  refine fetch_shifts.andThen fun _ => ?_
  refine (Shifts.forM_push fun slot _ depth => .step rfl).andThen fun _ => ?_
  have signature := Ty.signature?_delegate params ret
  rw [← isFunction] at signature
  refine (delegateInvoke_shifts sound signature free).bind fun invoke calls => ?_
  rw [Nat.add_assoc, count, Nat.add_comm 1]
  exact .emitCall calls ends

end Nodes

end LowerContext

end ClassForge
