import ClassForge.Proofs.Build.TypeNames
import ClassForge.Proofs.Typing.ValueTypes

/-!
# What nodes take and leave

`Core.Fits` says of a node of a checked tree that the types of its parts agree with what its
code does to the evaluation stack: operands have values, the branches of a choice leave what
the whole leaves, and a call returns a value just if the node has one.  Every node of an
accepted expression fits, if `Void` is mentioned only for results and names are bound to
values only.
-/

namespace ClassForge

variable {instrs : List Instr} {types : Scope SourceTy}

/-! ## Nodes -/

/-- What an instruction that takes a type does with the values of its operands. -/
def TypeAction.effect : TypeAction → StackEffect
  | newArray | box | unbox | cast | test => ⟨1, 1⟩
  | loadElement => ⟨2, 1⟩
  | storeElement => ⟨3, 0⟩

theorem TypeAction.depthAfter?_code (image : Image) (action : TypeAction) (type : RunTy)
    (depth : Nat) :
    Instr.depthAfter? image (action.code type) (depth + action.effect.takes) =
      some (depth + action.effect.gives) := by
  cases action <;>
    simp [code, effect, Instr.depthAfter?, Instr.effect?, Instr.targets, Instr.fallsThrough]

/-- The code of an action takes as many values as there are operands, and leaves the result.
What comes after a throw is not reached. -/
def Action.Leaves (action : Action) (operands result : Nat) : Prop :=
  match action with
  | .code instrs => instrs = [.throw] ∧ operands = 1 ∨
      ∀ image depth, Instr.depthAfter? image instrs (depth + operands) = some (depth + result)
  | .routine owner _ params => (owner = .string ∨ owner = .named Platform.math) ∧
      params.length = operands ∧ result = 1
  | .onType action _ => action.effect = ⟨operands, result⟩

/-- Number of values that a call takes. -/
def Callee.arity (callee : Callee) : Nat :=
  callee.params.length + callee.isInstance.toNat

/-- A member use takes as many values as there are operands, and leaves the result. -/
def MemberUse.Leaves (returns : MethodKey → SourceTy → Prop) (operands result : Nat) :
    MemberUse → Prop
  | loadField field => operands = (!field.isStatic).toNat ∧ result = 1
  | storeField field => operands = (!field.isStatic).toNat + 1 ∧ result = 0
  | call callee | write callee =>
      operands = callee.arity ∧ result = callee.ret.weight ∧ callee.Known returns
  | new ctor => operands = ctor.params.length ∧ result = 1

namespace Core

/-- The parts whose values a node takes. -/
def operands : Core → List Core
  | set _ value => [value]
  | logic _ items => items
  | when test _ | .while test _ | cond test _ _ => [test]
  | switch selector _ _ => [selector]
  | letPar clauses _ | letSeq clauses _ | letRec clauses _ => clauses.map (·.2)
  | loop _ _ vars _ _ _ => vars.map (·.2)
  | invoke _ function args => function :: args
  | apply _ _ operands | member _ _ operands => operands
  | pin _ _ arrays _ => arrays.map (·.2)
  | _ => []

/-- The parts of which one gives the value of the whole, apart from the one that the type of
the whole is read off. -/
def branches : Core → List Core
  | cond _ _ no => [no]
  | switch _ arms _ => arms.map (·.2)
  | tryCatch _ _ _ catches | tryFinally _ _ _ catches _ => catches.map (·.2)
  | _ => []

/-- What a node leaves itself agrees with its type. -/
def Leaves (returns : MethodKey → SourceTy → Prop) : Core → Prop
  | literal value => value.type.isVoid = false
  | var _ type => type.isVoid = false
  | when _ body => body.type.isVoid = true
  | loop _ function vars ret _ body =>
      function.type = .delegate (vars.map fun var => var.1.type) ret ∧
        function.type.isVoidFree = true ∧ (ret.isVoid = false → body.type.isVoid = false)
  | invoke type function args => ∃ params, function.type.signature? = some (params, type) ∧
      function.type.isVoidFree = true ∧ params.length = args.length
  | apply type action operands => action.Leaves operands.length type.weight
  | member type use operands => use.Leaves returns operands.length type.weight
  | _ => True

/-- The types of a node and its parts agree with what its code does to the stack. -/
structure Fits (returns : MethodKey → SourceTy → Prop) (core : Core) : Prop where
  operands : ∀ part ∈ core.operands, part.type.isVoid = false
  branches : ∀ part ∈ core.branches, part.type = core.type
  leaves : core.Leaves returns

/-- The variables that `let`, `let*` and `lambda` bind. -/
def binders : Core → List Binder
  | letPar clauses _ | letSeq clauses _ => clauses.map (·.1)
  | lambda _ params _ _ => params
  | _ => []

/-- No variable that `let`, `let*` or `lambda` binds in an expression is of type `Void`. -/
def BindsValues (core : Core) : Prop :=
  ∀ node ∈ core.preorder, ∀ binder ∈ node.binders, binder.type.isVoid = false

end Core

/-! ## Operators -/

namespace Operators

variable {context : TypeContext} {left right type : SourceTy} {action : Action}

theorem sharedPrim?_eq_some {allowed : Prim → Bool} {prim : Prim}
    (shared : sharedPrim? left right allowed = some prim) :
    left.prim? = some prim ∧ right.prim? = some prim := by
  obtain ⟨first, isFirst, same⟩ := Option.bind_eq_some_iff.mp shared
  split at same
  · rename_i agrees
    cases same
    exact ⟨isFirst, beq_iff_eq.mp (Bool.and_eq_true_iff.mp agrees).1⟩
  · cases same

theorem leaves_arith (op : ArithOp) : (Action.instr (.arith op)).Leaves 2 1 :=
  .inr fun _ _ => by simp [Instr.depthAfter?, Instr.effect?, Instr.targets, Instr.fallsThrough]

theorem leaves_code {operands : Nat}
    (ends : ∀ image depth, Instr.depthAfter? image instrs (depth + operands) = some (depth + 1)) :
    (Action.code instrs).Leaves operands 1 :=
  .inr ends

theorem leaves_math (name : Name) (params : List SourceTy) :
    (math name params).Leaves params.length 1 :=
  ⟨.inr rfl, rfl, rfl⟩

/-- A binary operator takes two values and leaves one. -/
theorem binary_leaves {op : BinaryOp}
    (meaning : Operators.binary context op left right = .ok (type, action)) :
    left.isVoid = false ∧ right.isVoid = false ∧ type.isVoidFree = true ∧ action.Leaves 2 1 := by
  have found := binary?_of_binary meaning
  have ofShared : ∀ {allowed prim}, sharedPrim? left right allowed = some prim →
      left.isVoid = false ∧ right.isVoid = false ∧ left.isVoidFree = true := by
    intro allowed prim shared
    obtain ⟨isLeft, isRight⟩ := sharedPrim?_eq_some shared
    exact ⟨(Ty.isVoid_prim? isLeft).1, (Ty.isVoid_prim? isRight).1, (Ty.isVoid_prim? isLeft).2⟩
  have ofComparable : isComparable context left right = true →
      left.isVoid = false ∧ right.isVoid = false := by
    intro comparable
    rcases Bool.or_eq_true_iff.mp comparable with shared | references
    · obtain ⟨prim, shared⟩ := Option.isSome_iff_exists.mp shared
      exact ⟨(ofShared shared).1, (ofShared shared).2.1⟩
    · obtain ⟨⟨isLeft, isRight⟩, -⟩ := Bool.and_eq_true_iff.mp references |>.imp_left
        Bool.and_eq_true_iff.mp
      exact ⟨TypeContext.isVoid_of_isReference isLeft, TypeContext.isVoid_of_isReference isRight⟩
  cases op with
  | add | sub | mul | div | rem =>
      replace found : arithmetic? _ left right = some (type, action) := found
      unfold arithmetic? at found
      split at found
      · rename_i strings
        obtain ⟨-, rfl, rfl⟩ := strings
        cases found
        exact ⟨rfl, rfl, rfl, .inl rfl, rfl, rfl⟩
      · split at found
        · rename_i offset
          obtain ⟨-, rfl, rfl⟩ := offset
          cases found
          exact ⟨rfl, rfl, rfl, leaves_arith _⟩
        · obtain ⟨prim, shared, same⟩ := Option.bind_eq_some_iff.mp found
          cases same
          obtain ⟨isLeft, isRight, free⟩ := ofShared shared
          exact ⟨isLeft, isRight, free, leaves_arith _⟩
  | bitAnd | bitOr | bitXor =>
      obtain ⟨prim, shared, same⟩ := Option.bind_eq_some_iff.mp found
      cases same
      obtain ⟨isLeft, isRight, free⟩ := ofShared shared
      exact ⟨isLeft, isRight, free, leaves_arith _⟩
  | shl | shr =>
      obtain ⟨prim, isLeft, same⟩ := Option.bind_eq_some_iff.mp found
      split at same
      · rename_i allowed
        cases same
        have isRight : right.prim? = some .int32 :=
          beq_iff_eq.mp (Bool.and_eq_true_iff.mp allowed).2
        exact ⟨(Ty.isVoid_prim? isLeft).1, (Ty.isVoid_prim? isRight).1, (Ty.isVoid_prim? isLeft).2,
          leaves_arith _⟩
      · cases same
  | eq | ne =>
      simp only [binary?] at found
      split at found
      · rename_i comparable
        cases found
        refine ⟨(ofComparable comparable).1, (ofComparable comparable).2, rfl, leaves_code ?_⟩
        simp [Instr.depthAfter?, Instr.effect?, Instr.targets, Instr.fallsThrough, negation]
      · cases found
  | lt | le | gt | ge =>
      obtain ⟨prim, shared, same⟩ := Option.map_eq_some_iff.mp found
      cases same
      refine ⟨(ofShared shared).1, (ofShared shared).2.1, rfl, leaves_code ?_⟩
      simp [comparison, Instr.depthAfter?, Instr.effect?, Instr.targets, Instr.fallsThrough,
        negation]
  | pow | atan2 | min | max =>
      obtain ⟨prim, shared, same⟩ := Option.map_eq_some_iff.mp found
      cases same
      obtain ⟨isLeft, isRight, free⟩ := ofShared shared
      exact ⟨isLeft, isRight, free, leaves_math _ [left, right]⟩

/-- A unary operator takes a value and leaves one. -/
theorem unary_leaves {op : UnaryOp} {operand : SourceTy}
    (meaning : Operators.unary op operand = .ok (type, action)) :
    operand.isVoid = false ∧ type.isVoidFree = true ∧ action.Leaves 1 1 := by
  have found := unary?_of_unary meaning
  obtain ⟨prim, isPrim, same⟩ := Option.bind_eq_some_iff.mp found
  split at same
  · cases same
    refine ⟨(Ty.isVoid_prim? isPrim).1, (Ty.isVoid_prim? isPrim).2, ?_⟩
    cases op with
    | neg | bitNot | not =>
        refine leaves_code ?_
        simp [Instr.depthAfter?, Instr.effect?, Instr.targets, Instr.fallsThrough, negation]
    | _ => exact leaves_math _ [_]
  · cases same

end Operators

/-! ## Nodes that act on operands -/

namespace TypeContext

variable {context : TypeContext} {found : Core} {done : Unit}
variable {type : SourceTy} {construct : Construct}

theorem isVoid_of_isValue (isValue : context.isValue type = true) : type.isVoid = false := by
  cases type with
  | builtin builtin => cases builtin <;> first | rfl | cases isValue
  | _ => rfl

theorem expectReference_eq_ok :
    context.expectReference construct type = .ok done ↔ context.isReference type = true := by
  unfold expectReference
  split <;> simp_all

theorem expectValue_eq_ok :
    context.expectValue construct type = .ok done ↔ context.isValue type = true := by
  unfold expectValue
  split <;> simp_all

theorem expectMemory_eq_ok {operand : MemoryOperand} {prim : Prim} :
    expectMemory operand prim found = .ok done ↔ found.type.prim? = some prim := by
  unfold expectMemory Ty.isPrim
  split <;> simp_all

theorem expectReceiver_eq_ok : expectReceiver found = .ok done ↔ found.type.isVoid = false := by
  unfold expectReceiver
  split <;> simp_all

/-- What a `switch` selects by is a number. -/
theorem isVoid_of_expectSelector (fits : expectSelector found = .ok done) :
    found.type.isVoid = false := by
  unfold expectSelector at fits
  split at fits
  · rename_i isSelector
    obtain ⟨prim, isPrim, -⟩ := (Option.any_eq_true _ _).mp isSelector
    exact (Ty.isVoid_prim? isPrim).1
  · cases fits

end TypeContext

namespace Expr

variable {context : TypeContext} {owner : SourceTy} {name : Name} {core : Core}
variable {returns : MethodKey → SourceTy → Prop} {receiver : List Core}
variable {type : SourceTy}

theorem apply_fits {action : Action} {operands : List Core}
    (values : ∀ operand ∈ operands, operand.type.isVoid = false)
    (leaves : action.Leaves operands.length type.weight) :
    (Core.apply type action operands).Fits returns :=
  ⟨values, nofun, leaves⟩

theorem member_fits {use : MemberUse} {operands : List Core}
    (values : ∀ operand ∈ operands, operand.type.isVoid = false)
    (leaves : use.Leaves returns operands.length type.weight) :
    (Core.member type use operands).Fits returns :=
  ⟨values, nofun, leaves⟩

/-- An instruction that puts a result in place of its operands. -/
theorem leaves_instr (free : type.isVoidFree = true) {operands : Nat}
    (ends : ∀ image depth, Instr.depthAfter? image instrs (depth + operands) = some (depth + 1)) :
    (Action.code instrs).Leaves operands type.weight := by
  rw [Ty.weight_of_isVoidFree free]
  exact .inr ends

theorem leaves_onType (free : type.isVoidFree = true) {action : TypeAction} {mentioned : SourceTy}
    {operands : Nat} (effect : action.effect = ⟨operands, 1⟩) :
    (Action.onType action mentioned).Leaves operands type.weight := by
  rw [Ty.weight_of_isVoidFree free]
  exact effect

/-- Casts and type tests take references. -/
theorem isVoid_of_related {operand : Core} {construct : Construct} {done : Unit}
    (related : TypeContext.unaryCore.related context operand construct type = .ok done) :
    operand.type.isVoid = false := by
  obtain ⟨⟨⟩, isReference, -⟩ := bind_eq_ok.mp related
  exact TypeContext.isVoid_of_isReference (TypeContext.expectReference_eq_ok.mp isReference)

section

variable (voidFree : context.VoidFree)
variable {isStatic : Bool}
variable {value : Checked Core}

include voidFree

theorem loadField_fits (free : owner.isVoidFree = true)
    (checked : context.loadField owner name isStatic receiver = .ok core)
    (count : receiver.length = (!isStatic).toNat)
    (values : ∀ first ∈ receiver, first.type.isVoid = false) :
    core.type.IsResult ∧ core.Fits context.symbols.Returns := by
  simp only [TypeContext.loadField, bind_eq_ok, pure_eq_ok] at checked
  obtain ⟨field, found, rfl⟩ := checked
  obtain ⟨fieldFree, rfl⟩ := voidFree.accessField free found
  exact ⟨.inr fieldFree, member_fits values ⟨count, Ty.weight_of_isVoidFree fieldFree⟩⟩

theorem loadProperty_fits (checked : context.loadProperty owner name isStatic receiver = .ok core)
    (count : receiver.length = (!isStatic).toNat)
    (values : ∀ first ∈ receiver, first.type.isVoid = false) :
    core.type.IsResult ∧ core.Fits context.symbols.Returns := by
  simp only [TypeContext.loadProperty, bind_eq_ok, pure_eq_ok] at checked
  obtain ⟨getter, found, rfl⟩ := checked
  obtain ⟨free, known, isInstance, params⟩ := voidFree.accessGetter found
  refine ⟨.inr free, member_fits values ⟨?_, rfl, known⟩⟩
  rw [Callee.arity, params, isInstance, count, List.length_nil, Nat.zero_add]

theorem storeField_fits (free : owner.isVoidFree = true)
    (checked : context.storeField owner name isStatic receiver value = .ok core)
    (count : receiver.length = (!isStatic).toNat)
    (values : ∀ first ∈ receiver, first.type.isVoid = false) :
    core.type.IsResult ∧ core.Fits context.symbols.Returns := by
  simp only [TypeContext.storeField, bind_eq_ok, pure_eq_ok,
    TypeContext.expectAssignable_eq_ok] at checked
  obtain ⟨field, found, operand, -, -, assignable, rfl⟩ := checked
  obtain ⟨fieldFree, rfl⟩ := voidFree.accessField free found
  have isValue := TypeContext.isVoid_of_isAssignable assignable (Ty.isVoid_eq_false fieldFree)
  have each := List.forall_mem_append.mpr ⟨values, List.forall_mem_singleton.mpr isValue⟩
  refine ⟨.inl rfl, member_fits each ⟨?_, rfl⟩⟩
  rw [List.length_append, count, List.length_singleton]

theorem storeProperty_fits
    (checked : context.storeProperty owner name isStatic receiver value = .ok core)
    (count : receiver.length = (!isStatic).toNat)
    (values : ∀ first ∈ receiver, first.type.isVoid = false) :
    core.type.IsResult ∧ core.Fits context.symbols.Returns := by
  simp only [TypeContext.storeProperty, bind_eq_ok, pure_eq_ok,
    TypeContext.expectAssignable_eq_ok] at checked
  obtain ⟨property, found, operand, -, -, assignable, rfl⟩ := checked
  obtain ⟨free, known, rfl⟩ := voidFree.accessSetter found
  have isValue := TypeContext.isVoid_of_isAssignable assignable (Ty.isVoid_eq_false free)
  have each := List.forall_mem_append.mpr ⟨values, List.forall_mem_singleton.mpr isValue⟩
  refine ⟨.inl rfl, member_fits each ⟨?_, rfl, known⟩⟩
  rw [List.length_append, count, List.length_singleton, Callee.arity, Nat.add_comm]
  rfl

theorem callMethod_fits {args : List Core} (free : owner.isVoidFree = true)
    (checked : context.callMethod owner name receiver args = .ok core)
    (count : receiver.length = (!receiver.isEmpty).toNat)
    (values : ∀ first ∈ receiver, first.type.isVoid = false) :
    core.type.IsResult ∧ core.Fits context.symbols.Returns := by
  simp only [TypeContext.callMethod, bind_eq_ok, pure_eq_ok] at checked
  obtain ⟨callee, selected, rfl⟩ := checked
  obtain ⟨isInstance, params, isResult, known⟩ :=
    voidFree.methodCandidates free (TypeContext.mem_of_select selected)
  have each := List.forall_mem_append.mpr ⟨values, fun arg isArg =>
    TypeContext.isVoid_of_select selected params _ (List.mem_map_of_mem isArg)⟩
  refine ⟨isResult, member_fits each ⟨?_, rfl, known⟩⟩
  rw [List.length_append, count, Callee.arity, isInstance,
    (TypeContext.select_takes selected).1, List.length_map, Nat.add_comm]

theorem unaryCore_fits {form : UnaryForm} {operand : Checked Core}
    (checked : context.unaryCore form operand = .ok core)
    (valueTypes : ∀ type ∈ form.valueTypes, type.isVoidFree = true)
    (resultTypes : ∀ type ∈ form.resultTypes, type.IsResult)
    (isResult : ∀ value, operand = .ok value → value.type.IsResult) :
    core.type.IsResult ∧ core.Fits context.symbols.Returns := by
  have single {value : Core} (isValue : value.type.isVoid = false) :
      ∀ part ∈ [value], part.type.isVoid = false := List.forall_mem_singleton.mpr isValue
  cases form
  case setStaticField =>
    exact storeField_fits voidFree (valueTypes _ List.mem_cons_self) checked rfl nofun
  case setStaticProperty => exact storeProperty_fits voidFree checked rfl nofun
  all_goals simp only [TypeContext.unaryCore, bind_eq_ok, TypeContext.expectReceiver_eq_ok,
    TypeContext.expectExact_eq_ok, TypeContext.expectMemory_eq_ok,
    TypeContext.expectValue_eq_ok, TypeContext.expectReference_eq_ok,
    TypeContext.expectException_eq_ok] at checked
  case op =>
    obtain ⟨value, found, ⟨type, action⟩, meaning, same⟩ := checked
    cases same
    obtain ⟨isValue, free, leaves⟩ := Operators.unary_leaves meaning
    refine ⟨.inr free, apply_fits (single isValue) ?_⟩
    rwa [Ty.weight_of_isVoidFree free]
  case field =>
    obtain ⟨value, found, -, isValue, checked⟩ := checked
    exact loadField_fits voidFree ((isResult value found).isVoidFree isValue) checked rfl
      (single isValue)
  case property =>
    obtain ⟨value, found, -, isValue, checked⟩ := checked
    exact loadProperty_fits voidFree checked rfl (single isValue)
  case convert =>
    obtain ⟨value, found, checked⟩ := checked
    split at checked
    · rename_i numeric
      cases checked
      obtain ⟨prim, isPrim, -⟩ :=
        (Option.any_eq_true _ _).mp (Bool.and_eq_true_iff.mp numeric).1
      exact ⟨.inr rfl, apply_fits (single (Ty.isVoid_prim? isPrim).1) (leaves_instr rfl (by
        simp [Instr.depthAfter?, Instr.effect?, Instr.targets, Instr.fallsThrough]))⟩
    · exact (throw_ne_ok.mp checked).elim
  case newArray element =>
    split at checked
    · simp only [bind_eq_ok, throw_ne_ok, false_and, exists_false] at checked
    · simp only [bind_eq_ok, pure_eq_ok, TypeContext.expectExact_eq_ok] at checked
      obtain ⟨value, found, -, isLength, rfl⟩ := checked
      have free : (Ty.array element).isVoidFree = true := valueTypes element List.mem_cons_self
      exact ⟨.inr free, apply_fits (single (by rw [isLength]; rfl)) 
        (leaves_onType free rfl)⟩
  case arrayLength =>
    obtain ⟨value, found, done, isArray, checked⟩ := checked
    cases checked
    have isValue : value.type.isVoid = false := by
      cases isElement : TypeContext.elementType value with
      | error =>
          rw [isElement] at isArray
          cases isArray
      | ok element => rw [elementType_eq_ok.mp isElement]; rfl
    exact ⟨.inr rfl, apply_fits (single isValue) (leaves_instr rfl (by
      simp [Instr.depthAfter?, Instr.effect?, Instr.targets, Instr.fallsThrough]))⟩
  case peek =>
    obtain ⟨value, found, -, isAddress, checked⟩ := checked
    cases checked
    exact ⟨.inr rfl, apply_fits (single (Ty.isVoid_prim? isAddress).1) (leaves_instr rfl (by
      simp [Instr.depthAfter?, Instr.effect?, Instr.targets, Instr.fallsThrough]))⟩
  case box =>
    obtain ⟨value, found, -, isValue, checked⟩ := checked
    cases checked
    exact ⟨.inr rfl, apply_fits (single (TypeContext.isVoid_of_isValue isValue))
      (leaves_onType rfl rfl)⟩
  case unbox =>
    obtain ⟨value, found, -, isObject, -, -, checked⟩ := checked
    cases checked
    have free := valueTypes _ List.mem_cons_self
    exact ⟨.inr free, apply_fits (single (by rw [isObject]; rfl)) 
      (leaves_onType free rfl)⟩
  case cast =>
    obtain ⟨value, found, done, related, checked⟩ := checked
    cases checked
    have free := valueTypes _ List.mem_cons_self
    exact ⟨.inr free, apply_fits (single (isVoid_of_related related)) (leaves_onType free rfl)⟩
  case isInstance =>
    obtain ⟨value, found, done, related, checked⟩ := checked
    cases checked
    exact ⟨.inr rfl, apply_fits (single (isVoid_of_related related)) (leaves_onType rfl rfl)⟩
  case isNull =>
    obtain ⟨value, found, -, isReference, checked⟩ := checked
    cases checked
    exact ⟨.inr rfl, apply_fits (single (TypeContext.isVoid_of_isReference isReference))
      (leaves_instr rfl (by
        simp [Instr.depthAfter?, Instr.effect?, Instr.targets, Instr.fallsThrough]))⟩
  case throw =>
    obtain ⟨value, found, -, isException, checked⟩ := checked
    cases checked
    exact ⟨resultTypes _ List.mem_cons_self,
      apply_fits (single (TypeContext.isVoid_of_isAssignable isException rfl)) (.inl ⟨rfl, rfl⟩)⟩

theorem binaryCore_fits {form : BinaryForm} {left right : Checked Core}
    (checked : context.binaryCore form left right = .ok core)
    (isResult : ∀ value, left = .ok value → value.type.IsResult) :
    core.type.IsResult ∧ core.Fits context.symbols.Returns := by
  have single {value : Core} (isValue : value.type.isVoid = false) :
      ∀ part ∈ [value], part.type.isVoid = false := List.forall_mem_singleton.mpr isValue
  have pair {first second : Core} (isFirst : first.type.isVoid = false)
      (isSecond : second.type.isVoid = false) : ∀ part ∈ [first, second], part.type.isVoid = false :=
    List.forall_mem_cons.mpr ⟨isFirst, single isSecond⟩
  cases form
  all_goals simp only [TypeContext.binaryCore, bind_eq_ok, TypeContext.expectReceiver_eq_ok,
    TypeContext.expectExact_eq_ok, TypeContext.expectMemory_eq_ok, elementType_eq_ok] at checked
  case op =>
    obtain ⟨first, -, second, -, ⟨type, action⟩, meaning, same⟩ := checked
    cases same
    obtain ⟨isLeft, isRight, free, leaves⟩ := Operators.binary_leaves meaning
    refine ⟨.inr free, apply_fits (pair isLeft isRight) ?_⟩
    rwa [Ty.weight_of_isVoidFree free]
  case arrayRef =>
    obtain ⟨array, found, element, isArray, index, -, -, isIndex, same⟩ := checked
    cases same
    have free : (Ty.array element).isVoidFree = true := by
      rw [← isArray]
      exact (isResult array found).isVoidFree (by rw [isArray]; rfl)
    exact ⟨.inr free, apply_fits (pair (by rw [isArray]; rfl) (by rw [isIndex]; rfl))
      (@leaves_onType element free _ _ _ rfl)⟩
  case setField =>
    obtain ⟨receiver, found, -, isValue, checked⟩ := checked
    exact storeField_fits voidFree ((isResult receiver found).isVoidFree isValue) checked rfl
      (single isValue)
  case setProperty =>
    obtain ⟨receiver, found, -, isValue, checked⟩ := checked
    exact storeProperty_fits voidFree checked rfl (single isValue)
  case poke =>
    obtain ⟨address, -, -, isAddress, value, -, checked⟩ := checked
    split at checked
    · rename_i prim isPrim
      cases checked
      refine ⟨.inl rfl,
        apply_fits (pair (Ty.isVoid_prim? isAddress).1 (Ty.isVoid_prim? isPrim).1) (.inr ?_)⟩
      simp [Ty.weight, Ty.isVoid, Ty.void, Instr.depthAfter?, Instr.effect?, Instr.targets,
        Instr.fallsThrough]
    · exact (throw_ne_ok.mp checked).elim

omit voidFree in
theorem ternaryCore_fits {form : TernaryForm} {first second third : Checked Core}
    (checked : context.ternaryCore form first second third = .ok core)
    (isResult : ∀ value, first = .ok value → value.type.IsResult) :
    core.type.IsResult ∧ core.Fits context.symbols.Returns := by
  have triple {one two three : Core} (isOne : one.type.isVoid = false)
      (isTwo : two.type.isVoid = false) (isThree : three.type.isVoid = false) :
      ∀ part ∈ [one, two, three], part.type.isVoid = false := by
    simp [isOne, isTwo, isThree]
  cases form
  all_goals simp only [TypeContext.ternaryCore, bind_eq_ok, pure_eq_ok,
    TypeContext.expectExact_eq_ok, TypeContext.expectMemory_eq_ok, elementType_eq_ok,
    TypeContext.expectAssignable_eq_ok] at checked
  case arraySet =>
    obtain ⟨array, found, element, isArray, index, -, -, isIndex, value, -, -, assignable, rfl⟩ :=
      checked
    have free : (Ty.array element).isVoidFree = true := by
      rw [← isArray]
      exact (isResult array found).isVoidFree (by rw [isArray]; rfl)
    have isValue := TypeContext.isVoid_of_isAssignable assignable
      (@Ty.isVoid_eq_false _ element free)
    exact ⟨.inl rfl,
      apply_fits (triple (by rw [isArray]; rfl) (by rw [isIndex]; rfl) isValue) rfl⟩
  all_goals
    obtain ⟨target, -, -, isTarget, source, -, -, isSource, count, -, -, isCount, rfl⟩ := checked
    refine ⟨.inl rfl, apply_fits (triple (Ty.isVoid_prim? isTarget).1
      (Ty.isVoid_prim? isSource).1 (Ty.isVoid_prim? isCount).1) (.inr ?_)⟩
    simp [Ty.weight, Ty.isVoid, Ty.void, Instr.depthAfter?, Instr.effect?, Instr.targets,
      Instr.fallsThrough]

/-- A node that acts on operands fits, if the types of the operands do not mention `Void`
other than as results. -/
theorem operation_fits {scope : Scope SourceTy} {expr : Expr} (operation : expr.isOperation = true)
    (checked : Checks context scope expr core) (own : expr.VoidOnlyReturned)
    (isResult : ∀ child ∈ expr.children, ∀ part, Checks context scope child part →
      part.type.IsResult) :
    core.type.IsResult ∧ core.Fits context.symbols.Returns := by
  cases expr with
  | unary form operand =>
      exact unaryCore_fits voidFree checked own.values own.results
        fun value found => isResult operand (by simp [children]) value found
  | binary form left right =>
      exact binaryCore_fits voidFree checked
        fun value found => isResult left (by simp [children]) value found
  | ternary form first second third =>
      exact ternaryCore_fits checked
        fun value found => isResult first (by simp [children]) value found
  | staticField owner name =>
      exact loadField_fits voidFree (own.values _ List.mem_cons_self) checked rfl
        (List.forall_mem_nil _)
  | staticProperty owner name =>
      exact loadProperty_fits voidFree checked rfl (List.forall_mem_nil _)
  | staticCall owner name args =>
      simp only [Checks, elaborate, bind_eq_ok] at checked
      obtain ⟨operands, -, checked⟩ := checked
      exact callMethod_fits voidFree (own.values _ List.mem_cons_self) checked rfl
        (List.forall_mem_nil _)
  | call receiver name args =>
      simp only [Checks, elaborate, bind_eq_ok, TypeContext.expectReceiver_eq_ok] at checked
      obtain ⟨first, found, -, isValue, operands, -, checked⟩ := checked
      have free := (isResult receiver (by simp [children]) first found).isVoidFree isValue
      exact callMethod_fits voidFree free checked rfl (List.forall_mem_singleton.mpr isValue)
  | new type args =>
      simp only [Checks, elaborate, bind_eq_ok, pure_eq_ok] at checked
      obtain ⟨-, -, operands, -, ctor, selected, rfl⟩ := checked
      have free := own.values type List.mem_cons_self
      have params := voidFree.ctorCandidates free (TypeContext.mem_of_select selected)
      refine ⟨.inr free, member_fits (fun part isPart => ?_) ⟨?_, Ty.weight_of_isVoidFree free⟩⟩
      · exact TypeContext.isVoid_of_select selected params _ (List.mem_map_of_mem isPart)
      · rw [(TypeContext.select_takes selected).1, List.length_map]
  | _ => simp [isOperation] at operation

end

end Expr

/-! ## Accepted expressions -/

theorem Core.isResult_lastType {items : List Core}
    (each : ∀ item ∈ items, item.type.IsResult) : (Core.lastType items).IsResult := by
  induction items with
  | nil => exact .inl rfl
  | cons item items ih =>
      cases items with
      | nil => exact each item List.mem_cons_self
      | cons next items => exact ih (List.forall_mem_cons.mp each).2

/-- An accepted node fits, and its type is one of results, once the types of its parts are. -/
theorem Expr.Checks.fits {context : TypeContext} {expr : Expr} {core : Core}
    (checked : expr.Checks context types core) (voidFree : context.VoidFree)
    (scope : ∀ name type, types.get? name = some type → type.isVoidFree = true)
    (own : expr.VoidOnlyReturned) (binders : ∀ binder ∈ core.binders, binder.type.isVoid = false)
    (parts : ∀ part ∈ core.parts, part.type.IsResult) :
    core.type.IsResult ∧ core.Fits context.symbols.Returns := by
  -- The values of clauses with declared types.
  have ofTyped : ∀ {scope uses clauses cores},
      List.Forall₂ (ChecksTyped context scope uses) clauses cores →
      (∀ clause ∈ clauses, clause.1.type.isVoidFree = true) →
      ∀ part ∈ cores.map Prod.snd, part.type.isVoid = false := by
    intro scope uses clauses cores typed declared part isPart
    obtain ⟨core, isCore, rfl⟩ := List.mem_map.mp isPart
    obtain ⟨clause, isClause, holds⟩ := exists_related_left typed isCore
    exact TypeContext.isVoid_of_isAssignable holds.assignable
      (Ty.isVoid_eq_false (declared clause isClause))
  have ofHandlers : ∀ {type catches cores},
      List.Forall₂ (ChecksHandler context types type) catches cores →
      ∀ part ∈ cores.map Prod.snd, part.type = type := by
    intro type catches cores handlers part isPart
    obtain ⟨handler, isHandler, rfl⟩ := List.mem_map.mp isPart
    obtain ⟨source, -, holds⟩ := exists_related_left handlers isHandler
    exact holds.typed
  have isTruth : ∀ {test : Core}, test.type = .bool →
      ∀ part ∈ [test], part.type.isVoid = false := by
    intro test truth part isPart
    rw [List.mem_singleton.mp isPart, truth]
    rfl
  cases checked.elaborates with
  | literal value =>
      have isFree : value.type.isVoidFree = true := by
        cases value with
        | null type => exact own.values type List.mem_cons_self
        | _ => rfl
      exact ⟨.inr isFree, List.forall_mem_nil _, List.forall_mem_nil _, Ty.isVoid_eq_false isFree⟩
  | var bound =>
      have isFree := scope _ _ bound
      exact ⟨.inr isFree, List.forall_mem_nil _, List.forall_mem_nil _, Ty.isVoid_eq_false isFree⟩
  | set bound _ assignable =>
      refine ⟨.inl rfl, fun part isPart => ?_, List.forall_mem_nil _, trivial⟩
      rw [List.mem_singleton.mp isPart]
      exact TypeContext.isVoid_of_isAssignable assignable (Ty.isVoid_eq_false (scope _ _ bound))
  | seq =>
      exact ⟨Core.isResult_lastType parts, List.forall_mem_nil _, List.forall_mem_nil _, trivial⟩
  | logic truths =>
      refine ⟨.inr rfl, fun part isPart => ?_, List.forall_mem_nil _, trivial⟩
      obtain ⟨item, -, -, truth⟩ := exists_related_left truths isPart
      exact isTruth truth part (List.mem_singleton_self part)
  | @when _ _ _ bodyCore _ truth _ noValue =>
      have isVoid : bodyCore.type.isVoid = true := by
        rw [noValue]
        rfl
      exact ⟨.inl isVoid, isTruth truth, List.forall_mem_nil _, isVoid⟩
  | @cond _ _ _ _ yesCore noCore _ truth _ _ same =>
      refine ⟨parts yesCore (by simp [Core.parts, Core.inPlace]), isTruth truth, ?_, trivial⟩
      intro part isPart
      rw [List.mem_singleton.mp isPart, same]
      rfl
  | «while» _ truth => exact ⟨.inl rfl, isTruth truth, List.forall_mem_nil _, trivial⟩
  | @switch _ _ _ _ defaultCore _ _ _ fits _ arms =>
      refine ⟨parts defaultCore (by simp [Core.parts, Core.inPlace]), fun part isPart => ?_,
        fun part isPart => ?_, trivial⟩
      · rw [List.mem_singleton.mp isPart]
        exact TypeContext.isVoid_of_expectSelector fits
      · obtain ⟨arm, isArm, rfl⟩ := List.mem_map.mp isPart
        obtain ⟨source, -, holds⟩ := exists_related_left arms isArm
        exact holds.typed
  | @letPar _ _ _ bodyCore named =>
      refine ⟨parts bodyCore (by simp [Core.parts]), fun part isPart => ?_,
        List.forall_mem_nil _, trivial⟩
      obtain ⟨clause, isClause, rfl⟩ := List.mem_map.mp isPart
      obtain ⟨source, -, holds⟩ := exists_related_left named isClause
      have isValue := binders clause.1 (List.mem_map_of_mem isClause)
      rwa [holds.binder] at isValue
  | @letSeq _ _ _ bodyCore _ inTurn =>
      refine ⟨parts bodyCore (by simp [Core.parts]), fun part isPart => ?_,
        List.forall_mem_nil _, trivial⟩
      obtain ⟨clause, isClause, rfl⟩ := List.mem_map.mp isPart
      rw [← inTurn.type_eq clause isClause]
      exact binders clause.1 (List.mem_map_of_mem isClause)
  | @letRec clauses _ _ bodyCore _ _ typed =>
      have declared : ∀ clause ∈ clauses, clause.1.type.isVoidFree = true := fun clause isClause =>
        own.values _ (List.mem_map_of_mem (f := fun clause => clause.1.type) isClause)
      exact ⟨parts bodyCore (by simp [Core.parts]), ofTyped typed declared,
        List.forall_mem_nil _, trivial⟩
  | @loop _ _ vars _ _ _ _ _ _ typed named _ assignable =>
      have declared : ∀ clause ∈ vars, clause.1.type.isVoidFree = true := fun clause isClause =>
        own.values _ (List.mem_map_of_mem (f := fun clause => clause.1.type) isClause)
      have isResult := own.results _ List.mem_cons_self
      refine ⟨isResult, ofTyped typed declared, List.forall_mem_nil _, by rw [named]; rfl, ?_,
        fun isValue => ?_⟩
      swap
      · refine TypeContext.isVoid_of_isAssignable (assignable.resolve_left ?_) isValue
        simp [isValue]
      rw [named]
      refine Ty.isVoidFree_delegate (fun param isParam => ?_) isResult
      obtain ⟨var, isVar, rfl⟩ := List.mem_map.mp isParam
      obtain ⟨clause, isClause, holds⟩ := exists_related_left typed isVar
      rw [holds.binder]
      exact declared clause isClause
  | @lambda _ params _ bodyCore =>
      refine ⟨.inr (Ty.isVoidFree_delegate (fun type isType => ?_)
        (parts bodyCore List.mem_cons_self)), List.forall_mem_nil _, List.forall_mem_nil _, trivial⟩
      rw [List.map_map] at isType
      exact own.values type isType
  | @invoke _ _ functionCore _ _ _ _ signature _ assignable =>
      have isValue : functionCore.type.isVoid = false := by
        by_contra notValue
        have isVoid : functionCore.type = .void := Ty.eq_void (by simpa using notValue)
        rw [isVoid] at signature
        cases signature
      have functionFree := (parts functionCore List.mem_cons_self).isVoidFree isValue
      obtain ⟨paramsFree, isResult⟩ := Ty.isResult_of_signature? functionFree signature
      refine ⟨isResult, fun part isPart => ?_, List.forall_mem_nil _, _, signature, functionFree,
        assignable.length_eq.symm⟩
      rcases List.mem_cons.mp isPart with rfl | isArg
      · exact isValue
      · obtain ⟨param, isParam, fits⟩ := exists_related_right assignable isArg
        exact TypeContext.isVoid_of_isAssignable fits
          (Ty.isVoid_eq_false (paramsFree param isParam))
  | operation isOperation whole operands acts =>
      refine operation_fits voidFree isOperation whole own fun child isChild part isPart => ?_
      obtain ⟨operand, isOperand, found⟩ := exists_related_right operands isChild
      obtain rfl : operand = part := Except.ok.inj (found.symm.trans isPart)
      refine parts operand ?_
      cases acts <;> exact isOperand
  | @tryCatch _ _ _ bodyCore _ _ _ handlers =>
      exact ⟨parts bodyCore List.mem_cons_self, List.forall_mem_nil _, ofHandlers handlers, trivial⟩
  | @tryFinally _ _ _ _ bodyCore _ _ _ _ handlers =>
      exact ⟨parts bodyCore List.mem_cons_self, List.forall_mem_nil _, ofHandlers handlers, trivial⟩
  | @pin _ _ _ _ bodyCore _ arrays =>
      refine ⟨parts bodyCore (by simp [Core.parts]), fun part isPart => ?_,
        List.forall_mem_nil _, trivial⟩
      obtain ⟨array, isArray, rfl⟩ := List.mem_map.mp isPart
      obtain ⟨source, -, holds⟩ := exists_related_left arrays isArray
      obtain ⟨prim, isPrim, -⟩ := (Option.any_eq_true _ _).mp holds.pinnable
      obtain ⟨element, isElement, -⟩ := Option.bind_eq_some_iff.mp isPrim
      cases isType : array.2.type with
      | array => rfl
      | _ =>
          rw [isType] at isElement
          cases isElement

/-! ## Going down -/

/-- What is found in a scope was there before or has come into it. -/
theorem Scope.exists_of_get?_declare {bounds : List Bound} {name : Name} {type : SourceTy}
    (found : (types.declare bounds).get? name = some type) :
    types.get? name = some type ∨ ∃ bound ∈ bounds, bound.type = type := by
  induction bounds generalizing types with
  | nil => exact .inl found
  | cons bound bounds ih =>
      rw [Scope.declare_cons] at found
      rcases ih found with inner | ⟨other, member, same⟩
      · rw [Scope.get?_bind] at inner
        split at inner
        · exact .inr ⟨bound, List.mem_cons_self, Option.some.inj inner⟩
        · exact .inl inner
      · exact .inr ⟨other, List.mem_cons_of_mem _ member, same⟩

theorem Expr.getElem?_seqBounds {body : Usage} {clauses : List (Name × Expr)}
    {cores : List (Binder × Core)} {index : Nat} {bound : Bound}
    (found : (seqBounds body clauses cores)[index]? = some bound) :
    ∃ clause core, clauses[index]? = some clause ∧ cores[index]? = some core ∧
      bound.type = core.2.type := by
  induction clauses generalizing cores index with
  | nil => simp [seqBounds] at found
  | cons clause clauses ih =>
      cases cores with
      | nil => simp [seqBounds] at found
      | cons core cores =>
          cases index with
          | zero =>
              cases found
              exact ⟨clause, core, rfl, rfl, rfl⟩
          | succ index => exact ih (by simpa [seqBounds] using found)

namespace Checkpoint

/-- The types in scope are types of values, and the expression and its checked form mention
`Void` only for results. -/
structure VoidFree (point : Checkpoint) : Prop where
  scope : ∀ name type, point.types.get? name = some type → type.isVoidFree = true
  source : ∀ node ∈ point.expr.preorder, node.VoidOnlyReturned
  binders : point.core.BindsValues

variable {context : TypeContext} {point inner : Checkpoint}
variable {position : Position} {bounds : List Bound} {child : Expr} {part : Core}

theorem VoidFree.own (free : point.VoidFree) : point.expr.VoidOnlyReturned :=
  free.source _ (by rw [Expr.preorder_eq_cons]; exact List.mem_cons_self)

theorem VoidFree.ownBinders (free : point.VoidFree) :
    ∀ binder ∈ point.core.binders, binder.type.isVoid = false :=
  free.binders _ point.core.mem_preorder_self

/-- A part is void-free in a scope that only types of values have come into. -/
theorem VoidFree.declare (free : point.VoidFree)
    (step : Descends position bounds point.expr point.core child part)
    (values : ∀ bound ∈ bounds, bound.type.isVoidFree = true) :
    VoidFree ⟨point.types.declare bounds, child, part⟩ where
  scope name type found := by
    rcases Scope.exists_of_get?_declare found with outer | ⟨bound, isBound, rfl⟩
    · exact free.scope name type outer
    · exact values bound isBound
  source node isNode := by
    refine free.source node ?_
    rw [Expr.preorder_eq_cons]
    exact List.mem_cons_of_mem _ (List.mem_flatMap.mpr ⟨child, step.mem_children, isNode⟩)
  binders node isNode := free.binders node (step.preorder_subset isNode)

/-- The names that come into scope stand for values, if the parts that see only names of
values have results. -/
theorem VoidFree.ofBounds (free : point.VoidFree) (accepted : point.Accepted context)
    (isResult : ∀ inner, point.Enters inner → inner.VoidFree → inner.core.type.IsResult)
    (step : Descends position bounds point.expr point.core child part) :
    ∀ bound ∈ bounds, bound.type.isVoidFree = true := by
  have own := free.own
  have ownBinders := free.ownBinders
  have entered : ∀ {position bounds child part},
      Descends position bounds point.expr point.core child part →
      (∀ bound ∈ bounds, bound.type.isVoidFree = true) → part.type.IsResult :=
    fun step values => isResult ⟨point.types.declare _, _, _⟩ ⟨_, _, step, rfl⟩
      (free.declare step values)
  obtain ⟨types, expr, core⟩ := point
  dsimp only at step own ownBinders entered
  -- Each clause of a `let*` sees names of clauses before it only.
  have inTurn : ∀ {clauses body cores bodyCore}, expr = .letSeq clauses body →
      core = .letSeq cores bodyCore →
      ∀ bound ∈ Expr.seqBounds body.usage clauses cores, bound.type.isVoidFree = true := by
    rintro clauses body cores bodyCore rfl rfl
    have typed : ∀ clause ∈ cores, clause.1.type = clause.2.type := by
      cases Expr.Checks.elaborates accepted with
      | letSeq inTurn => exact inTurn.type_eq
      | operation operation => cases operation
    suffices ∀ (index : Nat) bound,
        (Expr.seqBounds body.usage clauses cores)[index]? = some bound →
          bound.type.isVoidFree = true by
      intro bound isBound
      obtain ⟨index, found⟩ := List.mem_iff_getElem?.mp isBound
      exact this index bound found
    intro index
    induction index using Nat.strong_induction_on with
    | _ index ih =>
        intro bound found
        obtain ⟨clause, core, source, target, same⟩ := Expr.getElem?_seqBounds found
        have isCore := List.mem_of_getElem? target
        have isType := entered (.letSeqClause source target) fun earlier isEarlier => by
          obtain ⟨before, isBefore⟩ := List.mem_iff_getElem?.mp isEarlier
          rw [List.getElem?_take] at isBefore
          split at isBefore
          · exact ih before ‹_› earlier isBefore
          · cases isBefore
        rw [same]
        refine isType.isVoidFree ?_
        rw [← typed core isCore]
        exact ownBinders core.1 (List.mem_map_of_mem isCore)
  cases step with
  | own | tryCatch | tryFinally | final => nofun
  | @letPar _ _ cores =>
      intro bound isBound
      obtain ⟨core, isCore, rfl⟩ := List.mem_map.mp isBound
      cases Expr.Checks.elaborates accepted with
      | letPar named =>
          obtain ⟨clause, -, holds⟩ := exists_related_left named isCore
          have isInit : core.2 ∈ (Core.letPar cores part).inPlace := List.mem_map_of_mem isCore
          obtain ⟨source, paired⟩ :=
            exists_mem_zip (Expr.Checks.inPlace accepted).length_eq isInit
          have isValue := ownBinders core.1 (List.mem_map_of_mem isCore)
          have isType := entered (.own paired) nofun
          have typed : core.1.type = core.2.type := by rw [holds.binder]; rfl
          rw [typed] at isValue
          exact typed ▸ isType.isVoidFree isValue
      | operation operation => cases operation
  | letSeqClause => exact fun bound isBound => inTurn rfl rfl bound (List.mem_of_mem_take isBound)
  | letSeq => exact inTurn rfl rfl
  | letRecClause | letRec =>
      intro bound isBound
      obtain ⟨clause, isClause, rfl⟩ := List.mem_map.mp isBound
      exact own.values _ (List.mem_map_of_mem (f := fun clause => clause.1.type) isClause)
  | @loop _ _ _ _ _ _ vars =>
      cases Expr.Checks.elaborates accepted with
      | loop typed named =>
          have varsFree : ∀ var ∈ vars, var.1.type.isVoidFree = true := by
            intro var isVar
            obtain ⟨clause, isClause, holds⟩ := exists_related_left typed isVar
            rw [holds.binder]
            exact own.values _ (List.mem_map_of_mem (f := fun clause => clause.1.type) isClause)
          intro bound isBound
          rcases List.mem_cons.mp isBound with rfl | listed
          · rw [named]
            refine Ty.isVoidFree_delegate (fun param isParam => ?_)
              (own.results _ List.mem_cons_self)
            obtain ⟨var, isVar, rfl⟩ := List.mem_map.mp isParam
            exact varsFree var isVar
          · obtain ⟨var, isVar, rfl⟩ := List.mem_map.mp listed
            exact varsFree var isVar
      | operation operation => cases operation
  | lambda =>
      intro bound isBound
      obtain ⟨param, isParam, rfl⟩ := List.mem_map.mp isBound
      exact own.values _ (List.mem_map_of_mem isParam)
  | tryCatchHandler source | tryFinallyHandler source =>
      intro bound isBound
      rw [List.mem_singleton.mp isBound]
      exact own.values _ (List.mem_map_of_mem (f := fun handler => handler.1.type)
        (List.mem_of_getElem? source))
  | pin =>
      intro bound isBound
      obtain ⟨array, -, rfl⟩ := List.mem_map.mp isBound
      rfl

/-- Every accepted void-free expression has a type of results. -/
theorem VoidFree.isResult (voidFree : context.VoidFree) (free : point.VoidFree)
    (accepted : point.Accepted context) : point.core.type.IsResult := by
  obtain ⟨types, expr, core⟩ := point
  induction expr using Expr.childInduction generalizing types core with
  | step expr ih =>
      have below : ∀ inner, Enters ⟨types, expr, core⟩ inner → inner.VoidFree →
          inner.core.type.IsResult := by
        intro inner step innerFree
        have isChild : inner.expr ∈ expr.children := by
          obtain ⟨_, _, down, -⟩ := step
          exact down.mem_children
        exact ih inner.expr isChild inner.types inner.core innerFree (step.accepted accepted)
      refine (Expr.Checks.fits accepted voidFree free.scope free.own free.ownBinders ?_).1
      intro part isPart
      obtain ⟨inner, step, rfl⟩ := accepted.exists_enters isPart
      refine below inner step ?_
      obtain ⟨position, bounds, down, scope⟩ := step
      have declared := free.declare down (free.ofBounds accepted below down)
      rw [← scope] at declared
      exact declared

theorem VoidFree.enters (free : point.VoidFree) (voidFree : context.VoidFree)
    (accepted : point.Accepted context) (step : point.Enters inner) : inner.VoidFree := by
  obtain ⟨position, bounds, down, scope⟩ := step
  have below : ∀ inner, point.Enters inner → inner.VoidFree → inner.core.type.IsResult :=
    fun inner step innerFree => innerFree.isResult voidFree (step.accepted accepted)
  have declared := free.declare down (free.ofBounds accepted below down)
  rw [← scope] at declared
  exact declared

theorem VoidFree.reaches (free : point.VoidFree) (voidFree : context.VoidFree)
    (accepted : point.Accepted context) (reaches : point.Reaches inner) : inner.VoidFree := by
  induction reaches with
  | refl => exact free
  | tail before step ih => exact ih.enters voidFree (Reaches.accepted before accepted) step

/-- Every node of an accepted void-free expression fits. -/
theorem VoidFree.fits (free : point.VoidFree) (voidFree : context.VoidFree)
    (accepted : point.Accepted context) {node : Core} (isNode : node ∈ point.core.preorder) :
    node.Fits context.symbols.Returns := by
  obtain ⟨inner, reaches, rfl⟩ := accepted.exists_reaches isNode
  have innerFree := free.reaches voidFree accepted reaches
  have innerAccepted := reaches.accepted accepted
  refine (Expr.Checks.fits innerAccepted voidFree innerFree.scope innerFree.own
    innerFree.ownBinders fun part isPart => ?_).2
  obtain ⟨further, step, rfl⟩ := innerAccepted.exists_enters isPart
  exact (innerFree.enters voidFree innerAccepted step).isResult voidFree
    (step.accepted innerAccepted)

end Checkpoint

end ClassForge
