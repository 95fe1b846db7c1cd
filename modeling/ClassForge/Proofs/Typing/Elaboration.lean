import ClassForge.Proofs.Outcome
import ClassForge.Proofs.Usage.FreeVariables
import ClassForge.Typing.Program

/-!
# What a checked expression looks like

`Expr.Checks` says that an expression is accepted in a scope as a checked
expression.  `Expr.Elaborates` has one constructor for each kind of node and
lists what was required of the parts; every accepted expression is an instance
of one of them.  The parts of a checked expression are checked in turn, so every
node of a checked tree comes from an expression that was checked in some scope.
-/

namespace ClassForge

variable {site : Site} {params : List SourceTy}

theorem Scope.lookup_eq_ok {α : Type} {scope : Scope α} {name : Name} {value : α} :
    scope.lookup name = .ok value ↔ scope.get? name = some value := by
  unfold Scope.lookup
  cases scope.get? name <;> simp

@[simp]
theorem Binder.of_name (uses : Usage) (name : Name) (type : SourceTy) :
    (Binder.of uses name type).name = name :=
  rfl

@[simp]
theorem Binder.of_type (uses : Usage) (name : Name) (type : SourceTy) :
    (Binder.of uses name type).type = type :=
  rfl

@[simp]
theorem Binder.of_captured (uses : Usage) (name : Name) (type : SourceTy) :
    (Binder.of uses name type).captured = uses.isCaptured name :=
  rfl

/-! ## Requirements -/

namespace TypeContext

variable {context : TypeContext}
variable {done : Unit}
variable {found : Core}

theorem expectExact_eq_ok {expected : SourceTy} :
    expectExact site expected found = .ok done ↔ found.type = expected := by
  unfold expectExact
  split <;> simp_all

theorem expectAssignable_eq_ok {goal : SourceTy} :
    context.expectAssignable site goal found = .ok done ↔
      context.isAssignable found.type goal = true := by
  unfold expectAssignable
  split <;> simp_all

theorem expectResult_eq_ok {ret : SourceTy} :
    context.expectResult site ret found = .ok done ↔
      ret.isVoid = true ∨ context.isAssignable found.type ret = true := by
  unfold expectResult
  split
  · simp_all
  · rw [expectAssignable_eq_ok]
    simp_all

theorem expectException_eq_ok {type : SourceTy} :
    context.expectException type = .ok done ↔
      context.isAssignable type .exception = true := by
  unfold expectException
  split <;> simp_all

theorem expectPinnable_eq_ok {array : Core} :
    expectPinnable array = .ok done ↔
      (array.type.element?.bind Ty.prim?).any Prim.isPinnable = true := by
  unfold expectPinnable
  split <;> simp_all

theorem expectDelegate_eq_ok {function : Core} {count : Nat} {ret : SourceTy} :
    expectDelegate function count = .ok (params, ret) ↔
      function.type.signature? = some (params, ret) ∧ params.length = count := by
  unfold expectDelegate
  cases function.type.signature? with
  | none => simp
  | some signature =>
      obtain ⟨found, result⟩ := signature
      dsimp only
      split <;> grind

end TypeContext

namespace Expr

variable {context : TypeContext} {scope : Scope SourceTy}
variable {cores : List (Binder × Core)}
variable {clauses : List (Name × Expr)} {body : Usage}

/-- An expression is accepted in a scope as a checked expression. -/
def Checks (context : TypeContext) (scope : Scope SourceTy) (expr : Expr)
    (core : Core) : Prop :=
  expr.elaborate context scope = .ok core

/-- A captured variable has the type that its name has in a scope. -/
structure Crosses (scope : Scope SourceTy) (name : Name) (capture : Param) : Prop where
  bound : scope.get? name = some capture.type
  named : capture.name = name

/-- An arm of a `switch` of a type. -/
structure ChecksArm (context : TypeContext) (scope : Scope SourceTy)
    (type : SourceTy) (arm : List UInt32 × Expr) (core : List UInt32 × Core) :
    Prop where
  labels : core.1 = arm.1
  checked : Checks context scope arm.2 core.2
  typed : core.2.type = type

/-- A clause that binds its name to the value of its initializer, marked as the
scope of the name says. -/
structure ChecksNamed (context : TypeContext) (scope : Scope SourceTy)
    (uses : Usage) (clause : Name × Expr) (core : Binder × Core) : Prop where
  binder : core.1 = Binder.of uses clause.1 core.2.type
  checked : Checks context scope clause.2 core.2

/-- A clause with a declared type, marked as the scope of its name says. -/
structure ChecksTyped (context : TypeContext) (scope : Scope SourceTy)
    (uses : Usage) (clause : Param × Expr) (core : Binder × Core) : Prop where
  binder : core.1 = Binder.of uses clause.1.name clause.1.type
  checked : Checks context scope clause.2 core.2
  assignable : context.isAssignable core.2.type clause.1.type = true

/-- A handler of a `try` of a type.  It binds the exception if it mentions it. -/
structure ChecksHandler (context : TypeContext) (scope : Scope SourceTy)
    (type : SourceTy) (handler : Param × Expr) (core : CatchBinder × Core) : Prop where
  binder : core.1 = ⟨handler.1.type,
    (handler.2.usage.get? handler.1.name).map fun _ =>
      Binder.of handler.2.usage handler.1.name handler.1.type⟩
  checked : Checks context (scope.bind handler.1.name handler.1.type) handler.2 core.2
  exception : context.isAssignable handler.1.type .exception = true
  typed : core.2.type = type

/-- An array of a `pin`, whose name is bound to a pointer. -/
structure ChecksArray (context : TypeContext) (scope : Scope SourceTy)
    (uses : Usage) (array : Name × Expr) (core : Binder × Core) : Prop where
  binder : core.1 = Binder.of uses array.1 .intPtr
  checked : Checks context scope array.2 core.2
  pinnable : (core.2.type.element?.bind Ty.prim?).any Prim.isPinnable = true

/-! ## Lists of parts -/

/-- The captured variables are the crossing names with the types that they have
outside. -/
theorem captureTypes_eq_ok {crossing : Usage} {captures : List Param} :
    TypeContext.captureTypes scope crossing = .ok captures ↔
      List.Forall₂ (Crosses scope) crossing.names captures := by
  unfold TypeContext.captureTypes
  induction crossing.names generalizing captures with
  | nil => exact ok_nil_iff
  | cons name names ih =>
      simp only [List.mapM_cons, bind_eq_ok, pure_eq_ok, Scope.lookup_eq_ok, ih,
        List.forall₂_cons_left_iff]
      constructor
      · rintro ⟨capture, ⟨type, found, rfl⟩, rest, all, rfl⟩
        exact ⟨_, rest, ⟨found, rfl⟩, all, rfl⟩
      · rintro ⟨⟨_, type⟩, rest, ⟨found, rfl⟩, all, rfl⟩
        exact ⟨_, ⟨type, found, rfl⟩, rest, all, rfl⟩

theorem elaborateAll_eq_ok {items : List Expr} {cores : List Core} :
    elaborateAll context items scope = .ok cores ↔
      List.Forall₂ (Checks context scope) items cores := by
  induction items generalizing cores with
  | nil => exact ok_nil_iff
  | cons item items ih =>
      simp only [elaborateAll, bind_eq_ok, pure_eq_ok, ih,
        List.forall₂_cons_left_iff, Checks]
      grind

theorem elaborateTruths_eq_ok {items : List Expr} {cores : List Core} :
    elaborateTruths context items scope = .ok cores ↔
      List.Forall₂ (fun item core => Checks context scope item core ∧ core.type = .bool)
        items cores := by
  induction items generalizing cores with
  | nil => exact ok_nil_iff
  | cons item items ih =>
      simp only [elaborateTruths, bind_eq_ok, pure_eq_ok, ih,
        TypeContext.expectExact_eq_ok, List.forall₂_cons_left_iff, Checks]
      grind

/-- Arguments are checked against as many parameters. -/
theorem elaborateArgs_eq_ok {args : List Expr} {cores : List Core}
    (count : params.length = args.length) :
    elaborateArgs context args params scope = .ok cores ↔
      List.Forall₂ (Checks context scope) args cores ∧
        List.Forall₂ (fun (core : Core) param =>
          context.isAssignable core.type param = true) cores params := by
  induction args generalizing params cores with
  | nil =>
      obtain rfl : params = [] := List.length_eq_zero_iff.mp count
      constructor
      · rintro ⟨⟩
        exact ⟨.nil, .nil⟩
      · rintro ⟨⟨⟩, -⟩
        rfl
  | cons arg args ih =>
      cases params with
      | nil => simp at count
      | cons param params =>
          have rest : params.length = args.length := by simpa using count
          simp only [elaborateArgs, bind_eq_ok, pure_eq_ok,
            TypeContext.expectAssignable_eq_ok, ih rest]
          constructor
          · rintro ⟨core, checked, -, assignable, cores, ⟨all, fitting⟩, rfl⟩
            exact ⟨.cons checked all, .cons assignable fitting⟩
          · rintro ⟨all, fitting⟩
            cases all with
            | cons checked all =>
                cases fitting with
                | cons assignable fitting =>
                    exact ⟨_, checked, (), assignable, _, ⟨all, fitting⟩, rfl⟩

theorem elaborateArms_eq_ok {arms : List (List UInt32 × Expr)} {type : SourceTy}
    {cores : List (List UInt32 × Core)} :
    elaborateArms context arms type scope = .ok cores ↔
      List.Forall₂ (ChecksArm context scope type) arms cores := by
  induction arms generalizing cores with
  | nil => exact ok_nil_iff
  | cons arm arms ih =>
      obtain ⟨labels, arm⟩ := arm
      simp only [elaborateArms, bind_eq_ok, pure_eq_ok, ih,
        TypeContext.expectExact_eq_ok, List.forall₂_cons_left_iff]
      constructor
      · rintro ⟨core, checked, -, typed, cores, all, rfl⟩
        exact ⟨(labels, core), cores, ⟨rfl, checked, typed⟩, all, rfl⟩
      · rintro ⟨⟨_, core⟩, cores, ⟨rfl, checked, typed⟩, all, rfl⟩
        exact ⟨core, checked, (), typed, cores, all, rfl⟩

/-- A clause becomes a binding of its name, marked as its scope says. -/
theorem elaborateNamed_eq_ok :
    elaborateNamed context clauses body scope = .ok cores ↔
      List.Forall₂ (ChecksNamed context scope body) clauses cores := by
  induction clauses generalizing cores with
  | nil => exact ok_nil_iff
  | cons clause clauses ih =>
      obtain ⟨name, init⟩ := clause
      simp only [elaborateNamed, bind_eq_ok, pure_eq_ok, ih,
        List.forall₂_cons_left_iff]
      constructor
      · rintro ⟨core, checked, cores, all, rfl⟩
        exact ⟨(_, core), cores, ⟨rfl, checked⟩, all, rfl⟩
      · rintro ⟨⟨binder, core⟩, cores, ⟨marked, checked⟩, all, rfl⟩
        obtain rfl : binder = Binder.of body name core.type := marked
        exact ⟨core, checked, cores, all, rfl⟩

theorem elaborateTyped_eq_ok {clauses : List (Param × Expr)} {uses : Usage} :
    elaborateTyped context clauses site uses scope = .ok cores ↔
      List.Forall₂ (ChecksTyped context scope uses) clauses cores := by
  induction clauses generalizing cores with
  | nil => exact ok_nil_iff
  | cons clause clauses ih =>
      obtain ⟨param, init⟩ := clause
      simp only [elaborateTyped, bind_eq_ok, pure_eq_ok, ih,
        TypeContext.expectAssignable_eq_ok, List.forall₂_cons_left_iff]
      constructor
      · rintro ⟨core, checked, -, assignable, cores, all, rfl⟩
        exact ⟨(_, core), cores, ⟨rfl, checked, assignable⟩, all, rfl⟩
      · rintro ⟨⟨_, core⟩, cores, ⟨rfl, checked, assignable⟩, all, rfl⟩
        exact ⟨core, checked, (), assignable, cores, all, rfl⟩

theorem elaborateCatches_eq_ok {catches : List (Param × Expr)} {type : SourceTy}
    {cores : List (CatchBinder × Core)} :
    elaborateCatches context catches type scope = .ok cores ↔
      List.Forall₂ (ChecksHandler context scope type) catches cores := by
  induction catches generalizing cores with
  | nil => exact ok_nil_iff
  | cons handler catches ih =>
      obtain ⟨param, handler⟩ := handler
      simp only [elaborateCatches, bind_eq_ok, pure_eq_ok, ih,
        TypeContext.expectExact_eq_ok, TypeContext.expectException_eq_ok,
        List.forall₂_cons_left_iff]
      constructor
      · rintro ⟨-, exception, core, checked, -, typed, cores, all, rfl⟩
        exact ⟨(_, core), cores, ⟨rfl, checked, exception, typed⟩, all, rfl⟩
      · rintro ⟨⟨_, core⟩, cores, ⟨rfl, checked, exception, typed⟩, all, rfl⟩
        exact ⟨(), exception, core, checked, (), typed, cores, all, rfl⟩

theorem elaborateArrays_eq_ok {arrays : List (Name × Expr)} :
    elaborateArrays context arrays body scope = .ok cores ↔
      List.Forall₂ (ChecksArray context scope body) arrays cores := by
  induction arrays generalizing cores with
  | nil => exact ok_nil_iff
  | cons array arrays ih =>
      obtain ⟨name, array⟩ := array
      simp only [elaborateArrays, bind_eq_ok, pure_eq_ok, ih,
        TypeContext.expectPinnable_eq_ok, List.forall₂_cons_left_iff]
      constructor
      · rintro ⟨core, checked, -, pinnable, cores, all, rfl⟩
        exact ⟨(_, core), cores, ⟨rfl, checked, pinnable⟩, all, rfl⟩
      · rintro ⟨⟨_, core⟩, cores, ⟨rfl, checked, pinnable⟩, all, rfl⟩
        exact ⟨core, checked, (), pinnable, cores, all, rfl⟩

/-- Clauses of which each is checked in the scope that those before it leave;
the last scope is that of the body. -/
inductive ChecksInTurn (context : TypeContext) (body : Usage) :
    Scope SourceTy → List (Name × Expr) → List (Binder × Core) →
      Scope SourceTy → Prop where
  | nil {scope : Scope SourceTy} : ChecksInTurn context body scope [] [] scope
  | cons {scope inner : Scope SourceTy} {name : Name} {init : Expr} {core : Core}
      {clauses : List (Name × Expr)} {cores : List (Binder × Core)}
      (first : Checks context scope init core)
      (rest : ChecksInTurn context body (scope.bind name core.type) clauses cores
        inner) :
      ChecksInTurn context body scope ((name, init) :: clauses)
        ((Binder.of (Usage.sequential (namedUsages clauses) body) name core.type,
          core) :: cores) inner

theorem elaborateSeq_eq_ok {inner : Scope SourceTy} :
    elaborateSeq context clauses body scope = .ok (cores, inner) ↔
      ChecksInTurn context body scope clauses cores inner := by
  induction clauses generalizing scope cores with
  | nil =>
      constructor
      · rintro ⟨⟩
        exact .nil
      · rintro ⟨⟩
        rfl
  | cons clause clauses ih =>
      obtain ⟨name, init⟩ := clause
      simp only [elaborateSeq, bind_eq_ok, pure_eq_ok, Prod.mk.injEq]
      constructor
      · rintro ⟨core, checked, ⟨rest, last⟩, all, rfl, rfl⟩
        exact .cons checked (ih.mp all)
      · rintro ⟨⟩
        exact ⟨_, ‹_›, (_, _), ih.mpr ‹_›, rfl, rfl⟩

/-! ## Forms that act on operands -/

end Expr

/-- Types that an action needs handles for. -/
def Action.needs : Action → List SourceTy
  | code _ => []
  | routine owner _ params => owner :: params
  | onType _ type => [type]

/-- The declared types that an action needs are mentioned in the type of its node or
of an operand, or by the action itself. -/
def Action.FromParts (action : Action) (type : SourceTy) (operands : List Core) : Prop :=
  ∀ needed ∈ action.needs, ∀ name ∈ needed.mentions,
    ∃ source ∈ type :: (operands.map Core.type ++ action.types), name ∈ source.mentions

/-- How a member use of a node is found.  The owner that the search starts from is the
type of an operand unless the member is static. -/
inductive MemberUse.Found (context : TypeContext) (type : SourceTy) (operands : List Core) :
    MemberUse → Prop where
  | loadField {owner : SourceTy} {name : Name} {isStatic : Bool} {field : FieldTarget} :
      (isStatic = true ∨ ∃ receiver ∈ operands, receiver.type = owner) →
      context.accessField owner name isStatic = .ok field →
      Found context type operands (.loadField field)
  | storeField {owner : SourceTy} {name : Name} {isStatic : Bool} {field : FieldTarget} :
      (isStatic = true ∨ ∃ receiver ∈ operands, receiver.type = owner) →
      context.accessField owner name isStatic = .ok field →
      Found context type operands (.storeField field)
  | getter {owner : SourceTy} {name : Name} {isStatic : Bool} {getter : Callee} :
      (isStatic = true ∨ ∃ receiver ∈ operands, receiver.type = owner) →
      context.accessGetter owner name isStatic = .ok getter →
      Found context type operands (.call getter)
  | setter {owner : SourceTy} {name : Name} {isStatic : Bool} {property : PropertyTarget} :
      (isStatic = true ∨ ∃ receiver ∈ operands, receiver.type = owner) →
      context.accessSetter owner name isStatic = .ok property →
      Found context type operands (.write property.setter)
  | call {owner : SourceTy} {name : Name} {isInstance : Bool} {callee : Callee} :
      (isInstance = false ∨
        ∃ receiver args, operands = receiver :: args ∧ receiver.type = owner) →
      callee ∈ context.methodCandidates owner name isInstance → type = callee.ret →
      Found context type operands (.call callee)
  | new {callee : Callee} :
      callee ∈ context.ctorCandidates type →
      Found context type operands (.new callee)

namespace Operators

variable {context : TypeContext} {left right type : SourceTy} {action : Action}
variable {op : BinaryOp}

theorem needs_arithmetic (meaning : arithmetic? op left right = some (type, action)) :
    ∀ needed ∈ action.needs, needed.mentions = [] := by
  unfold arithmetic? at meaning
  split at meaning
  · cases meaning
    simp [Action.needs, Ty.mentions, Ty.string]
  · split at meaning
    · cases meaning
      simp [Action.needs, Action.instr]
    · obtain ⟨prim, -, same⟩ := Option.bind_eq_some_iff.mp meaning
      cases same
      simp [Action.needs, Action.instr]

theorem needs_bitwise (meaning : bitwise? op left right = some (type, action)) :
    ∀ needed ∈ action.needs, needed.mentions = [] := by
  obtain ⟨prim, -, same⟩ := Option.bind_eq_some_iff.mp meaning
  cases same
  simp [Action.needs, Action.instr]

theorem needs_shift (meaning : shift? op left right = some (type, action)) :
    ∀ needed ∈ action.needs, needed.mentions = [] := by
  obtain ⟨prim, -, same⟩ := Option.bind_eq_some_iff.mp meaning
  split at same
  · cases same
    simp [Action.needs, Action.instr]
  · cases same

/-- The meanings of operators need no types but those of their operands. -/
theorem needs_binary (meaning : Operators.binary context op left right = .ok (type, action)) :
    ∀ needed ∈ action.needs, needed.mentions = [] ∨ needed = left ∨ needed = right := by
  have found := binary?_of_binary meaning
  intro needed isNeeded
  cases op with
  | add | sub | mul | div | rem => exact .inl (needs_arithmetic found needed isNeeded)
  | bitAnd | bitOr | bitXor => exact .inl (needs_bitwise found needed isNeeded)
  | shl | shr => exact .inl (needs_shift found needed isNeeded)
  | eq | ne =>
      simp only [binary?] at found
      split at found
      · cases found
        simp [Action.needs, Action.instr] at isNeeded
      · cases found
  | lt | le | gt | ge =>
      obtain ⟨prim, -, same⟩ := Option.map_eq_some_iff.mp found
      cases same
      simp [Action.needs] at isNeeded
  | pow | atan2 | min | max =>
      obtain ⟨prim, -, same⟩ := Option.map_eq_some_iff.mp found
      cases same
      rcases List.mem_cons.mp isNeeded with rfl | operand
      · exact .inl rfl
      · exact .inr (by simpa using operand)

theorem needs_unary {op : UnaryOp} {operand : SourceTy}
    (meaning : Operators.unary op operand = .ok (type, action)) :
    ∀ needed ∈ action.needs, needed.mentions = [] ∨ needed = operand := by
  have found := unary?_of_unary meaning
  obtain ⟨prim, -, same⟩ := Option.bind_eq_some_iff.mp found
  intro needed isNeeded
  split at same
  · cases same
    cases op with
    | neg | bitNot | not => simp [unaryAction, Action.needs, Action.instr] at isNeeded
    | _ =>
        rcases List.mem_cons.mp isNeeded with rfl | operand
        · exact .inl rfl
        · exact .inr (by simpa using operand)
  · cases same

end Operators

/-- A candidate that is chosen is one of the candidates. -/
theorem TypeContext.mem_of_select {context : TypeContext} {owner : SourceTy} {member : Name}
    {candidates : List Callee} {args : List SourceTy} {callee : Callee}
    (selected : context.select owner member candidates args = .ok callee) :
    callee ∈ candidates := by
  have ofSingleton : ∀ {test other : Callee → Bool},
      ((candidates.filter test).filter other) = [callee] → callee ∈ candidates := by
    intro test other shape
    have kept : callee ∈ (candidates.filter test).filter other := by simp [shape]
    exact List.mem_of_mem_filter (List.mem_of_mem_filter kept)
  unfold select at selected
  split at selected
  · cases selected
  · dsimp only at selected
    split at selected
    · cases selected
    · split at selected
      · rename_i shape
        cases selected
        exact ofSingleton shape
      · cases selected
      · split at selected
        · rename_i shape
          cases selected
          exact ofSingleton shape
        · cases selected
        · split at selected <;> cases selected

namespace Expr

variable {owner : SourceTy} {name : Name} {isStatic : Bool} {receiver : List Core} {core : Core}

/-- The node evaluates some operands and then acts on their values. -/
inductive ActsOn (context : TypeContext) (operands : List Core) : Core → Prop where
  | apply {type : SourceTy} {action : Action} :
      action.FromParts type operands →
      ActsOn context operands (.apply type action operands)
  | member {type : SourceTy} {use : MemberUse} :
      use.Found context type operands →
      ActsOn context operands (.member type use operands)

section

variable (started : isStatic = true ∨ ∃ first ∈ receiver, first.type = owner)
variable {value : Checked Core}
include started

theorem loadField_actsOn (checked : context.loadField owner name isStatic receiver = .ok core) :
    ActsOn context receiver core := by
  simp only [TypeContext.loadField, bind_eq_ok, pure_eq_ok] at checked
  obtain ⟨field, found, rfl⟩ := checked
  exact .member (.loadField started found)

theorem loadProperty_actsOn
    (checked : context.loadProperty owner name isStatic receiver = .ok core) :
    ActsOn context receiver core := by
  simp only [TypeContext.loadProperty, bind_eq_ok, pure_eq_ok] at checked
  obtain ⟨getter, found, rfl⟩ := checked
  exact .member (.getter started found)

theorem storeField_actsOn
    (checked : context.storeField owner name isStatic receiver value = .ok core) :
    ∃ operand, value = .ok operand ∧ ActsOn context (receiver ++ [operand]) core := by
  simp only [TypeContext.storeField, bind_eq_ok, pure_eq_ok] at checked
  obtain ⟨field, found, operand, isValue, -, -, rfl⟩ := checked
  refine ⟨operand, isValue, .member (.storeField (started.imp_right ?_) found)⟩
  exact fun ⟨first, member, same⟩ => ⟨first, List.mem_append_left _ member, same⟩

theorem storeProperty_actsOn
    (checked : context.storeProperty owner name isStatic receiver value = .ok core) :
    ∃ operand, value = .ok operand ∧ ActsOn context (receiver ++ [operand]) core := by
  simp only [TypeContext.storeProperty, bind_eq_ok, pure_eq_ok] at checked
  obtain ⟨property, found, operand, isValue, -, -, rfl⟩ := checked
  refine ⟨operand, isValue, .member (.setter (started.imp_right ?_) found)⟩
  exact fun ⟨first, member, same⟩ => ⟨first, List.mem_append_left _ member, same⟩

end

theorem callMethod_actsOn {args : List Core}
    (started : receiver = [] ∨ ∃ first, receiver = [first] ∧ first.type = owner)
    (checked : context.callMethod owner name receiver args = .ok core) :
    ActsOn context (receiver ++ args) core := by
  simp only [TypeContext.callMethod, bind_eq_ok, pure_eq_ok] at checked
  obtain ⟨callee, selected, rfl⟩ := checked
  refine .member (.call ?_ (TypeContext.mem_of_select selected) rfl)
  rcases started with rfl | ⟨first, rfl, same⟩
  · exact .inl rfl
  · exact .inr ⟨first, args, rfl, same⟩

theorem elementType_eq_ok {array : Core} {element : SourceTy} :
    TypeContext.elementType array = .ok element ↔ array.type = .array element := by
  unfold TypeContext.elementType
  cases array.type <;> simp [Ty.element?]

/-- An action that needs only its node's type or an operand's. -/
theorem fromParts_of_mem {action : Action} {type : SourceTy} {operands : List Core}
    (each : ∀ needed ∈ action.needs, needed.mentions = [] ∨
      ∃ source ∈ type :: (operands.map Core.type ++ action.types),
        needed.mentions = source.mentions) :
    action.FromParts type operands := by
  intro needed isNeeded name mentioned
  rcases each needed isNeeded with none | ⟨source, member, same⟩
  · rw [none] at mentioned
    cases mentioned
  · exact ⟨source, member, same ▸ mentioned⟩

theorem unaryCore_actsOn {form : UnaryForm} {operand : Checked Core}
    (checked : context.unaryCore form operand = .ok core) :
    ∃ value, operand = .ok value ∧ ActsOn context [value] core := by
  cases form
  case setStaticField => exact storeField_actsOn (.inl rfl) checked
  case setStaticProperty => exact storeProperty_actsOn (.inl rfl) checked
  all_goals simp only [TypeContext.unaryCore, bind_eq_ok] at checked
  case op =>
    obtain ⟨value, found, ⟨type, action⟩, meaning, same⟩ := checked
    cases same
    refine ⟨value, found, .apply (fromParts_of_mem fun needed isNeeded => ?_)⟩
    refine (Operators.needs_unary meaning needed isNeeded).imp_right ?_
    rintro rfl
    exact ⟨value.type, by simp, rfl⟩
  case field =>
    obtain ⟨value, found, -, -, checked⟩ := checked
    exact ⟨value, found, loadField_actsOn (.inr ⟨value, by simp, rfl⟩) checked⟩
  case property =>
    obtain ⟨value, found, -, -, checked⟩ := checked
    exact ⟨value, found, loadProperty_actsOn (.inr ⟨value, by simp, rfl⟩) checked⟩
  case convert =>
    obtain ⟨value, found, checked⟩ := checked
    split at checked
    · cases checked
      exact ⟨value, found, .apply (fromParts_of_mem (by simp [Action.needs, Action.convert,
        Action.instr]))⟩
    · exact (throw_ne_ok.mp checked).elim
  case newArray =>
    split at checked
    · simp only [bind_eq_ok, throw_ne_ok, false_and, exists_false] at checked
    · simp only [bind_eq_ok, pure_eq_ok] at checked
      obtain ⟨value, found, -, -, rfl⟩ := checked
      exact ⟨value, found, .apply (fromParts_of_mem (by simp [Action.needs, Ty.mentions]))⟩
  case arrayLength | peek | box | cast | isInstance | isNull | throw =>
    obtain ⟨value, found, -, -, checked⟩ := checked
    cases checked
    exact ⟨value, found,
      .apply (fromParts_of_mem (by simp [Action.needs, Action.instr, Action.types]))⟩
  case unbox =>
    obtain ⟨value, found, -, -, -, -, checked⟩ := checked
    cases checked
    exact ⟨value, found, .apply (fromParts_of_mem (by simp [Action.needs]))⟩

theorem binaryCore_actsOn {form : BinaryForm} {left right : Checked Core}
    (checked : context.binaryCore form left right = .ok core) :
    ∃ first second, left = .ok first ∧ right = .ok second ∧
      ActsOn context [first, second] core := by
  cases form
  all_goals simp only [TypeContext.binaryCore, bind_eq_ok] at checked
  case op =>
    obtain ⟨first, found, second, present, ⟨type, action⟩, meaning, same⟩ := checked
    cases same
    refine ⟨first, second, found, present, .apply (fromParts_of_mem fun needed isNeeded => ?_)⟩
    refine (Operators.needs_binary meaning needed isNeeded).imp_right ?_
    rintro (rfl | rfl)
    · exact ⟨first.type, by simp, rfl⟩
    · exact ⟨second.type, by simp, rfl⟩
  case arrayRef =>
    obtain ⟨array, found, element, -, index, present, -, -, same⟩ := checked
    cases same
    exact ⟨array, index, found, present, .apply (fromParts_of_mem (by simp [Action.needs]))⟩
  case setField =>
    obtain ⟨receiver, found, -, -, checked⟩ := checked
    obtain ⟨value, present, acts⟩ :=
      storeField_actsOn (.inr ⟨receiver, by simp, rfl⟩) checked
    exact ⟨receiver, value, found, present, acts⟩
  case setProperty =>
    obtain ⟨receiver, found, -, -, checked⟩ := checked
    obtain ⟨value, present, acts⟩ :=
      storeProperty_actsOn (.inr ⟨receiver, by simp, rfl⟩) checked
    exact ⟨receiver, value, found, present, acts⟩
  case poke =>
    obtain ⟨address, found, -, -, value, present, checked⟩ := checked
    split at checked
    · cases checked
      exact ⟨address, value, found, present,
        .apply (fromParts_of_mem (by simp [Action.needs, Action.instr]))⟩
    · exact (throw_ne_ok.mp checked).elim

theorem ternaryCore_actsOn {form : TernaryForm} {first second third : Checked Core}
    (checked : context.ternaryCore form first second third = .ok core) :
    ∃ one two three, first = .ok one ∧ second = .ok two ∧ third = .ok three ∧
      ActsOn context [one, two, three] core := by
  cases form
  all_goals simp only [TypeContext.ternaryCore, bind_eq_ok, pure_eq_ok] at checked
  case arraySet =>
    obtain ⟨array, found, element, isElement, index, present, -, -, value, given, -, -, rfl⟩ :=
      checked
    refine ⟨array, index, value, found, present, given, .apply (fromParts_of_mem ?_)⟩
    intro needed isNeeded
    rw [elementType_eq_ok] at isElement
    refine .inr ⟨array.type, by simp, ?_⟩
    rw [List.mem_singleton.mp isNeeded, isElement, Ty.mentions]
  all_goals
    obtain ⟨target, found, -, -, source, present, -, -, count, given, -, -, rfl⟩ := checked
    exact ⟨target, source, count, found, present, given,
      .apply (fromParts_of_mem (by simp [Action.needs, Action.instr]))⟩

/-- An operation acts on the checked forms of its children. -/
theorem operation_checks {expr : Expr} (operation : expr.isOperation = true)
    (checked : Checks context scope expr core) :
    ∃ operands, List.Forall₂ (Checks context scope) expr.children operands ∧
      ActsOn context operands core := by
  cases expr with
  | unary form operand =>
      obtain ⟨value, found, acts⟩ := unaryCore_actsOn checked
      exact ⟨_, .cons found .nil, acts⟩
  | binary form left right =>
      obtain ⟨first, second, foundLeft, foundRight, acts⟩ := binaryCore_actsOn checked
      exact ⟨_, .cons foundLeft (.cons foundRight .nil), acts⟩
  | ternary form first second third =>
      obtain ⟨one, two, three, foundOne, foundTwo, foundThree, acts⟩ :=
        ternaryCore_actsOn checked
      exact ⟨_, .cons foundOne (.cons foundTwo (.cons foundThree .nil)), acts⟩
  | staticField owner name => exact ⟨_, .nil, loadField_actsOn (.inl rfl) checked⟩
  | staticProperty owner name => exact ⟨_, .nil, loadProperty_actsOn (.inl rfl) checked⟩
  | staticCall owner name args =>
      simp only [Checks, elaborate, bind_eq_ok, elaborateAll_eq_ok] at checked
      obtain ⟨operands, all, checked⟩ := checked
      exact ⟨_, all, callMethod_actsOn (.inl rfl) checked⟩
  | call receiver name args =>
      simp only [Checks, elaborate, bind_eq_ok, elaborateAll_eq_ok] at checked
      obtain ⟨first, found, -, -, operands, all, checked⟩ := checked
      exact ⟨_, .cons found all, callMethod_actsOn (.inr ⟨first, rfl, rfl⟩) checked⟩
  | new type args =>
      simp only [Checks, elaborate, bind_eq_ok, pure_eq_ok, elaborateAll_eq_ok]
        at checked
      obtain ⟨-, -, operands, all, ctor, selected, rfl⟩ := checked
      exact ⟨_, all, .member (.new (TypeContext.mem_of_select selected))⟩
  | _ => simp [isOperation] at operation

/-! ## One case for each kind of node -/

/-- How an accepted expression and its checked form are made of parts that were
checked before.  The forms that only act on operands are one case. -/
inductive Elaborates (context : TypeContext) (scope : Scope SourceTy) :
    Expr → Core → Prop where
  | literal (value : Literal) : Elaborates context scope (literal value) (.literal value)
  | var {name : Name} {type : SourceTy} (bound : scope.get? name = some type) :
      Elaborates context scope (var name) (.var name type)
  | set {name : Name} {type : SourceTy} {value : Expr} {core : Core}
      (bound : scope.get? name = some type)
      (checked : Checks context scope value core)
      (assignable : context.isAssignable core.type type = true) :
      Elaborates context scope (set name value) (.set name core)
  | seq {items : List Expr} {cores : List Core}
      (checked : List.Forall₂ (Checks context scope) items cores) :
      Elaborates context scope (seq items) (.seq cores)
  | logic {connective : Connective} {items : List Expr} {cores : List Core}
      (checked : List.Forall₂ (fun item core =>
        Checks context scope item core ∧ core.type = .bool) items cores) :
      Elaborates context scope (logic connective items) (.logic connective cores)
  | when {test body : Expr} {testCore bodyCore : Core}
      (testChecked : Checks context scope test testCore)
      (truth : testCore.type = .bool)
      (bodyChecked : Checks context scope body bodyCore)
      (noValue : bodyCore.type = .void) :
      Elaborates context scope (when test body) (.when testCore bodyCore)
  | cond {test yes no : Expr} {testCore yesCore noCore : Core}
      (testChecked : Checks context scope test testCore)
      (truth : testCore.type = .bool)
      (yesChecked : Checks context scope yes yesCore)
      (noChecked : Checks context scope no noCore)
      (same : noCore.type = yesCore.type) :
      Elaborates context scope (cond test yes no) (.cond testCore yesCore noCore)
  | while {test body : Expr} {testCore bodyCore : Core}
      (testChecked : Checks context scope test testCore)
      (truth : testCore.type = .bool)
      (bodyChecked : Checks context scope body bodyCore) :
      Elaborates context scope (.while test body) (.while testCore bodyCore)
  | switch {selector default : Expr} {arms : List (List UInt32 × Expr)}
      {selectorCore defaultCore : Core} {armCores : List (List UInt32 × Core)}
      (labels : TypeContext.checkLabels (arms.flatMap (·.1)) = .ok ())
      (selectorChecked : Checks context scope selector selectorCore)
      (selectorFits : TypeContext.expectSelector selectorCore = .ok ())
      (defaultChecked : Checks context scope default defaultCore)
      (armsChecked : List.Forall₂ (ChecksArm context scope defaultCore.type) arms
        armCores) :
      Elaborates context scope (switch selector arms default)
        (.switch selectorCore armCores defaultCore)
  | letPar {clauses : List (Name × Expr)} {body : Expr}
      {cores : List (Binder × Core)} {bodyCore : Core}
      (checked : List.Forall₂ (ChecksNamed context scope body.usage) clauses cores)
      (bodyChecked : Checks context
        (scope.bindAll (cores.map fun core => (core.1.name, core.1.type))) body
        bodyCore) :
      Elaborates context scope (letPar clauses body) (.letPar cores bodyCore)
  | letSeq {clauses : List (Name × Expr)} {body : Expr}
      {cores : List (Binder × Core)} {bodyCore : Core} {inner : Scope SourceTy}
      (checked : ChecksInTurn context body.usage scope clauses cores inner)
      (bodyChecked : Checks context inner body bodyCore) :
      Elaborates context scope (letSeq clauses body) (.letSeq cores bodyCore)
  | letRec {clauses : List (Param × Expr)} {body : Expr}
      {cores : List (Binder × Core)} {bodyCore : Core} {inner : Scope SourceTy}
      (extended : inner = scope.bindAll
        (clauses.map fun clause => (clause.1.name, clause.1.type)))
      (checked : List.Forall₂ (ChecksTyped context inner
        ((Usage.unionAll ((typedUsages clauses).map (·.2))).union body.usage))
        clauses cores)
      (bodyChecked : Checks context inner body bodyCore) :
      Elaborates context scope (letRec clauses body) (.letRec cores bodyCore)
  | loop {id : NodeId} {name : Name} {vars : List (Param × Expr)} {ret : SourceTy}
      {body : Expr} {cores : List (Binder × Core)} {bodyCore : Core}
      {function : Binder} {captures : List Param}
      (checked : List.Forall₂ (ChecksTyped context scope body.usage) vars cores)
      (named : function = Binder.of
        (Usage.moved (vars.map fun clause => clause.1.name) body.usage) name
        (.delegate (cores.map fun core => core.1.type) ret))
      (bodyChecked : Checks context
        ((scope.bind name function.type).bindAll
          (cores.map fun core => (core.1.name, core.1.type))) body bodyCore)
      (result : ret.isVoid = true ∨ context.isAssignable bodyCore.type ret = true)
      (crossing : List.Forall₂ (Crosses (scope.bind name function.type))
        (Usage.moved (vars.map fun clause => clause.1.name) body.usage).names
        captures) :
      Elaborates context scope (loop id name vars ret body)
        (.loop id function cores ret captures bodyCore)
  | lambda {id : NodeId} {params : List Param} {body : Expr} {bodyCore : Core}
      {captures : List Param}
      (bodyChecked : Checks context
        (scope.bindAll (params.map fun param => (param.name, param.type))) body
        bodyCore)
      (crossing : List.Forall₂ (Crosses scope)
        (Usage.moved (params.map Param.name) body.usage).names captures) :
      Elaborates context scope (lambda id params body)
        (.lambda id
          (params.map fun param => Binder.of body.usage param.name param.type)
          captures bodyCore)
  | invoke {function : Expr} {args : List Expr} {functionCore : Core}
      {cores : List Core} {params : List SourceTy} {ret : SourceTy}
      (functionChecked : Checks context scope function functionCore)
      (signature : functionCore.type.signature? = some (params, ret))
      (checked : List.Forall₂ (Checks context scope) args cores)
      (assignable : List.Forall₂ (fun (core : Core) param =>
        context.isAssignable core.type param = true) cores params) :
      Elaborates context scope (invoke function args)
        (.invoke ret functionCore cores)
  | operation {expr : Expr} {operands : List Core} {core : Core}
      (isOperation : expr.isOperation = true)
      (whole : Checks context scope expr core)
      (checked : List.Forall₂ (Checks context scope) expr.children operands)
      (acts : ActsOn context operands core) :
      Elaborates context scope expr core
  | tryCatch {id : NodeId} {body : Expr} {catches : List (Param × Expr)}
      {bodyCore : Core} {catchCores : List (CatchBinder × Core)}
      {captures : List Param}
      (bodyChecked : Checks context scope body bodyCore)
      (checked : List.Forall₂ (ChecksHandler context scope bodyCore.type) catches
        catchCores)
      (crossing : List.Forall₂ (Crosses scope)
        (Usage.guarded body.usage (typedUsages catches) none).names captures) :
      Elaborates context scope (tryCatch id body catches)
        (.tryCatch id captures bodyCore catchCores)
  | tryFinally {id : NodeId} {body final : Expr} {catches : List (Param × Expr)}
      {bodyCore finalCore : Core} {catchCores : List (CatchBinder × Core)}
      {captures : List Param}
      (bodyChecked : Checks context scope body bodyCore)
      (checked : List.Forall₂ (ChecksHandler context scope bodyCore.type) catches
        catchCores)
      (finalChecked : Checks context scope final finalCore)
      (crossing : List.Forall₂ (Crosses scope)
        (Usage.guarded body.usage (typedUsages catches) (some final.usage)).names
        captures) :
      Elaborates context scope (tryFinally id body catches final)
        (.tryFinally id captures bodyCore catchCores finalCore)
  | pin {id : NodeId} {arrays : List (Name × Expr)} {body : Expr}
      {cores : List (Binder × Core)} {bodyCore : Core} {captures : List Param}
      (checked : List.Forall₂ (ChecksArray context scope body.usage) arrays cores)
      (bodyChecked : Checks context
        (scope.bindAll (arrays.map fun array => (array.1, .intPtr))) body bodyCore)
      (crossing : List.Forall₂ (Crosses scope)
        (Usage.moved (arrays.map (·.1)) body.usage).names captures) :
      Elaborates context scope (pin id arrays body)
        (.pin id captures cores bodyCore)

/-- Every accepted expression is an instance of one of the cases. -/
theorem Checks.elaborates {expr : Expr} (checked : Checks context scope expr core) :
    Elaborates context scope expr core := by
  by_cases operation : expr.isOperation = true
  · obtain ⟨operands, all, acts⟩ := operation_checks operation checked
    exact .operation operation checked all acts
  unfold Checks at checked
  cases expr with
  | literal value =>
      simp only [elaborate] at checked
      split at checked
      · simp only [bind_eq_ok, pure_eq_ok] at checked
        obtain ⟨-, -, rfl⟩ := checked
        exact .literal _
      · cases checked
        exact .literal _
  | var name =>
      simp only [elaborate, bind_eq_ok, pure_eq_ok, Scope.lookup_eq_ok] at checked
      obtain ⟨type, bound, rfl⟩ := checked
      exact .var bound
  | set name value =>
      simp only [elaborate, bind_eq_ok, pure_eq_ok, Scope.lookup_eq_ok,
        TypeContext.expectAssignable_eq_ok] at checked
      obtain ⟨type, bound, core, checked, -, assignable, rfl⟩ := checked
      exact .set bound checked assignable
  | seq items =>
      simp only [elaborate, bind_eq_ok, pure_eq_ok, elaborateAll_eq_ok] at checked
      obtain ⟨cores, checked, rfl⟩ := checked
      exact .seq checked
  | logic connective items =>
      simp only [elaborate, bind_eq_ok, pure_eq_ok, elaborateTruths_eq_ok] at checked
      obtain ⟨cores, checked, rfl⟩ := checked
      exact .logic checked
  | when test body =>
      simp only [elaborate, bind_eq_ok, pure_eq_ok, TypeContext.expectExact_eq_ok]
        at checked
      obtain ⟨test, testChecked, -, truth, body, bodyChecked, -, noValue, rfl⟩ :=
        checked
      exact .when testChecked truth bodyChecked noValue
  | cond test yes no =>
      simp only [elaborate, bind_eq_ok, pure_eq_ok, TypeContext.expectExact_eq_ok]
        at checked
      obtain ⟨test, testChecked, -, truth, yes, yesChecked, no, noChecked, -, same,
        rfl⟩ := checked
      exact .cond testChecked truth yesChecked noChecked same
  | «while» test body =>
      simp only [elaborate, bind_eq_ok, pure_eq_ok, TypeContext.expectExact_eq_ok]
        at checked
      obtain ⟨test, testChecked, -, truth, body, bodyChecked, rfl⟩ := checked
      exact .while testChecked truth bodyChecked
  | switch selector arms default =>
      simp only [elaborate, bind_eq_ok, pure_eq_ok, elaborateArms_eq_ok] at checked
      obtain ⟨⟨⟩, labels, selector, selectorChecked, ⟨⟩, fits, default,
        defaultChecked, arms, armsChecked, rfl⟩ := checked
      exact .switch labels selectorChecked fits defaultChecked armsChecked
  | letPar clauses body =>
      simp only [elaborate, bind_eq_ok, pure_eq_ok, elaborateNamed_eq_ok] at checked
      obtain ⟨cores, checked, body, bodyChecked, rfl⟩ := checked
      exact .letPar checked bodyChecked
  | letSeq clauses body =>
      simp only [elaborate, bind_eq_ok, pure_eq_ok] at checked
      obtain ⟨⟨cores, inner⟩, checked, body, bodyChecked, rfl⟩ := checked
      exact .letSeq (elaborateSeq_eq_ok.mp checked) bodyChecked
  | letRec clauses body =>
      simp only [elaborate, bind_eq_ok, pure_eq_ok, elaborateTyped_eq_ok] at checked
      obtain ⟨cores, checked, body, bodyChecked, rfl⟩ := checked
      exact .letRec rfl checked bodyChecked
  | loop id name vars ret body =>
      simp only [elaborate, bind_eq_ok, pure_eq_ok, elaborateTyped_eq_ok,
        TypeContext.expectResult_eq_ok, captureTypes_eq_ok] at checked
      obtain ⟨cores, checked, body, bodyChecked, -, result, captures, crossing, rfl⟩ :=
        checked
      exact .loop checked rfl bodyChecked result crossing
  | lambda id params body =>
      simp only [elaborate, bind_eq_ok, pure_eq_ok, captureTypes_eq_ok] at checked
      obtain ⟨body, bodyChecked, captures, crossing, rfl⟩ := checked
      exact .lambda bodyChecked crossing
  | invoke function args =>
      simp only [elaborate, bind_eq_ok, pure_eq_ok] at checked
      obtain ⟨function, functionChecked, ⟨params, ret⟩, signature, cores, checked,
        rfl⟩ := checked
      rw [TypeContext.expectDelegate_eq_ok] at signature
      obtain ⟨checked, assignable⟩ := (elaborateArgs_eq_ok signature.2).mp checked
      exact .invoke functionChecked signature.1 checked assignable
  | tryCatch id body catches =>
      simp only [elaborate] at checked
      split at checked
      · simp only [bind_eq_ok, throw_ne_ok, false_and, exists_false] at checked
      · simp only [bind_eq_ok, pure_eq_ok, elaborateCatches_eq_ok,
          captureTypes_eq_ok] at checked
        obtain ⟨body, bodyChecked, catches, checked, captures, crossing, rfl⟩ :=
          checked
        exact .tryCatch bodyChecked checked crossing
  | tryFinally id body catches final =>
      simp only [elaborate, bind_eq_ok, pure_eq_ok, elaborateCatches_eq_ok,
        captureTypes_eq_ok] at checked
      obtain ⟨body, bodyChecked, catches, checked, final, finalChecked, captures,
        crossing, rfl⟩ := checked
      exact .tryFinally bodyChecked checked finalChecked crossing
  | pin id arrays body =>
      simp only [elaborate, bind_eq_ok, pure_eq_ok, elaborateArrays_eq_ok,
        captureTypes_eq_ok] at checked
      obtain ⟨cores, checked, body, bodyChecked, captures, crossing, rfl⟩ := checked
      exact .pin checked bodyChecked crossing
  | _ => exact absurd rfl operation

end Expr

end ClassForge
