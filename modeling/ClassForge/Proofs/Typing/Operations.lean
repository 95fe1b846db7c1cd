import ClassForge.Proofs.Build.Dependencies

/-!
# Operators only operate

The checker turns an operator into a node that acts on its operands.  The code of such an action
works on the values of the operands alone: it moves control nowhere, except by raising an exception,
and touches neither arguments nor locals.
-/

namespace ClassForge

/-! ## Instructions and actions -/

/-- An instruction that works on the values on the stack, and goes on to the next one if it goes
on at all. -/
def Instr.isOperation : Instr → Bool
  | loadArg _ | storeArg _ | loadLocal _ | storeLocal _ | ret | branch _ | branchTrue _
  | branchFalse _ | switch _ | leave _ | endFinally | call _ _ | callVirtual _ _ | newObject _
  | callCtor _ => false
  | _ => true

/-- Fixed code of an action only works on its operands. -/
def Action.Operates : Action → Prop
  | code instrs => ∀ instr ∈ instrs, instr.isOperation = true
  | _ => True

/-- A node that acts on operands only works on them. -/
def Core.Operates : Core → Prop
  | apply _ action _ => action.Operates
  | _ => True

/-- A node that uses a member of a type. -/
def Core.IsMember (core : Core) : Prop :=
  ∃ type use operands, core = .member type use operands

theorem Core.IsMember.operates {core : Core} (isMember : core.IsMember) : core.Operates := by
  obtain ⟨type, use, operands, rfl⟩ := isMember
  trivial

theorem Action.operates_instr {instr : Instr} (operation : instr.isOperation = true) :
    (Action.instr instr).Operates :=
  fun _ isInstr => List.mem_singleton.mp isInstr ▸ operation

/-! ## Operators -/

namespace Operators

variable {context : TypeContext} {type left right operand : SourceTy} {action : Action}

theorem binary_operates {op : BinaryOp}
    (meaning : Operators.binary context op left right = .ok (type, action)) : action.Operates := by
  have found := binary?_of_binary meaning
  cases op with
  | add | sub | mul | div | rem =>
      replace found : arithmetic? _ left right = some (type, action) := found
      unfold arithmetic? at found
      split at found
      · cases found
        trivial
      · split at found
        · cases found
          exact Action.operates_instr rfl
        · obtain ⟨prim, -, same⟩ := Option.bind_eq_some_iff.mp found
          cases same
          exact Action.operates_instr rfl
  | bitAnd | bitOr | bitXor =>
      obtain ⟨prim, -, same⟩ := Option.bind_eq_some_iff.mp found
      cases same
      exact Action.operates_instr rfl
  | shl | shr =>
      obtain ⟨prim, -, same⟩ := Option.bind_eq_some_iff.mp found
      split at same
      · cases same
        exact Action.operates_instr rfl
      · cases same
  | eq | ne =>
      simp only [binary?] at found
      split at found
      · cases found
        simp [Action.Operates, Action.instr, negation, Instr.isOperation]
      · cases found
  | lt | le | gt | ge =>
      obtain ⟨prim, -, same⟩ := Option.map_eq_some_iff.mp found
      cases same
      simp [Action.Operates, comparison, negation, Instr.isOperation]
  | pow | atan2 | min | max =>
      obtain ⟨prim, -, same⟩ := Option.map_eq_some_iff.mp found
      cases same
      trivial

theorem unary_operates {op : UnaryOp}
    (meaning : Operators.unary op operand = .ok (type, action)) : action.Operates := by
  have found := unary?_of_unary meaning
  obtain ⟨prim, -, same⟩ := Option.bind_eq_some_iff.mp found
  split at same
  · cases same
    cases op with
    | neg | bitNot => exact Action.operates_instr rfl
    | not => simp [Action.Operates, unaryAction, negation, Instr.isOperation]
    | _ => trivial
  · cases same

end Operators

/-! ## Nodes -/

namespace Expr

variable {context : TypeContext} {owner : SourceTy} {name : Name} {isStatic : Bool}
variable {receiver : List Core} {core : Core}

theorem loadField_isMember (checked : context.loadField owner name isStatic receiver = .ok core) :
    core.IsMember := by
  simp only [TypeContext.loadField, bind_eq_ok, pure_eq_ok] at checked
  obtain ⟨_, _, rfl⟩ := checked
  exact ⟨_, _, _, rfl⟩

theorem loadProperty_isMember
    (checked : context.loadProperty owner name isStatic receiver = .ok core) : core.IsMember := by
  simp only [TypeContext.loadProperty, bind_eq_ok, pure_eq_ok] at checked
  obtain ⟨_, _, rfl⟩ := checked
  exact ⟨_, _, _, rfl⟩

theorem storeField_isMember {value : Checked Core}
    (checked : context.storeField owner name isStatic receiver value = .ok core) :
    core.IsMember := by
  simp only [TypeContext.storeField, bind_eq_ok, pure_eq_ok] at checked
  obtain ⟨_, _, _, _, _, _, rfl⟩ := checked
  exact ⟨_, _, _, rfl⟩

theorem storeProperty_isMember {value : Checked Core}
    (checked : context.storeProperty owner name isStatic receiver value = .ok core) :
    core.IsMember := by
  simp only [TypeContext.storeProperty, bind_eq_ok, pure_eq_ok] at checked
  obtain ⟨_, _, _, _, _, _, rfl⟩ := checked
  exact ⟨_, _, _, rfl⟩

theorem callMethod_isMember {args : List Core}
    (checked : context.callMethod owner name receiver args = .ok core) : core.IsMember := by
  simp only [TypeContext.callMethod, bind_eq_ok, pure_eq_ok] at checked
  obtain ⟨_, _, rfl⟩ := checked
  exact ⟨_, _, _, rfl⟩

theorem unaryCore_operates {form : UnaryForm} {operand : Checked Core}
    (checked : context.unaryCore form operand = .ok core) : core.Operates := by
  cases form
  case setStaticField => exact (storeField_isMember checked).operates
  case setStaticProperty => exact (storeProperty_isMember checked).operates
  all_goals simp only [TypeContext.unaryCore, bind_eq_ok] at checked
  case op =>
    obtain ⟨_, _, ⟨type, action⟩, meaning, same⟩ := checked
    cases same
    exact Operators.unary_operates meaning
  case field =>
    obtain ⟨_, _, _, _, checked⟩ := checked
    exact (loadField_isMember checked).operates
  case property =>
    obtain ⟨_, _, _, _, checked⟩ := checked
    exact (loadProperty_isMember checked).operates
  case convert =>
    obtain ⟨_, _, checked⟩ := checked
    split at checked
    · cases checked
      exact Action.operates_instr rfl
    · exact (throw_ne_ok.mp checked).elim
  case newArray =>
    split at checked
    · simp only [bind_eq_ok, throw_ne_ok, false_and, exists_false] at checked
    · simp only [bind_eq_ok, pure_eq_ok] at checked
      obtain ⟨_, _, _, _, rfl⟩ := checked
      trivial
  case arrayLength | isNull =>
    obtain ⟨_, _, _, _, checked⟩ := checked
    cases checked
    simp [Core.Operates, Action.Operates, Instr.isOperation]
  case peek | throw =>
    obtain ⟨_, _, _, _, checked⟩ := checked
    cases checked
    exact Action.operates_instr rfl
  case box | cast | isInstance =>
    obtain ⟨_, _, _, _, checked⟩ := checked
    cases checked
    trivial
  case unbox =>
    obtain ⟨_, _, _, _, _, _, checked⟩ := checked
    cases checked
    trivial

theorem binaryCore_operates {form : BinaryForm} {left right : Checked Core}
    (checked : context.binaryCore form left right = .ok core) : core.Operates := by
  cases form
  all_goals simp only [TypeContext.binaryCore, bind_eq_ok] at checked
  case op =>
    obtain ⟨_, _, _, _, ⟨type, action⟩, meaning, same⟩ := checked
    cases same
    exact Operators.binary_operates meaning
  case arrayRef =>
    obtain ⟨_, _, _, _, _, _, _, _, same⟩ := checked
    cases same
    trivial
  case setField =>
    obtain ⟨_, _, _, _, checked⟩ := checked
    exact (storeField_isMember checked).operates
  case setProperty =>
    obtain ⟨_, _, _, _, checked⟩ := checked
    exact (storeProperty_isMember checked).operates
  case poke =>
    obtain ⟨_, _, _, _, _, _, checked⟩ := checked
    split at checked
    · cases checked
      exact Action.operates_instr rfl
    · exact (throw_ne_ok.mp checked).elim

theorem ternaryCore_operates {form : TernaryForm} {first second third : Checked Core}
    (checked : context.ternaryCore form first second third = .ok core) : core.Operates := by
  cases form
  all_goals simp only [TypeContext.ternaryCore, bind_eq_ok, pure_eq_ok] at checked
  case arraySet =>
    obtain ⟨_, _, _, _, _, _, _, _, _, _, _, _, rfl⟩ := checked
    trivial
  all_goals
    obtain ⟨_, _, _, _, _, _, _, _, _, _, _, _, rfl⟩ := checked
    exact Action.operates_instr rfl

/-- The checked form of an operator only works on its operands. -/
theorem Checks.operates {scope : Scope SourceTy} {expr : Expr}
    (checked : expr.Checks context scope core) : core.Operates := by
  cases checked.elaborates with
  | operation operation =>
      cases expr with
      | unary form operand => exact unaryCore_operates checked
      | binary form left right => exact binaryCore_operates checked
      | ternary form first second third => exact ternaryCore_operates checked
      | staticField owner name => exact (loadField_isMember checked).operates
      | staticProperty owner name => exact (loadProperty_isMember checked).operates
      | staticCall owner name args =>
          simp only [Checks, elaborate, bind_eq_ok] at checked
          obtain ⟨_, _, checked⟩ := checked
          exact (callMethod_isMember checked).operates
      | call receiver name args =>
          simp only [Checks, elaborate, bind_eq_ok] at checked
          obtain ⟨_, _, _, _, _, _, checked⟩ := checked
          exact (callMethod_isMember checked).operates
      | new type args =>
          simp only [Checks, elaborate, bind_eq_ok, pure_eq_ok] at checked
          obtain ⟨_, _, _, _, ctor, _, rfl⟩ := checked
          trivial
      | _ => simp [isOperation] at operation
  | _ => trivial

end Expr

/-! ## Programs -/

/-- Every node of an accepted program is the checked form of an expression. -/
theorem Module.Accepted.exists_checks {module : Module} {image : Image} {context : TypeContext}
    {program : Program} (accepted : module.Accepted image context program) {cls : CoreClass}
    (isCore : cls ∈ program) {node : Core} (isNode : node ∈ Core.preorderAll cls.roots) :
    ∃ scope expr, Expr.Checks context scope expr node := by
  obtain ⟨source, isClass, checked⟩ := exists_related_left accepted.classes isCore
  rw [Core.preorderAll_eq_flatMap] at isNode
  obtain ⟨root, isRoot, inRoot⟩ := List.mem_flatMap.mp isNode
  obtain ⟨code, isCode, expr, isExpr, rootChecked⟩ := checked.exists_code isRoot
  have start : Checkpoint.Accepted context ⟨.ofParams code.arguments, expr, root⟩ := rootChecked
  obtain ⟨inner, reaches, rfl⟩ := start.exists_reaches inRoot
  exact ⟨_, _, reaches.accepted start⟩

/-- Every node of an accepted program only works on its operands. -/
theorem Module.Accepted.operates {module : Module} {image : Image} {context : TypeContext}
    {program : Program} (accepted : module.Accepted image context program) {cls : CoreClass}
    (isCore : cls ∈ program) {node : Core} (isNode : node ∈ Core.preorderAll cls.roots) :
    node.Operates := by
  obtain ⟨scope, expr, checked⟩ := accepted.exists_checks isCore isNode
  exact Expr.Checks.operates checked

end ClassForge
