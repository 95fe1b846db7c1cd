import ClassForge.Proofs.Simulation.SimulatedBranches
import ClassForge.Proofs.Simulation.SimulatedFunctions

/-!
# Expressions that simulate

The code of every checked expression simulates it.  The proof is by induction on how deep evaluation
goes: the parts of a node, the next turn of a loop and the body of a function that is called are all
evaluated less deep than the node.
-/

namespace ClassForge

open Machine

variable {linkage : Linkage} {limit fuel : Nat} {types : Scope SourceTy}
variable {captures : List Param}
variable {core : Core} {names : List Name}
variable {id : NodeId} {params : List Param} {body : Expr} {vars : List (Param × Expr)}
variable {inner : Scope SourceTy}

theorem forall₂_imp_of_mem {α β : Type} {relation other : α → β → Prop} {left : List α}
    {right : List β} (related : List.Forall₂ relation left right)
    (implies : ∀ first, ∀ second ∈ right, relation first second → other first second) :
    List.Forall₂ other left right := by
  induction related with
  | nil => exact .nil
  | cons holds _ ih =>
      exact .cons (implies _ _ List.mem_cons_self holds) (ih fun first second isMember =>
        implies first second (List.mem_cons_of_mem _ isMember))

theorem Core.Supported.operand {part : Core} (supported : core.Supported linkage)
    (isOperand : part ∈ core.operands) : part.Supported linkage :=
  supported.part (core.operands_subset isOperand)

/-! ## Functions -/

/-- The captured variables of a function are in scope around it. -/
theorem Expr.captured_of_crosses (crossing : List.Forall₂ (Crosses types) names captures) :
    ∀ capture ∈ captures, types.get? capture.name = some capture.type := by
  intro capture isCapture
  obtain ⟨name, -, crosses⟩ := exists_related_left crossing isCapture
  exact crosses.named ▸ crosses.bound

/-- The class of a lambda renders it. -/
theorem Expr.renders_lambda {uses : Usage}
    (checked : body.Checks linkage.typing
      (types.bindAll (params.map fun param => (param.name, param.type))) core)
    (crossing : List.Forall₂ (Crosses types) names captures) (supported : core.Supported linkage)
    (values : ∀ param ∈ params, param.type.isVoid = false) :
    (Closure.ofLambda linkage.host id
      (params.map fun param => Binder.of uses param.name param.type) captures core).Renders linkage
        types (params.map Param.name) body true where
  params := by simp [Closure.ofLambda, Binder.of, Function.comp_def]
  checked := by simpa [Closure.ofLambda, Binder.of, Function.comp_def] using checked
  result := .inr (by simp [Closure.ofLambda, TypeContext.isAssignable])
  returns _ := rfl
  furnished := supported.furnished
  values := supported.values
  paramValues := List.forall_mem_map.mpr values
  captured := captured_of_crosses crossing

/-- The class of a loop renders its function. -/
theorem Expr.renders_loop {ret : SourceTy}
    {cores : List (Binder × Core)} {uses : Usage}
    (checkedVars : List.Forall₂ (ChecksTyped linkage.typing types uses) vars cores)
    (checked : body.Checks linkage.typing (inner.bindAll (cores.map fun core => (core.1.name,
      core.1.type))) core)
    (result : ret.isVoid = true ∨ linkage.typing.isAssignable core.type ret = true)
    (crossing : List.Forall₂ (Crosses inner) names captures) (supported : core.Supported linkage)
    (values : ∀ var ∈ cores, var.1.type.isVoid = false) :
    (Closure.ofLoop linkage.host id (cores.map (·.1)) ret captures core).Renders linkage inner
      (vars.map (·.1.name)) body (!ret.isVoid) where
  params := by
    change _ = (cores.map (·.1)).map Binder.name
    rw [List.map_map, ← List.forall₂_eq_eq_eq, List.forall₂_map_left_iff, List.forall₂_map_right_iff]
    exact checkedVars.imp fun var core holds => by rw [Function.comp_apply, holds.binder]; rfl
  checked := by simpa [Closure.ofLoop, Function.comp_def] using checked
  result := result
  returns isValue := by
    change ret.isVoid = false at isValue
    rw [isValue]
    rfl
  furnished := supported.furnished
  values := supported.values
  paramValues := List.forall_mem_map.mpr values
  captured := captured_of_crosses crossing

namespace Expr

variable {expr : Expr} {core : Core}

/-! ## Nodes -/

/-- Nothing is to be shown of an expression that has no value. -/
theorem simulates_of_failure (fails : ∀ env, expr.eval fuel env = failure) :
    core.Simulates linkage limit types (expr.eval fuel) := by
  intro context seat tail env bindings before after now datum data stack post _ _ _ evaluated
  rw [fails] at evaluated
  cases evaluated

theorem simulates_literal (value : Literal) :
    (Core.literal value).Simulates linkage limit types ((literal value).eval (fuel + 1)) := by
  cases value with
  | int32 value => exact Core.simulates_number value
  | bool value => exact Core.simulates_truth value
  | _ => exact simulates_of_failure fun _ => rfl

/-- A lambda simulates with the class that was made for it. -/
theorem simulates_lambda {bodyCore : Core}
    {captures : List Param}
    (checked : Checks linkage.typing
      (types.bindAll (params.map fun param => (param.name, param.type))) body bodyCore)
    (crossing : List.Forall₂ (Crosses types)
      (Usage.moved (params.map Param.name) body.usage).names captures)
    (supported : (Core.lambda id
      (params.map fun param => Binder.of body.usage param.name param.type) captures
        bodyCore).Supported linkage) :
    (Core.lambda id (params.map fun param => Binder.of body.usage param.name param.type) captures
      bodyCore).Simulates linkage limit types ((lambda id params body).eval (fuel + 1)) := by
  obtain ⟨layout⟩ := supported.furnished _ (Core.mem_preorder_self _) _ rfl
  refine Core.simulates_lambda layout (renders_lambda checked crossing
    (supported.part (by simp [Core.parts])) fun param isParam => ?_)
  exact supported.values.binders _ (Core.mem_preorder_self _) _ (List.mem_map_of_mem isParam)

section Nodes

variable (simulated : Expr.Simulated linkage limit fuel)
variable {cores : List (Binder × Core)}

include simulated

/-- Each clause of a `let*` simulates in the scope of the clauses before it. -/
theorem ChecksInTurn.simulates {body : Usage} {clauses : List (Name × Expr)}
    (checked : ChecksInTurn linkage.typing body types clauses cores inner)
    (supported : ∀ clause ∈ cores, clause.2.Supported linkage)
    (values : ∀ clause ∈ cores, clause.1.type.isVoid = false) :
    Core.SimulatesInTurn linkage limit (eval fuel) types clauses cores inner := by
  induction checked with
  | nil => exact .nil
  | cons first _ ih =>
      obtain ⟨isSupported, others⟩ := List.forall_mem_cons.mp supported
      obtain ⟨isValue, rest⟩ := List.forall_mem_cons.mp values
      exact .cons ⟨rfl, rfl, isValue, simulated first isSupported⟩ (ih others rest)

/-- An operation on operands simulates when the operands do. -/
theorem simulates_operation (isOperation : expr.isOperation = true)
    (whole : expr.Checks linkage.typing types core) (supported : core.Supported linkage) :
    core.Simulates linkage limit types (expr.eval (fuel + 1)) := by
  cases expr with
  | unary form operand =>
      cases form with
      | op op =>
          simp only [Checks, elaborate, TypeContext.unaryCore, bind_eq_ok, pure_eq_ok] at whole
          obtain ⟨part, checked, ⟨type, action⟩, means, rfl⟩ := whole
          exact Core.simulates_unary means
            (simulated checked (supported.operand List.mem_cons_self))
      | _ => exact simulates_of_failure fun _ => rfl
  | binary form left right =>
      cases form with
      | op op =>
          simp only [Checks, elaborate, TypeContext.binaryCore, bind_eq_ok, pure_eq_ok] at whole
          obtain ⟨first, checkedLeft, second, checkedRight, ⟨type, action⟩, means, rfl⟩ := whole
          exact Core.simulates_binary means
            (simulated checkedLeft (supported.operand List.mem_cons_self))
            (simulated checkedRight (supported.operand (by simp [Core.operands])))
      | _ => exact simulates_of_failure fun _ => rfl
  | _ => first | exact simulates_of_failure fun _ => rfl | cases isOperation

/-- A loop simulates when what it is made of does. -/
theorem simulates_loop {name : Name} {ret : SourceTy} {bodyCore : Core} {function : Binder}
    {captures : List Param}
    (checked : List.Forall₂ (ChecksTyped linkage.typing types body.usage) vars cores)
    (named : function = Binder.of
      (Usage.moved (vars.map fun clause => clause.1.name) body.usage) name
      (.delegate (cores.map fun core => core.1.type) ret))
    (bodyChecked : Checks linkage.typing
      ((types.bind name function.type).bindAll
        (cores.map fun core => (core.1.name, core.1.type))) body bodyCore)
    (result : ret.isVoid = true ∨ linkage.typing.isAssignable bodyCore.type ret = true)
    (crossing : List.Forall₂ (Crosses (types.bind name function.type))
      (Usage.moved (vars.map fun clause => clause.1.name) body.usage).names captures)
    (supported : (Core.loop id function cores ret captures bodyCore).Supported linkage) :
    (Core.loop id function cores ret captures bodyCore).Simulates linkage limit types
      ((loop id name vars ret body).eval (fuel + 1)) := by
  obtain ⟨layout⟩ := supported.furnished _ (Core.mem_preorder_self _) _ rfl
  obtain rfl : name = function.name := by rw [named]; rfl
  refine Core.simulates_loop simulated layout ?_ (by rw [named]; rfl) ?_
  · exact renders_loop checked bodyChecked result crossing
      (supported.part (by simp [Core.parts]))
      (supported.values.loops _ _ _ _ _ _ (Core.mem_preorder_self _))
  · rw [List.forall₂_map_left_iff]
    refine forall₂_imp_of_mem checked fun var core isVar checked =>
      ⟨simulated checked.checked (supported.operand (List.mem_map_of_mem isVar)), ?_, ?_⟩
    · rw [checked.binder]
      exact checked.assignable
    · exact supported.values.loops _ _ _ _ _ _ (Core.mem_preorder_self _) core isVar

/-- The code of a node simulates it if the code of expressions that are evaluated less deep does. -/
theorem Elaborates.simulates (elaborates : Elaborates linkage.typing types expr core)
    (whole : expr.Checks linkage.typing types core) (supported : core.Supported linkage) :
    core.Simulates linkage limit types (expr.eval (fuel + 1)) := by
  cases elaborates with
  | literal value => exact simulates_literal value
  | var bound => exact Core.simulates_var bound
  | set bound checked assignable =>
      exact Core.simulates_set bound assignable
        (simulated checked (supported.operand List.mem_cons_self))
  | seq checked =>
      exact Core.simulates_seq (forall₂_imp_of_mem checked fun _ _ isItem checked =>
        simulated checked (supported.part isItem))
  | logic checked =>
      exact Core.simulates_logic (forall₂_imp_of_mem checked fun _ _ isItem checked =>
        ⟨checked.2, simulated checked.1 (supported.part isItem)⟩)
  | when testChecked truth bodyChecked noValue =>
      exact Core.simulates_when truth noValue
        (simulated testChecked (supported.operand List.mem_cons_self))
        (simulated bodyChecked (supported.part (by simp [Core.parts, Core.inPlace])))
  | cond testChecked truth yesChecked noChecked same =>
      exact Core.simulates_cond truth same
        (simulated testChecked (supported.operand List.mem_cons_self))
        (simulated yesChecked (supported.part (by simp [Core.parts, Core.inPlace])))
        (simulated noChecked (supported.part (by simp [Core.parts, Core.inPlace])))
  | «while» testChecked truth bodyChecked =>
      exact Core.simulates_while truth
        (simulated testChecked (supported.operand List.mem_cons_self))
        (simulated bodyChecked (supported.part (by simp [Core.parts, Core.inPlace])))
        (simulated whole supported)
  | @switch _ _ _ selectorCore defaultCore armCores _ selectorChecked selectorFits defaultChecked
      armsChecked =>
      refine Core.simulates_switch (TypeContext.isVoid_of_expectSelector selectorFits)
        (simulated selectorChecked (supported.operand List.mem_cons_self)) ?_
        (simulated defaultChecked (supported.part (by simp [Core.parts, Core.inPlace])))
      refine forall₂_imp_of_mem armsChecked fun _ arm isArm checked =>
        ⟨checked.labels, checked.typed, simulated checked.checked (supported.part ?_)⟩
      exact Core.branches_subset (.switch selectorCore armCores defaultCore)
        (List.mem_map_of_mem isArm)
  | @letPar _ _ cores bodyCore checked bodyChecked =>
      refine Core.simulates_letPar ?_ (simulated bodyChecked (supported.part (by simp [Core.parts])))
      refine forall₂_imp_of_mem checked fun _ clause isClause checked =>
        ⟨by rw [checked.binder]; rfl, by rw [checked.binder]; rfl,
          supported.values.binders _ (Core.mem_preorder_self _) _ (List.mem_map_of_mem isClause),
          simulated checked.checked (supported.operand (List.mem_map_of_mem isClause))⟩
  | @letSeq _ _ cores bodyCore _ checked bodyChecked =>
      refine Core.simulates_letSeq (ChecksInTurn.simulates simulated checked ?_ ?_)
        (simulated bodyChecked (supported.part (by simp [Core.parts])))
      · exact fun clause isClause => supported.operand (List.mem_map_of_mem isClause)
      · exact fun clause isClause =>
          supported.values.binders _ (Core.mem_preorder_self _) _ (List.mem_map_of_mem isClause)
  | letRec => exact simulates_of_failure fun _ => rfl
  | loop varsChecked named bodyChecked result crossing =>
      exact simulates_loop simulated varsChecked named bodyChecked result crossing supported
  | lambda bodyChecked crossing => exact simulates_lambda bodyChecked crossing supported
  | invoke functionChecked signature checked assignable =>
      refine Core.simulates_invoke simulated signature assignable
        (simulated functionChecked (supported.operand List.mem_cons_self)) ?_
      exact forall₂_imp_of_mem checked fun _ _ isArg checked =>
        simulated checked (supported.operand (List.mem_cons_of_mem _ isArg))
  | operation isOperation whole => exact simulates_operation simulated isOperation whole supported
  | tryCatch | tryFinally | pin => exact simulates_of_failure fun _ => rfl

end Nodes

/-- The code of every checked expression simulates it. -/
theorem simulated (linkage : Linkage) (limit fuel : Nat) : Expr.Simulated linkage limit fuel := by
  induction fuel with
  | zero => exact fun _ _ => simulates_of_failure fun _ => rfl
  | succ fuel ih => exact fun checked supported => checked.elaborates.simulates ih checked supported

end Expr

end ClassForge
