import ClassForge.Typing.Forms

/-!
# Checking expressions

Checking goes over an expression with the types of the names in scope and gives
the checked expression, or the first fault in evaluation order.
-/

namespace ClassForge

namespace Expr

variable (context : TypeContext)

mutual

/-- Check an expression. -/
def elaborate : Expr → Scope SourceTy → Checked Core
  | literal value, _ => do
      if let .null type := value then
        context.expectReference .nullLiteral type
      return .literal value
  | var name, scope => do
      let type ← scope.lookup name
      return .var name type
  | set name value, scope => do
      let type ← scope.lookup name
      let value ← elaborate value scope
      context.expectAssignable .assignment type value
      return .set name value
  | seq items, scope => do
      let items ← elaborateAll items scope
      return .seq items
  | logic connective items, scope => do
      let items ← elaborateTruths items scope
      return .logic connective items
  | when test body, scope => do
      let test ← elaborate test scope
      TypeContext.expectExact .ifCondition .bool test
      let body ← elaborate body scope
      TypeContext.expectExact .ifWithoutElse .void body
      return .when test body
  | cond test yes no, scope => do
      let test ← elaborate test scope
      TypeContext.expectExact .ifCondition .bool test
      let yes ← elaborate yes scope
      let no ← elaborate no scope
      TypeContext.expectExact .elseBranch yes.type no
      return .cond test yes no
  | .while test body, scope => do
      let test ← elaborate test scope
      TypeContext.expectExact .whileCondition .bool test
      let body ← elaborate body scope
      return .while test body
  | switch selector arms default, scope => do
      TypeContext.checkLabels (arms.flatMap (·.1))
      let selector ← elaborate selector scope
      TypeContext.expectSelector selector
      let default ← elaborate default scope
      let arms ← elaborateArms arms default.type scope
      return .switch selector arms default
  | letPar clauses body, scope => do
      let clauses ← elaborateNamed clauses (usage body) scope
      let body ← elaborate body
        (scope.bindAll (clauses.map fun (binder, _) => (binder.name, binder.type)))
      return .letPar clauses body
  | letSeq clauses body, scope => do
      let (clauses, inner) ← elaborateSeq clauses (usage body) scope
      let body ← elaborate body inner
      return .letSeq clauses body
  | letRec clauses body, scope => do
      let inner := scope.bindAll
        (clauses.map fun (param, _) => (param.name, param.type))
      let whole := (Usage.unionAll ((typedUsages clauses).map (·.2))).union (usage body)
      let clauses ← elaborateTyped clauses .letrecInitializer whole inner
      let body ← elaborate body inner
      return .letRec clauses body
  | loop id name vars ret body, scope => do
      let crossing := Usage.moved (vars.map fun (param, _) => param.name) (usage body)
      let vars ← elaborateTyped vars .loopInitializer (usage body) scope
      let params := vars.map fun (binder, _) => binder.type
      let function := Binder.of crossing name (.delegate params ret)
      let outer := scope.bind name function.type
      let body ← elaborate body
        (outer.bindAll (vars.map fun (binder, _) => (binder.name, binder.type)))
      context.expectResult .loopBody ret body
      let captures ← TypeContext.captureTypes outer crossing
      return .loop id function vars ret captures body
  | lambda id params body, scope => do
      let crossing := Usage.moved (params.map Param.name) (usage body)
      let binders := params.map fun param =>
        Binder.of (usage body) param.name param.type
      let body ← elaborate body
        (scope.bindAll (params.map fun param => (param.name, param.type)))
      let captures ← TypeContext.captureTypes scope crossing
      return .lambda id binders captures body
  | invoke function args, scope => do
      let function ← elaborate function scope
      let (params, ret) ← TypeContext.expectDelegate function args.length
      let args ← elaborateArgs args params scope
      return .invoke ret function args
  | unary form operand, scope =>
      context.unaryCore form (elaborate operand scope)
  | binary form left right, scope =>
      context.binaryCore form (elaborate left scope) (elaborate right scope)
  | ternary form first second third, scope =>
      context.ternaryCore form (elaborate first scope) (elaborate second scope)
        (elaborate third scope)
  | staticField owner name, _ => context.loadField owner name true []
  | staticProperty owner name, _ => context.loadProperty owner name true []
  | staticCall owner name args, scope => do
      let args ← elaborateAll args scope
      context.callMethod owner name [] args
  | call receiver name args, scope => do
      let receiver ← elaborate receiver scope
      TypeContext.expectReceiver receiver
      let args ← elaborateAll args scope
      context.callMethod receiver.type name [receiver] args
  | new type args, scope => do
      context.expectConcrete type
      let args ← elaborateAll args scope
      let ctor ← context.selectCtor type args
      return .member type (.new ctor) args
  | tryCatch id body catches, scope => do
      let crossing := Usage.guarded (usage body) (typedUsages catches) none
      if catches.isEmpty then
        throw (.invalidDeclaration ("try block " ++ toString id) .tryWithoutHandler)
      let body ← elaborate body scope
      let catches ← elaborateCatches catches body.type scope
      let captures ← TypeContext.captureTypes scope crossing
      return .tryCatch id captures body catches
  | tryFinally id body catches final, scope => do
      let crossing :=
        Usage.guarded (usage body) (typedUsages catches) (some (usage final))
      let body ← elaborate body scope
      let catches ← elaborateCatches catches body.type scope
      let final ← elaborate final scope
      let captures ← TypeContext.captureTypes scope crossing
      return .tryFinally id captures body catches final
  | pin id arrays body, scope => do
      let crossing := Usage.moved (arrays.map (·.1)) (usage body)
      let inner := scope.bindAll (arrays.map fun (name, _) => (name, .intPtr))
      let arrays ← elaborateArrays arrays (usage body) scope
      let body ← elaborate body inner
      let captures ← TypeContext.captureTypes scope crossing
      return .pin id captures arrays body
termination_by structural expr => expr

/-- Check the members of a list. -/
def elaborateAll : List Expr → Scope SourceTy → Checked (List Core)
  | [], _ => .ok []
  | item :: items, scope => do
      let item ← elaborate item scope
      let items ← elaborateAll items scope
      return item :: items
termination_by structural items => items

/-- Check operands of a connective, which are truth values. -/
def elaborateTruths : List Expr → Scope SourceTy → Checked (List Core)
  | [], _ => .ok []
  | item :: items, scope => do
      let item ← elaborate item scope
      TypeContext.expectExact .logicalOperand .bool item
      let items ← elaborateTruths items scope
      return item :: items
termination_by structural items => items

/-- Check the arguments of a function call against its parameters. -/
def elaborateArgs : List Expr → List SourceTy → Scope SourceTy → Checked (List Core)
  | arg :: args, param :: params, scope => do
      let arg ← elaborate arg scope
      context.expectAssignable .delegateArgument param arg
      let args ← elaborateArgs args params scope
      return arg :: args
  | _, _, _ => .ok []
termination_by structural args => args

/-- Check the arms of a `switch`, which are of one type. -/
def elaborateArms : List (List UInt32 × Expr) → SourceTy → Scope SourceTy →
    Checked (List (List UInt32 × Core))
  | [], _, _ => .ok []
  | (labels, arm) :: arms, type, scope => do
      let arm ← elaborate arm scope
      TypeContext.expectExact .switchArm type arm
      let arms ← elaborateArms arms type scope
      return (labels, arm) :: arms
termination_by structural arms => arms

/-- Check clauses that all see the same scope; `body` uses their names. -/
def elaborateNamed : List (Name × Expr) → (body : Usage) → Scope SourceTy →
    Checked (List (Binder × Core))
  | [], _, _ => .ok []
  | (name, init) :: clauses, body, scope => do
      let init ← elaborate init scope
      let clauses ← elaborateNamed clauses body scope
      return (Binder.of body name init.type, init) :: clauses
termination_by structural clauses => clauses

/-- Check clauses of which each sees the names before it.  The result includes
the scope of the body. -/
def elaborateSeq : List (Name × Expr) → (body : Usage) → Scope SourceTy →
    Checked (List (Binder × Core) × Scope SourceTy)
  | [], _, scope => .ok ([], scope)
  | (name, init) :: clauses, body, scope => do
      let rest := Usage.sequential (namedUsages clauses) body
      let init ← elaborate init scope
      let (clauses, inner) ← elaborateSeq clauses body (scope.bind name init.type)
      return ((Binder.of rest name init.type, init) :: clauses, inner)
termination_by structural clauses => clauses

/-- Check clauses with declared types; `uses` tells how their names are used. -/
def elaborateTyped : List (Param × Expr) → Site → (uses : Usage) →
    Scope SourceTy → Checked (List (Binder × Core))
  | [], _, _, _ => .ok []
  | (param, init) :: clauses, site, uses, scope => do
      let init ← elaborate init scope
      context.expectAssignable site param.type init
      let clauses ← elaborateTyped clauses site uses scope
      return (Binder.of uses param.name param.type, init) :: clauses
termination_by structural clauses => clauses

/-- Check the handlers of a `try`, which are of the type of its body. -/
def elaborateCatches : List (Param × Expr) → SourceTy → Scope SourceTy →
    Checked (List (CatchBinder × Core))
  | [], _, _ => .ok []
  | (param, handler) :: catches, type, scope => do
      let uses := usage handler
      context.expectException param.type
      let handler ← elaborate handler (scope.bind param.name param.type)
      TypeContext.expectExact .catchClause type handler
      let catches ← elaborateCatches catches type scope
      let binder := (uses.get? param.name).map fun _ =>
        Binder.of uses param.name param.type
      return ({ type := param.type, binder }, handler) :: catches
termination_by structural catches => catches

/-- Check the arrays of a `pin`; `body` uses the pointers to them. -/
def elaborateArrays : List (Name × Expr) → (body : Usage) → Scope SourceTy →
    Checked (List (Binder × Core))
  | [], _, _ => .ok []
  | (name, array) :: arrays, body, scope => do
      let array ← elaborate array scope
      TypeContext.expectPinnable array
      let arrays ← elaborateArrays arrays body scope
      return (Binder.of body name .intPtr, array) :: arrays
termination_by structural arrays => arrays

end

end Expr

end ClassForge
