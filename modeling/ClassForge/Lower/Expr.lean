import ClassForge.Lower.Storage

/-!
# Code of expressions

The code of an expression leaves its value on the stack, if it has one.  A call
is in tail position when its value is the value of the whole body.

A boundary is a call or a function here; the code inside it belongs to another
body.
-/

namespace ClassForge

/-- The code that pushes a literal. -/
def Literal.code : Literal → List Instr
  | bool value => [.const (.int32 (if value then 1 else 0))]
  | char value => [.const (.int32 value.val.toInt32)]
  | int8 value => [.const (.int32 value.toInt32)]
  | uint8 value => [.const (.int32 value.toUInt32.toInt32)]
  | int16 value => [.const (.int32 value.toInt32)]
  | uint16 value => [.const (.int32 value.toUInt32.toInt32)]
  | int32 value => [.const (.int32 value)]
  | uint32 value => [.const (.int32 value.toInt32)]
  | int64 value => [.const (.int64 value)]
  | uint64 value => [.const (.int64 value.toInt64)]
  | intPtr value => [.const (.int64 value), .convert ⟨.intPtr, false, false⟩]
  | float32 value => [.const (.float32 value)]
  | float64 value => [.const (.float64 value)]
  | string value => [.const (.string value)]
  | null _ => [.const .null]

/-- The instruction that leaves a short-circuit connective early. -/
def Connective.exit : Connective → Label → Instr
  | and, label => .branchFalse label
  | or, label => .branchTrue label

/-- The value of a connective without operands. -/
def Connective.unit : Connective → Int32
  | and => 1
  | or => 0

/-- The jump table of a `switch`: where each value up to the largest label goes. -/
def jumpTable (default : Label) (arms : List (List UInt32 × Label))
    (largest : Nat) : List Label :=
  (List.range (largest + 1)).map fun value =>
    match arms.find? fun (labels, _) => labels.any fun label => label.toNat == value with
    | some (_, label) => label
    | none => default

namespace LowerContext

/-- The code of an action, once its operands are on the stack. -/
def lowerAction (context : LowerContext) : Action → Lower Unit
  | .code instrs => Lower.emitAll instrs
  | .routine owner name params => do
      let method ← context.platformMethod owner name false params
      Lower.emit (.call method false)
  | .onType action type => do
      let type ← context.runTy type
      Lower.emitAll (action.code type)

/-- The code of a member use around the code of its operands.  The handle is
found first. -/
def lowerMember (context : LowerContext) (use : MemberUse) (operands : Lower Unit)
    (tail : Bool) : Lower Unit := do
  match use with
  | .loadField target =>
      let field ← context.field target
      operands
      Lower.emit (if target.isStatic then .loadStatic field else .loadField field)
  | .storeField target =>
      let field ← context.field target
      operands
      Lower.emit (if target.isStatic then .storeStatic field else .storeField field)
  | .call callee =>
      let method ← context.method callee
      operands
      Lower.emitCall method (callee.isInstance && callee.isVirtual) tail
  | .write callee =>
      let method ← context.method callee
      operands
      Lower.emitCall method (callee.isInstance && callee.isVirtual) false
  | .new callee =>
      let ctor ← context.ctor callee
      operands
      Lower.emit (.newObject ctor)

/-- Push a function that shares the cells of captured variables. -/
def lowerClosure (context : LowerContext) (closure : Closure)
    (scope : Scope Binding) : Lower Unit := do
  scope.fetchCells closure.captures
  let ctor ← context.resolution.ctor closure.ctorKey
  Lower.emit (.newObject ctor)
  let invoke ← context.resolution.method closure.invokeKey
  Lower.emit (.loadFunction invoke)
  let delegate ← context.delegateCtor closure.delegateType
  Lower.emit (.newObject delegate)

/-- Call the static method behind a block, given the code that pushes its
arrays. -/
def lowerBlockCall (context : LowerContext) (block : Option Block)
    (captures : List Param) (arrays : Lower Unit) (scope : Scope Binding) :
    Lower Unit := do
  scope.fetchCells captures
  arrays
  match block with
  | some block =>
      let method ← context.resolution.method block.key
      Lower.emit (.call method false)
  | none => return ()

/-- Call the function of a loop with the initial values of its variables, which
are in local slots. -/
def lowerLoopCall (context : LowerContext) (closure : Closure)
    (function : Binder) (slots : List Nat) (scope : Scope Binding) (tail : Bool) :
    Lower Unit := do
  let binding ← context.bindFresh function.type function.captured
  let inner := scope.bind function.name binding
  context.store binding (context.lowerClosure closure inner)
  context.fetch binding
  slots.forM fun slot => Lower.emit (.loadLocal slot)
  let invoke ← context.delegateInvoke function.type
  Lower.emitCall invoke true tail

end LowerContext

namespace Core

variable (context : LowerContext)

mutual

/-- The code of an expression. -/
def lower : Core → Scope Binding → (tail : Bool) → Lower Unit
  | literal value, _, _ => Lower.emitAll value.code
  | var name _, scope, _ => do
      let binding ← scope.lookup name
      context.fetch binding
  | set name value, scope, _ => do
      let binding ← scope.lookup name
      context.store binding (lower value scope false)
  | seq items, scope, tail => lowerSeq items scope tail
  | logic connective items, scope, _ =>
      if items.isEmpty then
        Lower.emit (.const (.int32 connective.unit))
      else do
        let stop ← Lower.label
        lowerLogic items connective stop scope
        Lower.mark stop
  | when test body, scope, tail => do
      let stop ← Lower.label
      lower test scope false
      Lower.emit (.branchFalse stop)
      lower body scope tail
      Lower.mark stop
  | cond test yes no, scope, tail => do
      let stop ← Lower.label
      lower test scope false
      let otherwise ← Lower.label
      Lower.emit (.branchFalse otherwise)
      lower yes scope tail
      Lower.emit (.branch stop)
      Lower.mark otherwise
      lower no scope tail
      Lower.mark stop
  | .while test body, scope, _ => do
      let top ← Lower.label
      let stop ← Lower.label
      Lower.mark top
      lower test scope false
      Lower.emit (.branchFalse stop)
      lower body scope false
      Lower.popValue body.type
      Lower.emit (.branch top)
      Lower.mark stop
  | switch selector arms default, scope, tail => do
      lower selector scope false
      match (arms.flatMap fun (labels, _) => labels.map UInt32.toNat).max? with
      | none =>
          Lower.emit .pop
          lower default scope tail
      | some largest =>
          let otherwise ← Lower.label
          let stop ← Lower.label
          let targets ← arms.mapM fun (labels, _) => do
            let label ← Lower.label
            return (labels, label)
          Lower.emit (.switch (jumpTable otherwise targets largest))
          Lower.emit (.branch otherwise)
          lowerArms arms (targets.map (·.2)) stop scope tail
          Lower.mark otherwise
          lower default scope tail
          Lower.mark stop
  | letPar clauses body, scope, tail => do
      let bindings ← lowerNamed clauses scope
      lower body (scope.bindAll bindings) tail
  | letSeq clauses body, scope, tail => do
      let inner ← lowerClauses clauses scope
      lower body inner tail
  | letRec clauses body, scope, tail => do
      let bindings ← clauses.mapM fun (binder, _) => do
        let binding ← context.bindFresh binder.type binder.captured
        return (binder.name, binding)
      let inner := scope.bindAll bindings
      lowerStores clauses inner
      lower body inner tail
  | loop id function vars ret captures body, scope, tail => do
      let slots ← lowerTemps vars scope
      context.lowerLoopCall
        (.ofLoop context.host id (vars.map (·.1)) ret captures body)
        function slots scope tail
  | lambda id params captures body, scope, _ =>
      context.lowerClosure (.ofLambda context.host id params captures body) scope
  | invoke _ function args, scope, tail => do
      lower function scope false
      lowerAll args scope
      let invoke ← context.delegateInvoke function.type
      Lower.emitCall invoke true tail
  | apply _ action operands, scope, _ => do
      lowerAll operands scope
      context.lowerAction action
  | member _ use operands, scope, tail =>
      context.lowerMember use (lowerAll operands scope) tail
  | tryCatch id captures body catches, scope, _ =>
      context.lowerBlockCall ((tryCatch id captures body catches).block? context.host)
        captures (return ()) scope
  | tryFinally id captures body catches final, scope, _ =>
      context.lowerBlockCall
        ((tryFinally id captures body catches final).block? context.host)
        captures (return ()) scope
  | pin id captures arrays body, scope, _ =>
      context.lowerBlockCall ((pin id captures arrays body).block? context.host)
        captures (lowerArrays arrays scope) scope
termination_by structural core => core

/-- The code of operands, one after the other. -/
def lowerAll : List Core → Scope Binding → Lower Unit
  | [], _ => return ()
  | item :: items, scope => do
      lower item scope false
      lowerAll items scope
termination_by structural items => items

/-- The code of a sequence: all values but the last are dropped. -/
def lowerSeq : List Core → Scope Binding → (tail : Bool) → Lower Unit
  | [], _, _ => return ()
  | [item], scope, tail => lower item scope tail
  | item :: next :: items, scope, tail => do
      lower item scope false
      Lower.popValue item.type
      lowerSeq (next :: items) scope tail
termination_by structural items => items

/-- The code of the operands of a connective.  The value so far stays on the
stack while the exit is taken. -/
def lowerLogic : List Core → Connective → (stop : Label) → Scope Binding →
    Lower Unit
  | [], _, _, _ => return ()
  | [item], _, _, scope => lower item scope false
  | item :: next :: items, connective, stop, scope => do
      lower item scope false
      Lower.emitAll [.dup, connective.exit stop, .pop]
      lowerLogic (next :: items) connective stop scope
termination_by structural items => items

/-- The code of the arms of a `switch`, each at its label. -/
def lowerArms : List (List UInt32 × Core) → List Label → (stop : Label) →
    Scope Binding → (tail : Bool) → Lower Unit
  | (_, arm) :: arms, label :: labels, stop, scope, tail => do
      Lower.mark label
      lower arm scope tail
      Lower.emit (.branch stop)
      lowerArms arms labels stop scope tail
  | _, _, _, _, _ => return ()
termination_by structural arms => arms

/-- The code of clauses that all see the same scope. -/
def lowerNamed : List (Binder × Core) → Scope Binding →
    Lower (List (Name × Binding))
  | [], _ => return []
  | (binder, init) :: clauses, scope => do
      lower init scope false
      let binding ← context.bindTop binder.type binder.captured
      let bindings ← lowerNamed clauses scope
      return (binder.name, binding) :: bindings
termination_by structural clauses => clauses

/-- The code of clauses of which each sees the names before it. -/
def lowerClauses : List (Binder × Core) → Scope Binding → Lower (Scope Binding)
  | [], scope => return scope
  | (binder, init) :: clauses, scope => do
      lower init scope false
      let binding ← context.bindTop binder.type binder.captured
      lowerClauses clauses (scope.bind binder.name binding)
termination_by structural clauses => clauses

/-- The code that gives recursive variables their values, in order. -/
def lowerStores : List (Binder × Core) → Scope Binding → Lower Unit
  | [], _ => return ()
  | (binder, init) :: clauses, scope => do
      let binding ← scope.lookup binder.name
      context.store binding (lower init scope false)
      lowerStores clauses scope
termination_by structural clauses => clauses

/-- The code that puts the initial values of loop variables in local slots. -/
def lowerTemps : List (Binder × Core) → Scope Binding → Lower (List Nat)
  | [], _ => return []
  | (binder, init) :: vars, scope => do
      lower init scope false
      let slot ← context.storeTop binder.type
      let slots ← lowerTemps vars scope
      return slot :: slots
termination_by structural vars => vars

/-- The code that pushes the arrays of a `pin`. -/
def lowerArrays : List (Binder × Core) → Scope Binding → Lower Unit
  | [], _ => return ()
  | (_, array) :: arrays, scope => do
      lower array scope false
      lowerArrays arrays scope
termination_by structural arrays => arrays

end

/-- The arrays of a `pin` are operands. -/
theorem lowerArrays_eq_lowerAll (arrays : List (Binder × Core)) (scope : Scope Binding) :
    lowerArrays context arrays scope = lowerAll context (arrays.map (·.2)) scope := by
  induction arrays with
  | nil => rfl
  | cons array arrays ih => simp only [lowerArrays, List.map_cons, lowerAll, ih]

end Core

end ClassForge
