import ClassForge.Core.Program
import ClassForge.Lower.Expr

/-!
# Code bodies

The code of methods, constructors, functions and extracted blocks.  Each body
gives its arguments their places and then runs the code of an expression.
-/

namespace ClassForge

/-- The number of argument slots that instructions can name. -/
def maxArgs : Nat := 65536

/-- An argument slot that an instruction can name. -/
def argSlot (index : Nat) : Except Diagnostic Nat :=
  if index < maxArgs then .ok index
  else .error (.internal
    ("argument index " ++ toString index ++ " out of range"))

namespace LowerContext

/-! ## Arguments -/

/-- Bind parameters to the argument slots from `first` on.  A captured one is
moved to a cell. -/
def bindParams (context : LowerContext) :
    (params : List Binder) → (first : Nat) → Scope Binding →
      Lower (Scope Binding)
  | [], _, scope => return scope
  | param :: params, first, scope => do
      let slot ← argSlot first
      let binding ←
        if param.captured then do
          Lower.emit (.loadArg slot)
          context.newCell param.type true
        else
          pure { type := param.type, place := .argument slot, boxed := false }
      bindParams context params (first + 1) (scope.bind param.name binding)

/-- Bind captured variables to the leading arguments, which hold their cells. -/
def bindCells : (captures : List Param) → (first : Nat) → Scope Binding →
    Except Diagnostic (Scope Binding)
  | [], _, scope => return scope
  | capture :: captures, first, scope => do
      let slot ← argSlot first
      bindCells captures (first + 1)
        (scope.bind capture.name
          { type := capture.type, place := .argument slot, boxed := true })

/-- Bind captured variables to the fields of the receiver, which hold their
cells. -/
def bindFields (context : LowerContext) (closure : Closure) :
    (captures : List Param) → Scope Binding → Except Diagnostic (Scope Binding)
  | [], scope => return scope
  | capture :: captures, scope => do
      let field ← context.resolution.field (closure.fieldKey capture)
      bindFields context closure captures
        (scope.bind capture.name
          { type := capture.type, place := .receiverField field, boxed := true })

/-! ## Results -/

/-- The code of a whole body that returns a value of type `ret`. -/
def lowerResult (context : LowerContext) (body : Core) (ret : SourceTy)
    (scope : Scope Binding) : Lower Unit := do
  body.lower context scope (context.tailCalls && body.type = ret)
  if ret.isVoid then Lower.popValue body.type
  Lower.emit .ret

/-! ## Exception blocks -/

/-- Keep the value of a block until its region is closed. -/
def keepResult (result : Option Nat) : Lower Unit :=
  result.forM fun slot => Lower.emit (.storeLocal slot)

/-- Bind the exception on top of the stack, or drop it when the handler does not
mention it. -/
def bindException (context : LowerContext) (handler : CatchBinder)
    (scope : Scope Binding) : Lower (Scope Binding) :=
  match handler.binder with
  | none => do
      Lower.emit .pop
      return scope
  | some binder => do
      let binding ← context.bindTop binder.type binder.captured
      return scope.bind binder.name binding

/-- The code of a catch handler. -/
def lowerCatch (context : LowerContext) (handler : CatchBinder) (body : Core)
    (result : Option Nat) (scope : Scope Binding) : Lower Unit := do
  let type ← context.runTy handler.type
  Lower.ofEmit (Emitter.beginCatch type)
  let inner ← context.bindException handler scope
  body.lower context inner false
  keepResult result

/-- The code of a finally handler, whose value is dropped. -/
def lowerFinal (context : LowerContext) (final : Core) (scope : Scope Binding) :
    Lower Unit := do
  Lower.ofEmit Emitter.beginFinally
  final.lower context scope false
  Lower.popValue final.type

/-- The code of a `try` block.  Its value is that of the body or of the handler
that ran. -/
def lowerTry (context : LowerContext) (body : Core)
    (catches : List (CatchBinder × Core)) (final : Option Core)
    (scope : Scope Binding) : Lower Unit := do
  let result ←
    if body.type.isVoid then pure none
    else some <$> context.declareLocal body.type
  discard <| modifyGet Emitter.beginTry
  body.lower context scope false
  keepResult result
  catches.forM fun (handler, body) => context.lowerCatch handler body result scope
  final.forM fun final => context.lowerFinal final scope
  Lower.ofEmit Emitter.endTry
  result.forM fun slot => Lower.emit (.loadLocal slot)
  Lower.emit .ret

/-! ## Pinned arrays -/

/-- Pin the arrays in the argument slots from `first` on.  A pinned local holds
the address of the first element, and the variable that address as a number. -/
def bindPinned (context : LowerContext) :
    (arrays : List (Binder × Core)) → (first : Nat) → Scope Binding →
      Lower (Scope Binding)
  | [], _, scope => return scope
  | (binder, array) :: arrays, first, scope => do
      let some element := array.type.element?
        | throw (.invalidPinTarget array.type)
      let element ← context.runTy element
      let slot ← argSlot first
      Lower.emitAll
        [.loadArg slot, .const (.int32 0), .elementAddress element]
      let pinned ← Lower.ofEmit (Emitter.declareLocal element true)
      Lower.emitAll
        [.storeLocal pinned, .loadLocal pinned, .convert ⟨.intPtr, false, false⟩]
      let pointer ← context.bindTop .intPtr binder.captured
      bindPinned context arrays (first + 1) (scope.bind binder.name pointer)

/-- The code of a `pin` block, whose arrays are the arguments from `first` on. -/
def lowerPin (context : LowerContext) (arrays : List (Binder × Core)) (body : Core)
    (first : Nat) (scope : Scope Binding) : Lower Unit := do
  let inner ← context.bindPinned arrays first scope
  body.lower context inner false
  Lower.emit .ret

end LowerContext

/-! ## Bodies -/

/-- The body of a method. -/
def Routine.code (routine : Routine) (context : LowerContext) :
    Except Diagnostic Body :=
  Lower.assemble do
    let scope ← context.bindParams routine.params 0 .empty
    context.lowerResult routine.body routine.ret scope

/-- The body of a constructor: it calls the constructor of the base first. -/
def CtorRoutine.code (routine : CtorRoutine) (context : LowerContext) :
    Except Diagnostic Body :=
  Lower.assemble do
    let scope ← context.bindParams routine.params 0 .empty
    routine.base.forM fun base => do
      let ctor ← context.ctor base
      Lower.emit (.loadArg 0)
      Core.lowerAll context routine.baseArgs scope
      Lower.emit (.callCtor ctor)
    context.lowerResult routine.body .void scope

namespace Closure

/-- Store the cells in the arguments from `first` on in their fields. -/
def storeCells (closure : Closure) (context : LowerContext) :
    (captures : List Param) → (first : Nat) → Lower Unit
  | [], _ => return ()
  | capture :: captures, first => do
      let field ← context.resolution.field (closure.fieldKey capture)
      let slot ← argSlot first
      Lower.emitAll [.loadArg 0, .loadArg slot, .storeField field]
      storeCells closure context captures (first + 1)

/-- The body of the constructor, which stores the cells. -/
def ctorCode (closure : Closure) (context : LowerContext) :
    Except Diagnostic Body :=
  Lower.assemble do
    let base ← context.platformCtor .object []
    Lower.emitAll [.loadArg 0, .callCtor base]
    closure.storeCells context closure.captures 1
    Lower.emit .ret

/-- The body of the method that holds the code. -/
def invokeCode (closure : Closure) (context : LowerContext) :
    Except Diagnostic Body :=
  Lower.assemble do
    let outer ← context.bindFields closure closure.captures .empty
    let scope ← context.bindParams closure.params 1 outer
    context.lowerResult closure.body closure.ret scope

end Closure

/-- The body of the static method behind a block. -/
def Block.code (block : Block) (context : LowerContext) : Except Diagnostic Body :=
  Lower.assemble do
    let scope ← LowerContext.bindCells block.captures 0 .empty
    match block.core with
    | .tryCatch _ _ body catches => context.lowerTry body catches none scope
    | .tryFinally _ _ body catches final =>
        context.lowerTry body catches (some final) scope
    | .pin _ _ arrays body =>
        context.lowerPin arrays body block.captures.length scope
    | _ => return ()

end ClassForge
