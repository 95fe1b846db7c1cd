import ClassForge.Code.Emitter
import ClassForge.Core.Lifted
import ClassForge.Image.Reflect
import ClassForge.Resolution
import ClassForge.Scope

/-!
# Generating code

Code is generated by extending an emitter.  Handles of declared items are known
from the build so far, handles of platform items from the image.
-/

namespace ClassForge

/-- What generating code can consult. -/
structure LowerContext where
  image : Image
  resolution : Resolution
  /-- The class that the source of the code stands in. -/
  host : Name
  /-- Whether calls in tail position give up their frame. -/
  tailCalls : Bool

/-- Actions that generate code. -/
abbrev Lower := StateT Emitter (Except Diagnostic)

namespace Lower

variable {α : Type}

/-- Append an instruction. -/
def emit (instr : Instr) : Lower Unit :=
  modify fun emitter => emitter.emit instr

/-- Append instructions. -/
def emitAll (instrs : List Instr) : Lower Unit :=
  instrs.forM emit

/-- A new label. -/
def label : Lower Label :=
  modifyGet Emitter.defineLabel

/-- An operation of the emitter. -/
def ofEmit (action : Emit α) : Lower α := fun emitter =>
  match action.run emitter with
  | .ok value emitter => .ok (value, emitter)
  | .error error _ => .error (.target error)

/-- Give a label the current position. -/
def mark (label : Label) : Lower Unit :=
  ofEmit (Emitter.markLabel label)

/-- A request to the image. -/
def ofImage (result : Except ImageError α) : Lower α :=
  match result with
  | .ok value => return value
  | .error error => throw (.target error)

/-- Drop the value of an expression of a type, if it has one. -/
def popValue (type : SourceTy) : Lower Unit :=
  if type.isVoid then return () else emit .pop

/-- Call a method.  A tail call also returns: its result is that of the frame. -/
def emitCall (method : MethodHandle) (isVirtual tail : Bool) : Lower Unit := do
  emit (if isVirtual then .callVirtual method tail else .call method tail)
  if tail then emit .ret

/-- The body that some code amounts to. -/
def assemble (action : Lower Unit) : Except Diagnostic Body := do
  let ((), emitter) ← action.run {}
  match emitter.finish with
  | .ok body => return body
  | .error error => throw (.target error)

end Lower

namespace LowerContext

/-! ## Handles -/

/-- A type with handles in place of names. -/
def runTy (context : LowerContext) (type : SourceTy) : Except Diagnostic RunTy :=
  context.resolution.runTy type

/-- Types with handles in place of names. -/
def runTys (context : LowerContext) (types : List SourceTy) :
    Except Diagnostic (List RunTy) :=
  context.resolution.runTys types

/-- Handle of a method of a platform type. -/
def platformMethod (context : LowerContext) (owner : SourceTy) (name : Name)
    (isInstance : Bool) (params : List SourceTy) : Lower MethodHandle := do
  let owner ← context.runTy owner
  let params ← context.runTys params
  Lower.ofImage (context.image.resolveMethod owner name isInstance params)

/-- Handle of a constructor of a platform type. -/
def platformCtor (context : LowerContext) (owner : SourceTy)
    (params : List SourceTy) : Lower CtorHandle := do
  let owner ← context.runTy owner
  let params ← context.runTys params
  Lower.ofImage (context.image.resolveCtor owner params)

/-- Handle of a method that a call refers to. -/
def method (context : LowerContext) (callee : Callee) : Lower MethodHandle :=
  match callee.methodKey? with
  | some key => context.resolution.method key
  | none =>
      context.platformMethod callee.owner callee.name callee.isInstance callee.params

/-- Handle of a constructor that a call refers to. -/
def ctor (context : LowerContext) (callee : Callee) : Lower CtorHandle :=
  match callee.ctorKey? with
  | some key => context.resolution.ctor key
  | none => context.platformCtor callee.owner callee.params

/-- Handle of a field that an access refers to. -/
def field (context : LowerContext) (target : FieldTarget) : Lower FieldHandle :=
  match target.key? with
  | some key => context.resolution.field key
  | none => do
      let owner ← context.runTy target.owner
      Lower.ofImage (context.image.resolveField owner target.name)

/-- Handle of the constructor of a function type. -/
def delegateCtor (context : LowerContext) (delegate : SourceTy) : Lower CtorHandle :=
  context.platformCtor delegate [.object, .intPtr]

/-- Handle of the call of a function type. -/
def delegateInvoke (context : LowerContext) (delegate : SourceTy) :
    Lower MethodHandle :=
  match delegate.signature? with
  | some (params, _) =>
      context.platformMethod delegate Closure.invokeName true params
  | none => throw (.notADelegate delegate)

/-! ## Locals -/

/-- A new local slot. -/
def declareLocal (context : LowerContext) (type : SourceTy) : Lower Nat := do
  let type ← context.runTy type
  Lower.ofEmit (Emitter.declareLocal type false)

/-- Store the value on top of the stack in a new local slot. -/
def storeTop (context : LowerContext) (type : SourceTy) : Lower Nat := do
  let slot ← context.declareLocal type
  Lower.emit (.storeLocal slot)
  return slot

end LowerContext

end ClassForge
