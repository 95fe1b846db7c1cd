import ClassForge.Code.Instr

/-!
# Actions

What happens to the operands of an operator node once their values are on the
stack.  Most actions are a fixed piece of code; the others call a routine of the
platform or mention a type whose handle is known only when code is generated.
-/

namespace ClassForge

/-- Instructions that take a type. -/
inductive TypeAction where
  | newArray
  | loadElement
  | storeElement
  | box
  | unbox
  | cast
  | test
  deriving DecidableEq, Repr

/-- What an operator node does with its operands. -/
inductive Action where
  | code (instrs : List Instr)
  /-- Call a static routine of the platform. -/
  | routine (owner : SourceTy) (name : Name) (params : List SourceTy)
  | onType (action : TypeAction) (type : SourceTy)
  deriving DecidableEq

namespace TypeAction

/-- The code of the action for a resolved type.  A test leaves a truth value in
place of the reference or null that the instruction pushes. -/
def code : TypeAction → RunTy → List Instr
  | newArray, type => [.newArray type]
  | loadElement, type => [.loadElement type]
  | storeElement, type => [.storeElement type]
  | box, type => [.box type]
  | unbox, type => [.unbox type]
  | cast, type => [.castClass type]
  | test, type => [.isInstance type, .const .null, .compare .gtUnsigned]

end TypeAction

namespace Action

/-- One instruction. -/
def instr (instr : Instr) : Action :=
  code [instr]

/-- A numeric conversion. -/
def convert (target : Prim) (checked unsignedSource : Bool) : Action :=
  instr (.convert { target, checked, unsignedSource })

/-- The types that an action mentions beyond those of its node and operands. -/
def types : Action → List SourceTy
  | onType .test type => [type]
  | _ => []

end Action

end ClassForge
