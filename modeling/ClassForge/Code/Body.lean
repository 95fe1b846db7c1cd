import ClassForge.Code.Instr

/-!
# Code bodies

The finished code of a method or constructor: instructions, the positions of
the labels, the locals, and the exception blocks.
-/

namespace ClassForge

/-- A local variable of a code body. -/
structure LocalDecl where
  type : RunTy
  /-- While the local holds the address of an element, the array stays in
  place. -/
  pinned : Bool
  deriving DecidableEq

/-- When a handler is entered. -/
inductive HandlerKind where
  /-- On an exception of the given type, which is then on the stack. -/
  | catching (type : RunTy)
  /-- Whenever control leaves the blocks before it. -/
  | final
  deriving DecidableEq

/-- A handler with the positions of its first instruction and of the first one
after it. -/
structure Handler where
  kind : HandlerKind
  start : Nat
  stop : Nat
  deriving DecidableEq

/-- A try block with its handlers.  Catch handlers protect the try block.  A
finally handler protects the try block and the catch handlers before it. -/
structure Region where
  tryStart : Nat
  tryStop : Nat
  handlers : List Handler
  deriving DecidableEq

/-- A finished code body.  A region that lies inside another one comes before
it in the list. -/
structure Body where
  instrs : Array Instr
  /-- Position of each label. -/
  labels : Array Nat
  locals : Array LocalDecl
  regions : List Region
  deriving DecidableEq

/-- A local variable as listings print it. -/
def LocalDecl.text (decl : LocalDecl) : String :=
  (if decl.pinned then "pinned " else "") ++ decl.type.text

/-- The start of a handler as listings print it. -/
def HandlerKind.text : HandlerKind → String
  | catching type => "catch " ++ type.text
  | final => "finally"

/-- The type of the exceptions that a handler catches. -/
def HandlerKind.caught? : HandlerKind → Option RunTy
  | catching type => some type
  | final => none

namespace Region

/-- The catch handlers with the types that they catch, in order. -/
def catches (region : Region) : List (RunTy × Handler) :=
  region.handlers.filterMap fun handler =>
    handler.kind.caught?.map fun type => (type, handler)

/-- The first finally handler. -/
def final? (region : Region) : Option Handler :=
  region.handlers.find? fun handler => handler.kind = .final

/-- Whether an exception raised at a position is offered to the catch
handlers. -/
def tryCovers (region : Region) (position : Nat) : Bool :=
  region.tryStart ≤ position && position < region.tryStop

/-- Whether control that leaves a position has to run the finally handler. -/
def finalCovers (region : Region) (position : Nat) : Bool :=
  region.final?.any fun handler =>
    region.tryStart ≤ position && position < handler.start

/-- Position after the whole region. -/
def stop (region : Region) : Nat :=
  match region.handlers.map Handler.stop with
  | [] => region.tryStop
  | stops => stops.foldl Nat.max 0

end Region

/-- The position of a label. -/
def Body.target? (body : Body) (label : Label) : Option Nat :=
  body.labels[label.index]?

end ClassForge
