import ClassForge.Machine.Store

/-!
# Frames

The activation of a code body, and how control moves between its exception
blocks.
-/

namespace ClassForge

/-- A finally handler that is running, and what follows it. -/
inductive Pending where
  /-- Entered on the way to a position; `rest` are the handlers to run after
  this one. -/
  | leave (target : Nat) (rest : List Nat) (handler : Nat)
  /-- Entered while an exception looks for a handler; the search goes on with
  the given region. -/
  | unwind (exception : Value) (position nextRegion : Nat) (handler : Nat)
  deriving DecidableEq

/-- Position of the running handler. -/
def Pending.handler : Pending → Nat
  | leave _ _ handler => handler
  | unwind _ _ _ handler => handler

/-- The activation of a code body. -/
structure Frame where
  body : Body
  args : Array Value
  locals : Array Value
  /-- The evaluation stack, top first. -/
  stack : List Value
  /-- Position of the next instruction. -/
  position : Nat
  /-- The finally handlers that are running, innermost first. -/
  pending : List Pending
  deriving DecidableEq

namespace Frame

/-- Start a code body: its locals have their defaults. -/
def start (image : Image) (body : Body) (args : List Value) : Exec Frame := do
  let locals ← body.locals.toList.mapM fun decl => Exec.defaultValue image decl.type
  return {
    body, args := args.toArray, locals := locals.toArray, stack := [],
    position := 0, pending := [] }

/-- Release the arrays that the pinned locals of a frame hold in place. -/
def releasePins (frame : Frame) (heap : Heap) : Heap :=
  (frame.body.locals.toList.zip frame.locals.toList).foldl
    (fun heap (decl, value) => if decl.pinned then Memory.unpin heap value else heap)
    heap

/-- Go on in a catch handler.  Finally handlers of the region that were running
are given up. -/
def enterCatch (frame : Frame) (region : Region) (handler : Handler)
    (exception : Value) : Frame :=
  { frame with
    stack := [exception]
    position := handler.start
    pending := frame.pending.filter fun pending =>
      !(region.tryStart ≤ pending.handler && pending.handler < region.stop) }

/-- Go on in a finally handler while an exception looks for a handler. -/
def enterFinal (frame : Frame) (handler : Handler) (exception : Value)
    (position nextRegion : Nat) : Frame :=
  { frame with
    stack := []
    position := handler.start
    pending := .unwind exception position nextRegion handler.start :: frame.pending }

/-- Find where an exception that was raised at a position is handled, among
numbered regions.  Without a handler the frame is left. -/
def handlerAmong (image : Image) (frame : Frame) (exception : Value)
    (position : Nat) : List (Region × Nat) → Exec (Option Frame)
  | [] => return none
  | (region, index) :: regions => do
      if region.tryCovers position then
        let handler ← region.catches.findM? fun (type, _) =>
          Exec.isInstance image exception type
        if let some (_, handler) := handler then
          return some (frame.enterCatch region handler exception)
      if region.finalCovers position then
        if let some handler := region.final? then
          return some (frame.enterFinal handler exception position (index + 1))
      handlerAmong image frame exception position regions

/-- Find where an exception is handled, beginning with a region. -/
def unwind (image : Image) (frame : Frame) (exception : Value)
    (position firstRegion : Nat) : Exec (Option Frame) :=
  handlerAmong image frame exception position
    (frame.body.regions.zipIdx.drop firstRegion)

/-- The finally handlers between two positions, innermost first. -/
def finalsBetween (body : Body) (source target : Nat) : List Nat :=
  body.regions.filterMap fun region =>
    if region.finalCovers source &&
        !(region.tryStart ≤ target && target < region.stop) then
      region.final?.map Handler.start
    else
      none

/-- Go to a position by way of some finally handlers. -/
def leaveThrough (frame : Frame) (target : Nat) : List Nat → Frame
  | [] => { frame with stack := [], position := target }
  | handler :: rest =>
      { frame with
        stack := []
        position := handler
        pending := .leave target rest handler :: frame.pending }

end Frame

end ClassForge
