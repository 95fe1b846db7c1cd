import ClassForge.Code.Body
import ClassForge.Image.Error

/-!
# Emitter

An emitter builds one code body.  It hands out labels and local slots, records
exception blocks and writes the instructions by which control leaves them.
Finishing it checks that every block is closed and every label has a position.

Operations that can be refused run in `Emit`, which keeps the emitter that an
operation has reached also when it is refused.
-/

namespace ClassForge

/-- A try block that has not been closed yet. -/
structure OpenRegion where
  /-- Label after the whole region. -/
  stop : Label
  tryStart : Nat
  /-- Set once the try block itself is complete. -/
  tryStop : Option Nat
  /-- The complete handlers. -/
  handlers : List Handler
  /-- Kind and start of the handler under construction. -/
  current : Option (HandlerKind × Nat)
  deriving DecidableEq

/-- A code body under construction. -/
structure Emitter where
  instrs : Array Instr := #[]
  /-- Positions of the labels that have one. -/
  labels : Array (Option Nat) := #[]
  locals : Array LocalDecl := #[]
  /-- The closed regions. -/
  regions : List Region := []
  /-- The open regions, innermost first. -/
  pending : List OpenRegion := []
  deriving DecidableEq

/-- Operations on an emitter that may be refused. -/
abbrev Emit := EStateM ImageError Emitter

namespace Emitter

/-- The most locals that a body can have. -/
def maxLocals : Nat := 65536

/-- Position of the next instruction. -/
def position (emitter : Emitter) : Nat :=
  emitter.instrs.size

/-- Append an instruction. -/
def emit (emitter : Emitter) (instr : Instr) : Emitter :=
  { emitter with instrs := emitter.instrs.push instr }

/-- Hand out a label without a position. -/
def defineLabel (emitter : Emitter) : Label × Emitter :=
  (⟨emitter.labels.size⟩, { emitter with labels := emitter.labels.push none })

/-- Give a label the current position. -/
def markLabel (label : Label) : Emit Unit := do
  let emitter ← get
  match emitter.labels[label.index]? with
  | some none =>
      set { emitter with
        labels := emitter.labels.setIfInBounds label.index (some emitter.position) }
  | some (some _) => throw (.labelMarkedTwice label.index)
  | none => throw (.unmarkedLabel label.index)

/-- Hand out a local slot. -/
def declareLocal (type : RunTy) (pinned : Bool) : Emit Nat := do
  let emitter ← get
  if emitter.locals.size < maxLocals then
    set { emitter with locals := emitter.locals.push ⟨type, pinned⟩ }
    return emitter.locals.size
  else
    throw .tooManyLocals

/-- Open a try block; the label is the position after the whole region. -/
def beginTry (emitter : Emitter) : Label × Emitter :=
  let (stop, emitter) := emitter.defineLabel
  let region : OpenRegion :=
    { stop, tryStart := emitter.position, tryStop := none, handlers := [],
      current := none }
  (stop, { emitter with pending := region :: emitter.pending })

/-- Write the exit of the innermost block and record its extent. -/
def closeBlock : Emit OpenRegion := do
  let emitter ← get
  match emitter.pending with
  | [] => throw (.blockMisuse .noOpenTry)
  | region :: outer =>
      let position := emitter.position + 1
      let (exit, closed) : Instr × OpenRegion :=
        match region.current with
        | none => (.leave region.stop, { region with tryStop := some position })
        | some (kind, start) =>
            (if kind = .final then .endFinally else .leave region.stop,
              { region with
                handlers := region.handlers ++ [⟨kind, start, position⟩]
                current := none })
      set { emitter.emit exit with pending := closed :: outer }
      return closed

/-- Replace the innermost open region. -/
def setInnermost (region : OpenRegion) : Emit Unit :=
  modify fun emitter => { emitter with pending := region :: emitter.pending.tail }

/-- Close the block before and open a handler that catches a type. -/
def beginCatch (type : RunTy) : Emit Unit := do
  let region ← closeBlock
  if region.handlers.any fun handler => handler.kind = .final then
    throw (.blockMisuse .catchAfterFinally)
  setInnermost { region with current := some (.catching type, (← get).position) }

/-- Close the block before and open a finally handler. -/
def beginFinally : Emit Unit := do
  let region ← closeBlock
  setInnermost { region with current := some (.final, (← get).position) }

/-- Close the last handler and the region. -/
def endTry : Emit Unit := do
  match (← get).pending with
  | [] => throw (.blockMisuse .noOpenTry)
  | region :: _ =>
      if region.current.isNone then throw (.blockMisuse .withoutHandlers)
  let region ← closeBlock
  modify fun emitter => { emitter with pending := emitter.pending.tail }
  markLabel region.stop
  modify fun emitter =>
    { emitter with
      regions := emitter.regions ++
        [⟨region.tryStart, region.tryStop.getD region.tryStart,
          region.handlers⟩] }

/-- Positions of the labels, all of which must have one. -/
def labelPositions (labels : List (Option Nat)) : Except ImageError (List Nat) :=
  labels.zipIdx.mapM fun
    | (some position, _) => .ok position
    | (none, index) => .error (.unmarkedLabel index)

/-- The finished body. -/
def finish (emitter : Emitter) : Except ImageError Body := do
  if !emitter.pending.isEmpty then
    throw (.blockMisuse .unterminated)
  let labels ← labelPositions emitter.labels.toList
  return {
    instrs := emitter.instrs
    labels := labels.toArray
    locals := emitter.locals
    regions := emitter.regions }

end Emitter

end ClassForge
