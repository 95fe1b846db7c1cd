import ClassForge.Machine.Execute
import ClassForge.Machine.Native

/-!
# Running

A machine runs one level of calls at a time; the levels below wait for it.  A
call opens a level and its end closes it, while a tail call stays on the level
of its caller.  `step` is one transition of the machine and `run` iterates it.
-/

namespace ClassForge

/-- A level that waits for the one above it. -/
inductive Level where
  /-- A frame that has called something. -/
  | caller (frame : Frame) (isCtor : Bool) (onReturn : OnReturn)
  /-- A constructor that has ended in a tail call; it only passes results on. -/
  | passing
  deriving DecidableEq

/-- What the topmost level is about to do. -/
inductive Focus where
  | execute (frame : Frame) (isCtor : Bool)
  | begin (request : Request)
  /-- End with a value. -/
  | deliver (value : Value)
  /-- End with an exception. -/
  | raise (exception : Value)
  deriving DecidableEq

/-- How a run ends. -/
inductive Outcome where
  | value (value : Value)
  | exception (exception : Value)
  | error (error : RunError)
  deriving DecidableEq

/-- A machine in the middle of a run. -/
structure Config where
  focus : Focus
  /-- The waiting levels, topmost first. -/
  levels : List Level
  /-- Number of levels that may still be opened. -/
  room : Nat
  store : Store
  deriving DecidableEq

/-- Where one transition leads. -/
inductive Progress where
  | running (config : Config)
  | finished (outcome : Outcome) (store : Store)
  deriving DecidableEq

namespace Store

/-- Release the pins of a frame that is left. -/
def releasePins (store : Store) (frame : Frame) : Store :=
  { store with heap := frame.releasePins store.heap }

end Store

namespace Level

/-- The frame that waits on a level. -/
def frame? : Level → Option Frame
  | caller frame _ _ => some frame
  | passing => none

end Level

namespace Machine

/-- End a run with an error: every frame is left, the topmost first. -/
def fail (error : RunError) (frames : List Frame) (store : Store) : Progress :=
  .finished (.error error) (frames.foldl Store.releasePins store)

/-- Open a level for a request, unless there are too many. -/
def enter (limit : Nat) (request : Request) (levels : List Level) (room : Nat)
    (store : Store) : Progress :=
  match room with
  | 0 => fail (.stackOverflow limit) (levels.filterMap Level.frame?) store
  | room + 1 => .running { focus := .begin request, levels, room, store }

/-- The method that a call runs: the receiver of a virtual call decides. -/
def dispatch (image : Image) (method : MethodHandle) (args : List Value) :
    Exec MethodHandle := do
  let info ← Exec.ofImage (image.method method)
  if info.attrs.isStatic then
    return method
  let receiver ← Exec.require args.head? .callWithoutReceiver
  if receiver.isNull then
    Exec.raise image .nullReference
  if !info.attrs.isVirtual then
    return method
  let lineage := match Store.typeOf? image (← Exec.heap) receiver with
    | some handle => image.lineage handle
    | none => []
  let overriding := (lineage.flatMap image.methodsOf).find? fun (_, candidate) =>
    candidate.name == info.name && candidate.params == info.params &&
      !candidate.attrs.isStatic && !candidate.attrs.isAbstract
  match overriding with
  | some (handle, _) => return handle
  | none =>
      if info.attrs.isAbstract then
        throw (.fatal (.noBody (image.methodLabel info)))
      return method

/-- Begin a method: run a built-in one, or start the frame of its code. -/
def beginMethod (image : Image) (call : Call) : Exec Focus := do
  let method ← if call.isVirtual then dispatch image call.method call.args
    else pure call.method
  let info ← Exec.ofImage (image.method method)
  if !info.attrs.isStatic && call.args.head?.all Value.isNull then
    Exec.raise image .nullReference
  match info.implementation with
  | .missing => throw (.fatal (.noBody (image.methodLabel info)))
  | .native native =>
      match ← native.run image call.args with
      | .value value => return .deliver value
      | .call method args =>
          return .begin (.method { method, args, isVirtual := false })
  | .code body => return .execute (← Frame.start image body call.args) false

/-- Begin a constructor. -/
def beginCtor (image : Image) (handle : CtorHandle) (args : List Value) :
    Exec Focus := do
  let info ← Exec.ofImage (image.ctor handle)
  match info.implementation with
  | .missing => throw (.fatal (.noBody (image.ctorLabel info)))
  | .native native =>
      discard <| native.run image args
      return .deliver .null
  | .code body => return .execute (← Frame.start image body args) true

/-- Begin a request on a level of its own. -/
def begin (image : Image) : Request → Exec Focus
  | .method call => beginMethod image call
  | .ctor handle args => beginCtor image handle args

/-- Let an exception that reached a frame look for a handler there. -/
def handle (image : Image) (frame : Frame) (isCtor : Bool) (exception : Value)
    (position firstRegion : Nat) (levels : List Level) (room : Nat)
    (store : Store) : Progress :=
  match (frame.unwind image exception position firstRegion).run store with
  | .ok (some frame) store =>
      .running { focus := .execute frame isCtor, levels, room, store }
  | .ok none store =>
      .running
        { focus := .raise exception, levels, room, store := store.releasePins frame }
  | .error (.throw exception) store =>
      .running
        { focus := .raise exception, levels, room, store := store.releasePins frame }
  | .error (.fatal error) store =>
      fail error (frame :: levels.filterMap Level.frame?) store

/-- Go on after an instruction of the topmost frame. -/
def follow (image : Image) (limit : Nat) (frame : Frame) (isCtor : Bool)
    (flow : Flow) (levels : List Level) (room : Nat) (store : Store) : Progress :=
  match flow with
  | .next => .running { focus := .execute frame isCtor, levels, room, store }
  | .ret value =>
      .running
        { focus := .deliver value, levels, room, store := store.releasePins frame }
  | .tailCall call =>
      let store := store.releasePins frame
      if isCtor then
        enter limit (.method call) (.passing :: levels) room store
      else
        .running { focus := .begin (.method call), levels, room, store }
  | .enter request onReturn =>
      enter limit request (.caller frame isCtor onReturn :: levels) room store
  | .resume exception position nextRegion =>
      handle image frame isCtor exception position nextRegion levels room store

/-- One transition of a machine. -/
def step (image : Image) (limit : Nat) (config : Config) : Progress :=
  let { focus, levels, room, store } := config
  match focus with
  | .execute frame isCtor =>
      let current := frame.position
      match frame.body.instrs[current]? with
      | none =>
          fail (.invalidProgram .pastEnd)
            (frame :: levels.filterMap Level.frame?) store
      | some instr =>
          let next := { frame with position := current + 1 }
          match ((FrameStep.execute image current instr).run next).run store with
          | .ok (flow, frame) store =>
              follow image limit frame isCtor flow levels room store
          | .error (.throw exception) store =>
              handle image next isCtor exception current 0 levels room store
          | .error (.fatal error) store =>
              fail error (frame :: levels.filterMap Level.frame?) store
  | .begin request =>
      match (begin image request).run store with
      | .ok focus store => .running { focus, levels, room, store }
      | .error (.throw exception) store =>
          .running { focus := .raise exception, levels, room, store }
      | .error (.fatal error) store =>
          fail error (levels.filterMap Level.frame?) store
  | .deliver value =>
      match levels with
      | [] => .finished (.value value) store
      | .passing :: levels =>
          .running { focus := .deliver value, levels, room := room + 1, store }
      | .caller frame isCtor onReturn :: levels =>
          let stack := match onReturn with
            | .push => value :: frame.stack
            | .drop => frame.stack
            | .object object => object :: frame.stack
          .running
            { focus := .execute { frame with stack } isCtor, levels,
              room := room + 1, store }
  | .raise exception =>
      match levels with
      | [] => .finished (.exception exception) store
      | .passing :: levels =>
          .running { focus := .raise exception, levels, room := room + 1, store }
      | .caller frame isCtor _ :: levels =>
          handle image frame isCtor exception (frame.position - 1) 0 levels
            (room + 1) store

/-- Iterate `step` until the run ends, for at most `fuel` steps. -/
def run (image : Image) (limit : Nat) : (fuel : Nat) → Config →
    Option (Outcome × Store)
  | 0, _ => none
  | fuel + 1, config =>
      match step image limit config with
      | .running config => run image limit fuel config
      | .finished outcome store => some (outcome, store)

end Machine

end ClassForge
