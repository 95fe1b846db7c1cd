import ClassForge.Proofs.Machine.DisciplinedCode
import ClassForge.Proofs.Machine.FrameSteps

/-!
# Disciplined frames

A frame holds the values of its variables in the way that a store holds its contents.  The receiver
of an instance method or a constructor is the exception: it is not copied when it is passed, so it
is only there, as are the values on the stack.  Instructions keep a discipline of all of this, and
so does everything else that a frame goes through.
-/

namespace ClassForge

/-! ## Values of a frame -/

/-- What the pinned ones among some locals hold. -/
def LocalDecl.pinsOf (decls : List LocalDecl) (values : List Value) : List Value :=
  (decls.zip values).filterMap fun (decl, value) => if decl.pinned then some value else none

/-- The exception that waits for a finally handler to end. -/
def Pending.exception? : Pending → Option Value
  | leave _ _ _ => none
  | unwind exception _ _ _ => some exception

namespace Frame

/-- What the pinned locals of a frame hold. -/
def pins (frame : Frame) : List Value :=
  LocalDecl.pinsOf frame.body.locals.toList frame.locals.toList

/-- The values of the variables of a frame, without its receiver if it has one. -/
def storage (frame : Frame) (hasReceiver : Bool) : List Value :=
  frame.locals.toList ++ frame.args.toList.drop hasReceiver.toNat

/-- The values that are there in a frame, without its locals. -/
def temps (frame : Frame) : List Value :=
  frame.stack ++ (frame.args.toList ++ frame.pending.filterMap Pending.exception?)

/-- The variables of a frame stay the same. -/
structure SameVariables (frame later : Frame) : Prop where
  body : later.body = frame.body
  args : later.args = frame.args
  locals : later.locals = frame.locals

variable {frame later : Frame}

theorem SameVariables.pins (same : frame.SameVariables later) : later.pins = frame.pins := by
  rw [Frame.pins, same.body, same.locals, Frame.pins]

theorem SameVariables.storage (same : frame.SameVariables later) (hasReceiver : Bool) :
    later.storage hasReceiver = frame.storage hasReceiver := by
  rw [Frame.storage, same.args, same.locals, Frame.storage]

end Frame

namespace LocalDecl

variable {decls : List LocalDecl} {values : List Value} {slot : Nat} {old : Value}

theorem pinsOf_cons {decl : LocalDecl} {value : Value} : pinsOf (decl :: decls) (value :: values) =
      if decl.pinned then value :: pinsOf decls values else pinsOf decls values := by
  cases isPinned : decl.pinned <;> simp [pinsOf, isPinned]

/-- A pinned local gives up one value for another. -/
theorem pinsOf_set_pinned {decl : LocalDecl} (isDecl : decls[slot]? = some decl)
    (isPinned : decl.pinned = true) (isOld : values[slot]? = some old) (value : Value) :
    ∃ others, (pinsOf decls values).Perm (old :: others) ∧
      (pinsOf decls (values.set slot value)).Perm (value :: others) := by
  induction decls generalizing values slot with
  | nil => cases isDecl
  | cons first decls ih =>
      cases values with
      | nil => cases isOld
      | cons head values =>
          cases slot with
          | zero =>
              cases isDecl
              cases isOld
              refine ⟨pinsOf decls values, .of_eq ?_, .of_eq ?_⟩
              · rw [pinsOf_cons, if_pos isPinned]
              · rw [List.set_cons_zero, pinsOf_cons, if_pos isPinned]
          | succ slot =>
              obtain ⟨others, before, after⟩ := ih isDecl isOld
              rw [List.set_cons_succ, pinsOf_cons, pinsOf_cons]
              cases first.pinned with
              | true =>
                  exact ⟨head :: others, (before.cons head).trans (.swap ..),
                    (after.cons head).trans (.swap ..)⟩
              | false => exact ⟨others, before, after⟩

theorem pinsOf_set_of_not_pinned (isFree : (decls[slot]?).any pinned = false) (value : Value) :
    pinsOf decls (values.set slot value) = pinsOf decls values := by
  induction decls generalizing values slot with
  | nil => simp [pinsOf]
  | cons first decls ih =>
      cases values with
      | nil => rfl
      | cons head values =>
          cases slot with
          | zero =>
              have notPinned : first.pinned = false := by simpa using isFree
              rw [List.set_cons_zero, pinsOf_cons, pinsOf_cons, notPinned]
              rfl
          | succ slot =>
              rw [List.set_cons_succ, pinsOf_cons, pinsOf_cons, ih (by simpa using isFree)]

end LocalDecl

/-! ## Values of a request -/

namespace Request

/-- The arguments of a call. -/
def args : Request → List Value
  | method call => call.args
  | ctor _ args => args

/-- Whether the first argument is a receiver. -/
def passesReceiver (image : Image) : Request → Bool
  | method call => (image.method? call.method).any fun info => !info.attrs.isStatic
  | ctor _ _ => true

/-- The arguments that are passed by value. -/
def storage (image : Image) (request : Request) : List Value :=
  request.args.drop (request.passesReceiver image).toNat

/-- A request may run the constructor of a function: it is one, or there is a method that works in
this way. -/
def MakesFunction (image : Image) : Request → Prop
  | method _ => ∃ handle info, image.method? handle = some info ∧
      info.implementation = .native .delegateCtor
  | ctor handle _ => ∃ info, image.ctor? handle = some info ∧
      info.implementation = .native .delegateCtor

end Request

/-- The value that is there while a frame waits for what it called. -/
def OnReturn.value? : OnReturn → Option Value
  | push | drop => none
  | object value => some value

namespace Discipline

variable {image : Image} {rule : Discipline image} {owned pinned : List Value}
variable {hasReceiver : Bool} {frame later : Frame} {store : Store}

/-! ## Frames that fit -/

/-- The variables of a frame are held, on top of other values, and its other values are known. -/
structure FrameFits (rule : Discipline image) (owned pinned : List Value) (hasReceiver : Bool)
    (frame : Frame) (store : Store) : Prop where
  held : rule.held store (frame.storage hasReceiver ++ owned) (frame.pins ++ pinned)
  known : ∀ value ∈ frame.temps, rule.known store.heap value

namespace FrameFits

variable {value exception : Value}
variable (fits : rule.FrameFits owned pinned hasReceiver frame store)
include fits

theorem knownStack (member : value ∈ frame.stack) : rule.known store.heap value :=
  fits.known value (List.mem_append_left _ member)

theorem knownArg (member : value ∈ frame.args.toList) : rule.known store.heap value :=
  fits.known value (List.mem_append_right _ (List.mem_append_left _ member))

theorem knownLocal (member : value ∈ frame.locals.toList) : rule.known store.heap value :=
  known_owned fits.held (List.mem_append_left _ (List.mem_append_left _ member))

theorem knownPending {pending : Pending} (member : pending ∈ frame.pending)
    (isUnwinding : pending.exception? = some exception) : rule.known store.heap exception :=
  fits.known exception (List.mem_append_right _ (List.mem_append_right _
    (List.mem_filterMap.mpr ⟨pending, member, isUnwinding⟩)))

/-- The store changes, while the frame waits. -/
theorem change {last : Store} {owned pinned : List Value} (grows : store.heap.Grows last.heap)
    (held : rule.held last (frame.storage hasReceiver ++ owned) (frame.pins ++ pinned)) :
    rule.FrameFits owned pinned hasReceiver frame last :=
  ⟨held, fun value member => rule.known_mono grows (fits.known value member)⟩

/-- The stack of a frame and its place change. -/
theorem move
    (same : frame.SameVariables later) (known : ∀ value ∈ later.stack, rule.known store.heap value)
    (fewer : ∀ pending ∈ later.pending, ∀ exception, pending.exception? = some exception →
      rule.known store.heap exception) :
    rule.FrameFits owned pinned hasReceiver later store := by
  constructor
  · rw [same.storage, same.pins]
    exact fits.held
  · intro value member
    rcases List.mem_append.mp member with onStack | member
    · exact known value onStack
    rcases List.mem_append.mp member with isArg | isException
    · exact fits.knownArg (same.args ▸ isArg)
    · obtain ⟨pending, isPending, isUnwinding⟩ := List.mem_filterMap.mp isException
      exact fewer pending isPending value isUnwinding

/-- Only the stack changes. -/
theorem restack {stack : List Value} (known : ∀ value ∈ stack, rule.known store.heap value) :
    rule.FrameFits owned pinned hasReceiver { frame with stack } store :=
  fits.move ⟨rfl, rfl, rfl⟩ known fun _ member _ isUnwinding => fits.knownPending member isUnwinding

theorem jump (position : Nat) :
    rule.FrameFits owned pinned hasReceiver { frame with position } store :=
  fits.move ⟨rfl, rfl, rfl⟩ (fun _ => fits.knownStack)
    fun _ member _ isUnwinding => fits.knownPending member isUnwinding

/-- Control goes to a position, by way of finally handlers. -/
theorem leaveThrough (target : Nat) (handlers : List Nat) :
    rule.FrameFits owned pinned hasReceiver (frame.leaveThrough target handlers) store := by
  cases handlers with
  | nil =>
      have emptied := fits.restack (List.forall_mem_nil (rule.known store.heap))
      exact emptied.jump target
  | cons handler rest =>
      refine fits.move ⟨rfl, rfl, rfl⟩ (List.forall_mem_nil _)
        fun pending member exception isUnwinding => ?_
      rcases List.mem_cons.mp member with rfl | member
      · cases isUnwinding
      · exact fits.knownPending member isUnwinding

theorem enterCatch (known : rule.known store.heap exception) (region : Region) (handler : Handler) :
    rule.FrameFits owned pinned hasReceiver (frame.enterCatch region handler exception) store :=
  fits.move ⟨rfl, rfl, rfl⟩ (List.forall_mem_singleton.mpr known)
    fun _ member _ isUnwinding => fits.knownPending (List.mem_of_mem_filter member) isUnwinding

theorem enterFinal
    (known : rule.known store.heap exception) (handler : Handler) (position nextRegion : Nat) :
    rule.FrameFits owned pinned hasReceiver
      (frame.enterFinal handler exception position nextRegion) store := by
  refine fits.move ⟨rfl, rfl, rfl⟩ (List.forall_mem_nil _)
    fun pending member waiting isUnwinding => ?_
  rcases List.mem_cons.mp member with rfl | member
  · cases isUnwinding
    exact known
  · exact fits.knownPending member isUnwinding

end FrameFits

/-! ## Steps of a frame -/

/-- A step from a frame ends with a value, a frame and a store that have a property, or it breaks
off and the discipline holds of the frame as it was. -/
def Steps {α : Type} (rule : Discipline image) (owned pinned : List Value) (hasReceiver : Bool)
    (step : FrameStep α) (frame : Frame) (store : Store) (post : α → Frame → Store → Prop) : Prop :=
  rule.Runs (frame.storage hasReceiver ++ owned) (frame.pins ++ pinned) (step.run frame) store
    fun result later => post result.1 result.2 later

namespace Steps

variable {α β : Type} {step : FrameStep α} {post : α → Frame → Store → Prop}
variable {next : α → FrameStep β}
variable {action : Exec α}

theorem pure {value : α} (holds : post value frame store) :
    rule.Steps owned pinned hasReceiver (Pure.pure value) frame store post :=
  Runs.pure holds

theorem bind {between : α → Frame → Store → Prop} {post : β → Frame → Store → Prop}
    (first : rule.Steps owned pinned hasReceiver step frame store fun value changed later =>
      frame.SameVariables changed ∧ between value changed later)
    (second : ∀ value changed later, frame.SameVariables changed → between value changed later →
      rule.Steps owned pinned hasReceiver (next value) changed later post) :
    rule.Steps owned pinned hasReceiver (step >>= next) frame store post := by
  unfold Steps
  rw [StateT.run_bind]
  refine Runs.bind first fun result later _ ⟨same, holds⟩ => ?_
  rw [← same.storage hasReceiver, ← same.pins]
  exact second result.1 result.2 later same holds

/-- An action that leaves the frame alone comes first. -/
theorem lift_bind {between : α → Store → Prop} {post : β → Frame → Store → Prop}
    (first : rule.Runs (frame.storage hasReceiver ++ owned) (frame.pins ++ pinned) action store
      between)
    (second : ∀ value later, store.heap.Grows later.heap → between value later →
      rule.Steps owned pinned hasReceiver (next value) frame later post) :
    rule.Steps owned pinned hasReceiver (liftM action >>= next) frame store post := by
  unfold Steps
  rw [StateT.run_bind]
  exact Runs.bind (Runs.bind first fun value later grows holds => Runs.pure ⟨rfl, grows, holds⟩ :
      rule.Runs _ _ _ store fun result later =>
        result.2 = frame ∧ store.heap.Grows later.heap ∧ between result.1 later)
    fun result later _ ⟨same, grows, holds⟩ => by
      rw [same]
      exact second result.1 later grows holds

/-- What would come after an action that does not end with a value does not matter. -/
theorem lift_ended {post : β → Frame → Store → Prop}
    (ended : rule.Runs (frame.storage hasReceiver ++ owned) (frame.pins ++ pinned) action store
      fun _ _ => False) :
    rule.Steps owned pinned hasReceiver (liftM action >>= next) frame store post :=
  lift_bind ended fun _ _ _ never => never.elim

theorem get_bind {next : Frame → FrameStep β} {post : β → Frame → Store → Prop}
    (rest : rule.Steps owned pinned hasReceiver (next frame) frame store post) :
    rule.Steps owned pinned hasReceiver (get >>= next) frame store post :=
  rest

theorem set {changed : Frame} {post : Unit → Frame → Store → Prop} (holds : post () changed store) :
    rule.Steps owned pinned hasReceiver (MonadStateOf.set changed) frame store post :=
  Runs.pure holds

theorem lift
    (runs : rule.Runs (frame.storage hasReceiver ++ owned) (frame.pins ++ pinned) action store
      fun value later => post value frame later) :
    rule.Steps owned pinned hasReceiver (liftM action) frame store post :=
  Runs.bind runs fun _ _ _ holds => .pure holds

end Steps

/-! ## Steps on the stack -/

section Stack

open FrameStep

variable {β : Type} {post : β → Frame → Store → Prop} {value : Value}

theorem pop_bind {next : Value → FrameStep β}
    (fits : rule.FrameFits owned pinned hasReceiver frame store)
    (rest : ∀ value stack, rule.known store.heap value →
      rule.FrameFits owned pinned hasReceiver { frame with stack } store →
      rule.Steps owned pinned hasReceiver (next value) { frame with stack } store post) :
    rule.Steps owned pinned hasReceiver (pop >>= next) frame store post := by
  cases shape : frame.stack with
  | nil =>
      have popped : pop.run frame = (Exec.malformed .stackUnderflow : Exec (Value × Frame)) := by
        unfold pop
        simp only [StateT.run_bind, StateT.run_get, pure_bind, shape]
        rfl
      unfold Steps
      rw [StateT.run_bind, popped]
      exact Runs.bind_ended (.malformed fits.held)
  | cons value stack =>
      unfold Steps
      rw [StateT.run_bind, run_pop shape]
      have known : ∀ each ∈ value :: stack, rule.known store.heap each := fun each member =>
        fits.knownStack (shape ▸ member)
      obtain ⟨knownTop, knownRest⟩ := List.forall_mem_cons.mp known
      exact Runs.pure_bind (rest value stack knownTop (fits.restack knownRest))

/-- What a frame goes on with after an instruction. -/
def Proceeds (rule : Discipline image) (owned pinned : List Value) (hasReceiver : Bool) (flow : Flow)
    (frame : Frame) (store : Store) : Prop :=
  match flow with
  | .next => rule.FrameFits owned pinned hasReceiver frame store
  | .ret value =>
      rule.FrameFits owned pinned hasReceiver frame store ∧ rule.known store.heap value
  | .tailCall call =>
      rule.FrameFits ((Request.method call).storage image ++ owned) pinned hasReceiver frame store ∧
        ∀ value ∈ call.args, rule.known store.heap value
  | .enter request onReturn =>
      rule.FrameFits (request.storage image ++ owned) pinned hasReceiver frame store ∧
        (∀ value ∈ request.args, rule.known store.heap value) ∧
        ∀ value, onReturn.value? = some value → rule.known store.heap value
  | .resume exception _ _ =>
      rule.FrameFits owned pinned hasReceiver frame store ∧ rule.known store.heap exception

variable (fits : rule.FrameFits owned pinned hasReceiver frame store)
include fits

theorem next_proceeds : rule.Steps owned pinned hasReceiver (pure .next) frame store
      (rule.Proceeds owned pinned hasReceiver) :=
  .pure fits

theorem push_proceeds (known : rule.known store.heap value) :
    rule.Steps owned pinned hasReceiver (do
      push value
      return .next) frame store (rule.Proceeds owned pinned hasReceiver) :=
  Runs.pure_bind (next_proceeds (fits.restack (List.forall_mem_cons.mpr
    ⟨known, fun _ => fits.knownStack⟩)))

/-- An action gives the value that is pushed. -/
theorem yields_proceeds {action : Exec Value}
    (yields : rule.Yields (frame.storage hasReceiver ++ owned) (frame.pins ++ pinned) action store) :
    rule.Steps owned pinned hasReceiver (do
      push (← action)
      return .next) frame store (rule.Proceeds owned pinned hasReceiver) :=
  .lift_bind yields fun _ _ grows ⟨held, known⟩ => push_proceeds (fits.change grows held) known

theorem keeps_proceeds {action : Exec Unit}
    (keeps : rule.Keeps (frame.storage hasReceiver ++ owned) (frame.pins ++ pinned) action store) :
    rule.Steps owned pinned hasReceiver (do
      action
      return .next) frame store (rule.Proceeds owned pinned hasReceiver) :=
  .lift_bind keeps fun _ _ grows held => next_proceeds (fits.change grows held)

theorem mapTop_proceeds {action : Value → Exec Value}
    (yields : ∀ value, rule.known store.heap value →
      rule.Yields (frame.storage hasReceiver ++ owned) (frame.pins ++ pinned) (action value) store) :
    rule.Steps owned pinned hasReceiver (mapTop action) frame store
      (rule.Proceeds owned pinned hasReceiver) :=
  pop_bind fits fun value _ known fits => yields_proceeds fits (yields value known)

theorem mapTop₂_proceeds {action : Value → Value → Exec Value}
    (yields : ∀ left right, rule.known store.heap left → rule.known store.heap right →
      rule.Yields (frame.storage hasReceiver ++ owned) (frame.pins ++ pinned) (action left right)
        store) :
    rule.Steps owned pinned hasReceiver (mapTop₂ action) frame store
      (rule.Proceeds owned pinned hasReceiver) :=
  pop_bind fits fun right _ knownRight fits => pop_bind fits fun left _ knownLeft fits =>
    yields_proceeds fits (yields left right knownLeft knownRight)

theorem branch_proceeds {label : Label} : rule.Steps owned pinned hasReceiver (do
      branch label
      return .next) frame store (rule.Proceeds owned pinned hasReceiver) := by
  have branches : rule.Steps owned pinned hasReceiver (branch label) frame store
      fun _ changed later => frame.SameVariables changed ∧
        rule.FrameFits owned pinned hasReceiver changed later := by
    refine .get_bind (.lift_bind (Reads.require_any fits.held) fun position later _ isHere => ?_)
    rw [isHere.1]
    exact Runs.pure ⟨⟨rfl, rfl, rfl⟩, fits.jump position⟩
  exact .bind branches fun _ _ _ _ fits => next_proceeds fits

omit fits in
/-- The last thing that an instruction does may change variables. -/
theorem finish_proceeds {step : FrameStep Unit}
    (steps : rule.Steps owned pinned hasReceiver step frame store fun _ changed later =>
      rule.FrameFits owned pinned hasReceiver changed later) :
    rule.Steps owned pinned hasReceiver (do
      step
      return .next) frame store (rule.Proceeds owned pinned hasReceiver) := by
  unfold Steps
  rw [StateT.run_bind]
  exact Runs.bind steps fun _ _ _ fits => .pure fits

/-- A conditional branch. -/
theorem branchIf_proceeds {label : Label} {condition : Prop} [Decidable condition] :
    rule.Steps owned pinned hasReceiver (do
      if condition then
        branch label
      return .next) frame store (rule.Proceeds owned pinned hasReceiver) := by
  by_cases holds : condition
  · simp only [holds, if_true]
    exact branch_proceeds fits
  · simp only [holds, if_false]
    exact next_proceeds fits

end Stack

/-! ## Storing into variables -/

section Variables

open FrameStep

variable {slot : Nat} {value : Value}

theorem set_drop_subperm (values : List Value) (slot count : Nat) (value : Value) :
    ((values.set slot value).drop count).Subperm (value :: values.drop count) := by
  rw [List.drop_set]
  split
  · exact (List.sublist_cons_self _ _).subperm
  · exact List.set_subperm_cons _ _ _

variable (fits : rule.FrameFits owned pinned hasReceiver frame store)
include fits

theorem storeLocal_steps (known : rule.known store.heap value) :
    rule.Steps owned pinned hasReceiver (storeLocal slot value) frame store
      fun _ changed later => rule.FrameFits owned pinned hasReceiver changed later := by
  refine .lift_bind (copy_runs fits.held known) fun copied later grows heldCopy => .get_bind ?_
  have knownCopy := known_owned heldCopy List.mem_cons_self
  split
  · exact .lift (.malformed (drop heldCopy))
  · rename_i old isOld
    have isOldIn : frame.locals.toList[slot]? = some old := by rwa [Array.getElem?_toList]
    let changed := { frame with locals := frame.locals.setIfInBounds slot copied }
    have moved : (changed.storage hasReceiver).Subperm (copied :: frame.storage hasReceiver) := by
      simp only [changed, Frame.storage, Array.toList_setIfInBounds]
      rw [← List.cons_append]
      exact (List.set_subperm_cons _ _ _).append (.refl _)
    have fitsWith {last : Store} (growsLast : store.heap.Grows last.heap)
        (held : rule.held last (copied :: (frame.storage hasReceiver ++ owned))
          (changed.pins ++ pinned)) : rule.FrameFits owned pinned hasReceiver changed last := by
      refine ⟨rule.weaken held (moved.append (.refl _)) (.refl _), fun each member => ?_⟩
      exact rule.known_mono growsLast (fits.known each member)
    dsimp only
    split
    · rename_i isPinned
      obtain ⟨decl, isDecl, isPinned⟩ := (Option.any_eq_true _ _).mp isPinned
      rw [← Array.getElem?_toList] at isDecl
      obtain ⟨others, before, after⟩ :=
        LocalDecl.pinsOf_set_pinned isDecl isPinned isOldIn copied
      have heldOld : rule.held later (copied :: (frame.storage hasReceiver ++ owned))
          (old :: (others ++ pinned)) :=
        rule.weaken heldCopy (.refl _) (before.append_right pinned).symm
      have repins : rule.Runs (frame.storage hasReceiver ++ owned) (frame.pins ++ pinned)
          (Exec.modifyHeap fun heap => Memory.pin (Memory.unpin heap old) copied) later
          fun _ last => rule.held last (copied :: (frame.storage hasReceiver ++ owned))
            (copied :: (others ++ pinned)) :=
        .modifyHeap (Heap.grows_adjustPins.trans Heap.grows_adjustPins)
          (rule.repin heldOld knownCopy)
      refine .lift_bind repins fun _ last growsLast heldNew => .set ?_
      refine fitsWith (grows.trans growsLast) (rule.weaken heldNew (.refl _) ?_)
      simp only [changed, Frame.pins, Array.toList_setIfInBounds]
      exact after.append_right pinned
    · rename_i notPinned
      refine .set (fitsWith grows ?_)
      have isFree : (frame.body.locals.toList[slot]?).any LocalDecl.pinned = false := by
        simpa [Array.getElem?_toList] using notPinned
      simp only [changed, Frame.pins, Array.toList_setIfInBounds,
        LocalDecl.pinsOf_set_of_not_pinned isFree]
      exact heldCopy

theorem storeArg_steps (known : rule.known store.heap value) :
    rule.Steps owned pinned hasReceiver (storeArg slot value) frame store
      fun _ changed later => rule.FrameFits owned pinned hasReceiver changed later := by
  refine .lift_bind (copy_runs fits.held known) fun copied later grows heldCopy => .get_bind ?_
  split
  · let changed := { frame with args := frame.args.setIfInBounds slot copied }
    have moved : (changed.storage hasReceiver).Subperm (copied :: frame.storage hasReceiver) := by
      simp only [changed, Frame.storage, Array.toList_setIfInBounds]
      refine ((List.Subperm.refl _).append (set_drop_subperm _ _ _ _)).trans ?_
      exact List.perm_middle.subperm
    refine .set ⟨rule.weaken heldCopy (moved.append (.refl _)) (.refl _), fun each member => ?_⟩
    rcases List.mem_append.mp member with onStack | member
    · exact rule.known_mono grows (fits.knownStack onStack)
    rcases List.mem_append.mp member with isArg | isException
    · simp only [Array.toList_setIfInBounds] at isArg
      rcases List.mem_or_eq_of_mem_set isArg with isOld | rfl
      · exact rule.known_mono grows (fits.knownArg isOld)
      · exact known_owned heldCopy List.mem_cons_self
    · exact rule.known_mono grows (fits.known each
        (List.mem_append_right _ (List.mem_append_right _ isException)))
  · exact .lift (.malformed (drop heldCopy))

end Variables

/-! ## Calling -/

section Calls

open FrameStep

variable (fits : rule.FrameFits owned pinned hasReceiver frame store)
include fits

theorem popMany_steps {count : Nat} :
    rule.Steps owned pinned hasReceiver (popMany count) frame store
      fun values changed later => frame.SameVariables changed ∧
        rule.FrameFits owned pinned hasReceiver changed later ∧
        ∀ value ∈ values, rule.known later.heap value := by
  by_cases enough : count ≤ frame.stack.length
  · unfold Steps
    rw [run_popMany enough]
    refine Runs.pure ⟨⟨rfl, rfl, rfl⟩, fits.restack fun value member =>
      fits.knownStack (List.mem_of_mem_drop member), fun value member => ?_⟩
    exact fits.knownStack (List.mem_of_mem_take (List.mem_reverse.mp member))
  · have short : frame.stack.length < count := Nat.lt_of_not_le enough
    refine .get_bind ?_
    simp only [if_pos short]
    exact .lift_ended (.malformed fits.held)

/-- Copies of values can be passed to what is called. -/
theorem copies_steps {values : List Value} (known : ∀ value ∈ values, rule.known store.heap value) :
    rule.Runs (frame.storage hasReceiver ++ owned) (frame.pins ++ pinned)
      (takeArgs.copyAll values) store fun copies later =>
        rule.FrameFits (copies ++ owned) pinned hasReceiver frame later ∧
          ∀ value ∈ copies, rule.known later.heap value := by
  refine (mapM_copy_runs fits.held known).imp fun copies later grows held => ⟨?_, fun value member =>
    known_owned held (List.mem_append_left _ member)⟩
  refine fits.change grows (rule.weaken held (List.Perm.subperm ?_) (.refl _))
  rw [← List.append_assoc, ← List.append_assoc]
  exact List.perm_append_comm.append_right owned

/-- The arguments of a call are copies, but for a receiver. -/
theorem takeArgs_steps {count : Nat} {passesReceiver : Bool} :
    rule.Steps owned pinned hasReceiver (takeArgs count passesReceiver) frame store
      fun args changed later => frame.SameVariables changed ∧
        rule.FrameFits (args.drop passesReceiver.toNat ++ owned) pinned hasReceiver changed later ∧
        ∀ value ∈ args, rule.known later.heap value := by
  refine .bind (popMany_steps fits) fun values changed later same ⟨fits, known⟩ => ?_
  split
  · rename_i receiver args
    obtain ⟨knownReceiver, knownArgs⟩ := List.forall_mem_cons.mp known
    refine .lift_bind (copies_steps fits knownArgs) fun copies last grows ⟨fits, known⟩ => .pure ?_
    exact ⟨same, fits, List.forall_mem_cons.mpr ⟨rule.known_mono grows knownReceiver, known⟩⟩
  · rename_i notReceived
    refine .lift ((copies_steps fits known).imp fun copies last _ ⟨fits, known⟩ => ⟨same, ?_, known⟩)
    refine ⟨rule.weaken fits.held ?_ (.refl _), fits.known⟩
    refine List.Subperm.append (.refl _) (List.Subperm.append ?_ (.refl _))
    exact (List.drop_sublist _ _).subperm

omit fits in
theorem passesReceiver_method (call : Call) {info : MethodInfo}
    (isInfo : image.method call.method = .ok info) :
    (Request.method call).passesReceiver image = !info.attrs.isStatic := by
  rw [Request.passesReceiver, Image.method_eq_ok.mp isInfo]
  rfl

theorem call_proceeds {method : MethodHandle} {tail isVirtual : Bool} :
    rule.Steps owned pinned hasReceiver (call image method tail isVirtual) frame store
      (rule.Proceeds owned pinned hasReceiver) := by
  refine .lift_bind (Reads.ofImage fits.held fun _ isInfo => isInfo)
    fun info later _ ⟨isStore, isInfo⟩ => ?_
  subst isStore
  refine .bind (takeArgs_steps fits) fun args changed last _ ⟨fits, known⟩ => ?_
  rw [← passesReceiver_method ⟨method, args, isVirtual⟩ isInfo] at fits
  dsimp only
  split
  · exact .pure ⟨fits, known⟩
  · refine .pure ⟨fits, known, fun value isThere => ?_⟩
    split at isThere <;> cases isThere

theorem newObject_proceeds {ctor : CtorHandle} : rule.Steps owned pinned hasReceiver (do
      let info ← Exec.ofImage (image.ctor ctor)
      let args ← takeArgs info.params.length false
      let object ← Exec.allocate image info.owner
      return .enter (.ctor ctor (object :: args)) (.object object)) frame store
      (rule.Proceeds owned pinned hasReceiver) := by
  refine .lift_bind (Reads.ofImage_any fits.held) fun info later _ isHere => ?_
  rw [isHere.1]
  refine .bind (takeArgs_steps fits) fun args changed last _ ⟨fits, known⟩ => ?_
  have fewer : (changed.storage hasReceiver ++ owned).Subperm
      (changed.storage hasReceiver ++ (args.drop false.toNat ++ owned)) :=
    List.Subperm.append (.refl _) (List.sublist_append_right _ _).subperm
  refine .lift_bind ((allocate_runs fits.held).weaken fewer) fun object final grows made => .pure ?_
  have knownObject := known_owned made List.mem_cons_self
  refine ⟨fits.change grows (drop made), List.forall_mem_cons.mpr ⟨knownObject, ?_⟩, ?_⟩
  · exact fun value member => rule.known_mono grows (known value member)
  · rintro _ ⟨⟩
    exact knownObject

theorem callCtor_proceeds {ctor : CtorHandle} : rule.Steps owned pinned hasReceiver (do
      let info ← Exec.ofImage (image.ctor ctor)
      let args ← takeArgs (info.params.length + 1) true
      return .enter (.ctor ctor args) .drop) frame store
      (rule.Proceeds owned pinned hasReceiver) := by
  refine .lift_bind (Reads.ofImage_any fits.held) fun info later _ isHere => ?_
  rw [isHere.1]
  exact .bind (takeArgs_steps fits) fun args changed last _ ⟨fits, known⟩ =>
    .pure ⟨fits, known, nofun⟩

end Calls

/-! ## Instructions -/

section Execution

open FrameStep

variable {value : Value}

variable (fits : rule.FrameFits owned pinned hasReceiver frame store)
include fits

theorem endFinally_proceeds : rule.Steps owned pinned hasReceiver endFinally frame store
      (rule.Proceeds owned pinned hasReceiver) := by
  refine .get_bind ?_
  have afterHandler {pending : Pending} {rest : List Pending}
      (shape : frame.pending = pending :: rest) :
      rule.FrameFits owned pinned hasReceiver { frame with pending := rest } store :=
    fits.move ⟨rfl, rfl, rfl⟩ (fun _ => fits.knownStack) fun waiting member _ isUnwinding =>
      fits.knownPending (shape ▸ List.mem_cons_of_mem _ member) isUnwinding
  split
  · exact .lift (.malformed fits.held)
  · rename_i target rest handler pending shape
    exact Runs.pure_bind (next_proceeds ((afterHandler shape).leaveThrough target rest))
  · rename_i exception position nextRegion handler pending shape
    refine Runs.pure_bind (Runs.pure ⟨afterHandler shape, ?_⟩)
    exact fits.knownPending (shape ▸ List.mem_cons_self) rfl

theorem throw_proceeds : rule.Steps owned pinned hasReceiver (do
      let exception ← pop
      if exception.isNull then
        Exec.raise image .nullReference
      throw (.throw exception)) frame store (rule.Proceeds owned pinned hasReceiver) := by
  refine pop_bind fits fun exception stack known fits => ?_
  dsimp only
  split
  · exact .lift_ended (raise_runs fits.held)
  · exact .lift (Runs.throw fits.held known)

theorem switch_proceeds {labels : List Label} : rule.Steps owned pinned hasReceiver (do
      let selector ← Exec.require (← pop).int32? .switchSelector
      if let some label := labels[selector.toUInt32.toNat]? then
        branch label
      return .next) frame store (rule.Proceeds owned pinned hasReceiver) := by
  refine pop_bind fits fun value stack _ fits => ?_
  refine .lift_bind (Reads.require_any fits.held) fun selector later _ isHere => ?_
  rw [isHere.1]
  cases labels[selector.toUInt32.toNat]? with
  | none => exact next_proceeds fits
  | some label => exact branch_proceeds fits

/-- Instructions keep a discipline. -/
theorem execute_proceeds {current : Nat} {instr : Instr} :
    rule.Steps owned pinned hasReceiver (execute image current instr) frame store
      (rule.Proceeds owned pinned hasReceiver) := by
  cases instr with
  | nop => exact next_proceeds fits
  | pop =>
      have popped : rule.Steps owned pinned hasReceiver (discard pop) frame store
          fun _ changed later => rule.FrameFits owned pinned hasReceiver changed later :=
        @pop_bind _ _ _ _ _ _ _ _ _ (fun _ => pure ()) fits fun _ _ _ fits => Runs.pure fits
      exact finish_proceeds popped
  | dup =>
      refine pop_bind fits fun value stack known fits => Runs.pure_bind ?_
      refine push_proceeds (fits.restack (List.forall_mem_cons.mpr ⟨known, ?_⟩)) known
      exact fun _ => fits.knownStack
  | const value => exact push_proceeds fits (rule.known_plain (constant_isPlain value))
  | loadArg slot =>
      refine .get_bind (yields_proceeds fits (.of_reads fits.held (.require fits.held ?_)))
      exact fun value isArg => fits.knownArg (Array.mem_toList_iff.mpr (Array.mem_of_getElem? isArg))
  | loadLocal slot =>
      refine .get_bind (yields_proceeds fits (.of_reads fits.held (.require fits.held ?_)))
      exact fun value isLocal =>
        fits.knownLocal (Array.mem_toList_iff.mpr (Array.mem_of_getElem? isLocal))
  | storeArg slot =>
      exact pop_bind fits fun _ _ known fits => finish_proceeds (storeArg_steps fits known)
  | storeLocal slot =>
      exact pop_bind fits fun _ _ known fits => finish_proceeds (storeLocal_steps fits known)
  | loadField field => exact mapTop_proceeds fits fun _ _ => loadField_yields fits.held
  | storeField field =>
      exact pop_bind fits fun value _ knownValue fits => pop_bind fits fun object _ knownObject fits =>
        keeps_proceeds fits (storeField_keeps fits.held knownValue knownObject)
  | loadStatic field => exact yields_proceeds fits (loadStatic_yields fits.held)
  | storeStatic field =>
      exact pop_bind fits fun value _ known fits =>
        keeps_proceeds fits (storeStatic_keeps fits.held known)
  | call method tail => exact call_proceeds fits
  | callVirtual method tail => exact call_proceeds fits
  | newObject ctor => exact newObject_proceeds fits
  | callCtor ctor => exact callCtor_proceeds fits
  | loadFunction method => exact push_proceeds fits (rule.known_plain rfl)
  | ret =>
      refine .get_bind (.pure ⟨fits, ?_⟩)
      have knownStack : ∀ value ∈ frame.stack, rule.known store.heap value :=
        fun _ => fits.knownStack
      revert knownStack
      cases frame.stack with
      | nil => exact fun _ => rule.known_plain rfl
      | cons value stack => exact fun known => known value List.mem_cons_self
  | branch label => exact branch_proceeds fits
  | branchTrue label => exact pop_bind fits fun _ _ _ fits => branchIf_proceeds fits
  | branchFalse label => exact pop_bind fits fun _ _ _ fits => branchIf_proceeds fits
  | switch labels => exact switch_proceeds fits
  | leave label =>
      refine .get_bind (.lift_bind (Reads.require_any fits.held) fun target later _ isHere => ?_)
      rw [isHere.1]
      exact finish_proceeds (.set (fits.leaveThrough target _))
  | endFinally => exact endFinally_proceeds fits
  | throw => exact throw_proceeds fits
  | arith op =>
      exact mapTop₂_proceeds fits fun _ _ _ _ => .ofArith fits.held fun _ => Arith.binary_isPlain
  | neg => exact mapTop_proceeds fits fun _ _ => .ofArith fits.held fun _ => Arith.neg_isPlain
  | not => exact mapTop_proceeds fits fun _ _ => .ofArith fits.held fun _ => Arith.not_isPlain
  | compare op =>
      exact mapTop₂_proceeds fits fun _ _ _ _ =>
        Reads.bind (ofArith_reads fits.held fun _ isOk => isOk) fun _ _ =>
          .pure ⟨fits.held, rule.known_plain rfl⟩
  | convert conversion => exact mapTop_proceeds fits fun _ _ => convert_yields fits.held
  | newArray element =>
      exact mapTop_proceeds fits fun _ _ =>
        Reads.bind (lengthOperand_reads fits.held) fun _ _ => newArray_yields fits.held
  | loadElement => exact mapTop₂_proceeds fits fun _ _ _ _ => loadElement_yields fits.held
  | storeElement =>
      exact pop_bind fits fun _ _ known fits => pop_bind fits fun _ _ _ fits =>
        pop_bind fits fun _ _ _ fits => keeps_proceeds fits (storeElement_keeps fits.held known)
  | elementAddress => exact mapTop₂_proceeds fits fun _ _ _ _ => elementAddress_yields fits.held
  | arrayLength => exact mapTop_proceeds fits fun _ _ => arrayLength_yields fits.held
  | loadIndirect prim => exact mapTop_proceeds fits fun _ _ => loadIndirect_yields fits.held
  | storeIndirect prim =>
      exact pop_bind fits fun _ _ _ fits => pop_bind fits fun _ _ _ fits =>
        keeps_proceeds fits (storeIndirect_keeps fits.held)
  | copyBlock =>
      exact pop_bind fits fun _ _ _ fits => pop_bind fits fun _ _ _ fits =>
        pop_bind fits fun _ _ _ fits => keeps_proceeds fits (copyBlock_keeps fits.held)
  | fillBlock =>
      exact pop_bind fits fun _ _ _ fits => pop_bind fits fun _ _ _ fits =>
        pop_bind fits fun _ _ _ fits => keeps_proceeds fits (fillBlock_keeps fits.held)
  | box type => exact mapTop_proceeds fits fun _ known => box_yields fits.held known
  | unbox type => exact mapTop_proceeds fits fun _ known => unbox_yields fits.held known
  | castClass type => exact mapTop_proceeds fits fun _ known => castClass_yields fits.held known
  | isInstance type => exact mapTop_proceeds fits fun _ known => isInstance_yields fits.held known

end Execution

end Discipline

end ClassForge
