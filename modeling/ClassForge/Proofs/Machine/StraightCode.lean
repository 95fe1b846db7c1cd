import ClassForge.Proofs.Image.TypeTests
import ClassForge.Proofs.Machine.ConfinedFrames

/-!
# Straight code

Code without branches turns some values on top of the stack into other ones, wherever it stands, or
it raises an exception.
-/

namespace ClassForge

/-- Writing instructions appends them. -/
theorem Lower.writes_emitAll {before after : Emitter} {code : List Instr} {done : Unit} :
    (Lower.emitAll code).Writes before done after ↔ after = before.emits code := by
  induction code generalizing before with
  | nil => exact Lower.writes_emitAll_nil
  | cons instr code ih => exact Lower.writes_emitAll_cons.trans ih

namespace Body

variable {body : Body} {position : Nat} {code more : List Instr}

/-- A part of some code stands where the code does. -/
theorem HasCode.part (hasCode : body.HasCode position code) (start count : Nat) :
    body.HasCode (position + start) ((code.drop start).take count) := by
  intro index instr isInstr
  rw [List.getElem?_take, Option.ite_none_right_eq_some, List.getElem?_drop] at isInstr
  rw [Nat.add_assoc]
  exact hasCode _ instr isInstr.2

theorem HasCode.of_append (hasCode : body.HasCode position (code ++ more)) :
    body.HasCode position code ∧ body.HasCode (position + code.length) more := by
  constructor
  · have first := hasCode.part 0 code.length
    rwa [List.drop_zero, List.take_left, Nat.add_zero] at first
  · have second := hasCode.part code.length more.length
    rwa [List.drop_left, List.take_length] at second

/-- Instructions that have been written stand in the finished body. -/
theorem hasCode_of_writes {before after : Emitter} {done : Unit}
    (written : (Lower.emitAll code).Writes before done after) (placed : after.PlacedIn body) :
    body.HasCode before.position code ∧ after.position = before.position + code.length := by
  obtain rfl := Lower.writes_emitAll.mp written
  refine ⟨fun index instr isInstr => ?_, before.position_emits code⟩
  exact placed.instrs _ _ (before.instrs_emits code index instr isInstr)

end Body

namespace Machine

open FrameStep

variable {frame : Frame} {store : Store} {exception : SystemException}

/-- Wherever some code stands in a body, a frame with some values on top of its stack runs through
it, and then has other values there. -/
def Computes (image : Image) (code : List Instr) (operands : List Value) (store : Store)
    (results : List Value) (later : Store) : Prop :=
  ∀ (limit : Nat) (seat : Seat) (frame : Frame) (position : Nat) (rest : List Value),
    frame.body.HasCode position code →
      Reaches image limit (seat.config frame position (operands ++ rest) store)
        (seat.config frame (position + code.length) (results ++ rest) later)

/-- An exception of the platform reaches the frame of a seat. -/
def Seat.Throws (image : Image) (limit : Nat) (seat : Seat) (config : Config)
    (exception : SystemException) : Prop :=
  ∃ next frame object later, Reaches image limit config next ∧
    seat.Raises image next frame (.ref object) later ∧
    Store.typeOf? image later.heap (.ref object) = image.typeNamed? exception.typeName

namespace Computes

variable {image : Image} {store middle later : Store} {instr : Instr} {left right result : Value}

/-- One instruction that goes on to the next one. -/
theorem of_execute {operands results : List Value}
    (ran : ∀ (frame : Frame) (position : Nat) (rest : List Value),
      ((execute image position instr).run
        { frame with position := position + 1, stack := operands ++ rest }).run store =
          .ok (.next, { frame with position := position + 1, stack := results ++ rest }) later) :
    Computes image [instr] operands store results later :=
  fun _ _ frame position rest hasCode =>
    .single (Seat.step_next (hasCode 0 instr rfl) (ran frame position rest))

/-- Some code after other code. -/
theorem append {code more : List Instr} {operands between results kept : List Value}
    (first : Computes image code operands store between middle)
    (second : Computes image more (between ++ kept) middle results later) :
    Computes image (code ++ more) (operands ++ kept) store results later := by
  intro limit seat frame position rest hasCode
  obtain ⟨early, late⟩ := hasCode.of_append
  have begins := first limit seat frame position (kept ++ rest) early
  have ends := second limit seat frame (position + code.length) rest late
  rw [List.append_assoc] at ends
  rw [List.append_assoc, List.length_append, ← Nat.add_assoc]
  exact begins.trans ends

theorem mapTop {action : Value → Exec Value}
    (isMap : ∀ position, execute image position instr = FrameStep.mapTop action)
    (ran : (action left).run store = .ok result later) :
    Computes image [instr] [left] store [result] later := by
  refine of_execute fun frame position rest => ?_
  rw [isMap, run_mapTop rfl, EStateM.run_bind, ran]
  rfl

theorem mapTop₂ {action : Value → Value → Exec Value}
    (isMap : ∀ position, execute image position instr = FrameStep.mapTop₂ action)
    (ran : (action left right).run store = .ok result later) :
    Computes image [instr] [right, left] store [result] later := by
  refine of_execute fun frame position rest => ?_
  rw [isMap, List.cons_append, List.cons_append, List.nil_append]
  unfold FrameStep.mapTop₂
  rw [FrameStep.run_bind (Seat.pop_top frame (position + 1) right (left :: rest) store),
    FrameStep.run_bind (Seat.pop_top frame (position + 1) left rest store),
    FrameStep.run_bind (run_lift ran)]
  rfl

theorem const (constant : Constant) :
    Computes image [.const constant] [] store [FrameStep.constant constant] store :=
  of_execute fun _ _ _ => rfl

theorem arith {op : ArithOp} (computes : Arith.binary op left right = .ok result) :
    Computes image [.arith op] [right, left] store [result] store := by
  refine mapTop₂ (fun _ => rfl) ?_
  rw [computes]
  rfl

theorem compare {op : CompareOp} {holds : Bool}
    (computes : Arith.compare op left right = .ok holds) :
    Computes image [.compare op] [right, left] store [.ofBool holds] store := by
  refine mapTop₂ (fun _ => rfl) ?_
  rw [computes]
  rfl

theorem neg (computes : Arith.neg left = .ok result) :
    Computes image [.neg] [left] store [result] store := by
  refine mapTop (fun _ => rfl) ?_
  rw [computes]
  rfl

theorem not (computes : Arith.not left = .ok result) :
    Computes image [.not] [left] store [result] store := by
  refine mapTop (fun _ => rfl) ?_
  rw [computes]
  rfl

/-- The opposite of a truth value. -/
theorem negation (truth : Bool) :
    Computes image Operators.negation [.ofBool truth] store [.ofBool !truth] store := by
  have computes : Arith.compare .eq (.ofBool truth) (FrameStep.constant (.int32 0)) = .ok !truth := by
    cases truth <;> rfl
  exact @append image store store store [.const (.int32 0)] [.compare .eq] [] _ _ [.ofBool truth]
    (const _) (compare computes)

end Computes

theorem run_lift_error {α : Type} {action : Exec α} {later : Store} {trap : Trap}
    (ran : action.run store = .error trap later) :
    ((liftM action : FrameStep α).run frame).run store = .error trap later := by
  change (action >>= fun value => pure (value, frame)).run store = _
  rw [EStateM.run_bind, ran]

/-- An instruction on an operand that has no result raises an exception. -/
theorem Seat.throws_mapTop {image : Image} {limit : Nat} {seat : Seat} {position : Nat}
    {instr : Instr} {operand : Value} {rest : List Value} {action : Value → Exec Value}
    (built : image.Built) (isInstr : frame.body.instrs[position]? = some instr)
    (isMap : execute image position instr = FrameStep.mapTop action)
    (raises : action operand = Exec.raise image exception) :
    seat.Throws image limit (seat.config frame position (operand :: rest) store) exception := by
  obtain ⟨handle, object, later, isHandle, raised, isException⟩ :=
    @Exec.raise_throws image store Value built exception
  refine ⟨_, _, object, later, .refl, .own isInstr ?_, isException.trans isHandle.symm⟩
  rw [isMap, run_mapTop rfl, EStateM.run_bind, raises, raised]

/-- An instruction on two operands that have no result raises an exception. -/
theorem Seat.throws_mapTop₂ {image : Image} {limit : Nat} {seat : Seat} {position : Nat}
    {instr : Instr} {left right : Value} {rest : List Value} {action : Value → Value → Exec Value}
    (built : image.Built) (isInstr : frame.body.instrs[position]? = some instr)
    (isMap : execute image position instr = FrameStep.mapTop₂ action)
    (raises : action left right = Exec.raise image exception) :
    seat.Throws image limit (seat.config frame position (right :: left :: rest) store) exception := by
  obtain ⟨handle, object, later, isHandle, raised, isException⟩ :=
    @Exec.raise_throws image store Value built exception
  refine ⟨_, _, object, later, .refl, .own isInstr ?_, isException.trans isHandle.symm⟩
  rw [isMap]
  unfold FrameStep.mapTop₂
  rw [FrameStep.run_bind (Seat.pop_top frame (position + 1) right (left :: rest) store),
    FrameStep.run_bind (Seat.pop_top frame (position + 1) left rest store), raises,
    StateT.run_bind, EStateM.run_bind, run_lift_error raised]

end Machine

end ClassForge
