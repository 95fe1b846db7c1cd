import ClassForge.Proofs.Machine.ElementMemory
import ClassForge.Proofs.Number.IntegerConversions

/-!
# Values of narrow types

Truth values, characters and integers of up to 16 bits take a slot of the stack that has room for
more.  Whatever makes such a value, a literal, an operator, a conversion or a read from memory, makes
one in the range of its type when its operands suit theirs.  A character literal is the exception: it is pushed whole, so it has to
be one of the first plane.  A value in range survives being stored as an array element and being
converted to a wider type.
-/

namespace ClassForge

variable {number : Int} {prim : Prim}

namespace Prim

/-- Types with less room than the slot of the stack that their values take. -/
def isNarrow : Prim → Bool
  | bool | char | int8 | uint8 | int16 | uint16 => true
  | _ => false

variable {prim : Prim}

theorem notFloat_of_isNarrow (narrow : prim.isNarrow = true) : prim.isFloat = false := by
  cases prim <;> first | rfl | cases narrow

/-- The range of a narrow type lies well inside the words of the stack. -/
theorem holds_int32 {value : Int} (narrow : prim.isNarrow = true) (holds : prim.Holds value) :
    Prim.int32.Holds value := by
  obtain ⟨least, greatest⟩ := holds
  cases prim
  case bool | char | int8 | uint8 | int16 | uint16 =>
    exact ⟨Int.le_trans (by decide) least, Int.le_trans greatest (by decide)⟩
  all_goals cases narrow

end Prim

/-! ## Values in range -/

/-- A value that stands for a number of a narrow type: a word in the range of the type. -/
def Value.Fits (prim : Prim) (value : Value) : Prop :=
  ∃ word : Int32, value = .int32 word ∧ prim.Holds word.toInt

namespace Value

variable {prim : Prim} {value : Value}

theorem fits_word (narrow : prim.isNarrow = true) (holds : prim.Holds number) :
    Fits prim (.int32 (Int32.ofInt number)) := by
  refine ⟨_, rfl, ?_⟩
  obtain ⟨least, greatest⟩ := Prim.holds_int32 narrow holds
  rwa [Int32.toInt_ofInt, Int.bmod_eq_of_le least (Int.lt_of_le_of_lt greatest (by decide))]

theorem fits_ofBool (truth : Bool) : Fits .bool (ofBool truth) := by
  cases truth
  · exact ⟨0, rfl, by decide⟩
  · exact ⟨1, rfl, by decide⟩

theorem fits_intValue (narrow : prim.isNarrow = true) (holds : prim.Holds number) :
    Fits prim (Arith.intValue prim number) := by
  cases prim
  case bool => exact fits_ofBool _
  case char | int8 | uint8 | int16 | uint16 => exact fits_word narrow holds
  all_goals cases narrow

/-- A number that is reduced into a narrow type. -/
theorem fits_wrap (narrow : prim.isNarrow = true) (number : Int) :
    Fits prim (Arith.intValue prim (prim.wrap number)) := by
  by_cases isBool : prim = .bool
  · subst isBool
    exact fits_ofBool _
  · exact fits_intValue narrow (Prim.holds_wrap isBool number)

/-- A value in range is the value of its number. -/
theorem Fits.exists_intValue (narrow : prim.isNarrow = true) (fits : value.Fits prim) :
    ∃ number, prim.Holds number ∧ value = Arith.intValue prim number := by
  obtain ⟨word, rfl, holds⟩ := fits
  refine ⟨word.toInt, holds, ?_⟩
  cases prim
  case bool =>
    obtain isZero | isOne : word.toInt = 0 ∨ word.toInt = 1 := by
      obtain ⟨least, greatest⟩ := holds
      change 0 ≤ word.toInt at least
      change word.toInt ≤ 1 at greatest
      omega
    · rw [isZero, ← Int32.ofInt_toInt word, isZero]
      rfl
    · rw [isOne, ← Int32.ofInt_toInt word, isOne]
      rfl
  case char | int8 | uint8 | int16 | uint16 =>
    exact congrArg int32 (Int32.ofInt_toInt word).symm
  all_goals cases narrow

theorem fits_bool_iff : value.Fits .bool ↔ ∃ truth, value = ofBool truth := by
  constructor
  · intro fits
    obtain ⟨number, -, rfl⟩ := fits.exists_intValue rfl
    exact ⟨number != 0, rfl⟩
  · rintro ⟨truth, rfl⟩
    exact fits_ofBool truth

end Value

/-! ## Values that are made -/

namespace Memory

/-- What is read from memory. -/
theorem fits_decode (narrow : prim.isNarrow = true) (word : Nat) :
    (decode prim word).Fits prim := by
  cases prim
  case bool => exact Value.fits_ofBool _
  case char | int8 | uint8 | int16 | uint16 =>
    exact Value.fits_word narrow (Prim.holds_wrap (by decide) word)
  all_goals cases narrow

theorem fits_read {bytes : Array UInt8} {offset : Nat} {value : Value}
    (narrow : prim.isNarrow = true) (isRead : read? bytes offset prim = some value) :
    value.Fits prim := by
  obtain ⟨data, -, rfl⟩ := Option.map_eq_some_iff.mp isRead
  exact fits_decode narrow _

end Memory

namespace Arith

variable {value result : Value}

/-- An integer in place of a number, unless that is refused. -/
theorem fits_of_guarded {refused : Bool} {error : ArithError}
    (narrow : prim.isNarrow = true)
    (converts : (if refused then .error error else .ok (intValue prim (prim.wrap number))) =
      Except.ok result) : result.Fits prim := by
  cases refused with
  | true => cases converts
  | false =>
      cases converts
      exact Value.fits_wrap narrow number

/-- The result of a conversion. -/
theorem fits_convert {conversion : Conversion} (narrow : conversion.target.isNarrow = true)
    (converts : convert conversion value = .ok result) : result.Fits conversion.target := by
  obtain ⟨target, checked, unsignedSource⟩ := conversion
  unfold convert at converts
  split at converts
  · unfold convertInt at converts
    cases target
    case bool =>
      cases converts
      exact Value.fits_ofBool _
    case char | int8 | uint8 | int16 | uint16 =>
      dsimp only at converts
      split at converts
      · cases converts
      · cases converts
        exact Value.fits_wrap narrow _
    all_goals cases narrow
  · unfold convertReal at converts
    cases target
    case bool | char | int8 | uint8 | int16 | uint16 =>
      dsimp only at converts
      split at converts
      all_goals exact fits_of_guarded narrow converts
    all_goals cases narrow
  · cases converts

end Arith

/-! ## Operands -/

/-- What is known of the value of an operand from its type, as far as values of narrow types go. -/
structure Value.Suits (image : Image) (heap : Heap) (type : SourceTy) (value : Value) : Prop where
  fits : ∀ prim, prim.isNarrow = true → type = .prim prim → value.Fits prim
  /-- An array of a primitive type holds its elements as bytes. -/
  elements : ∀ prim, type = .array (.prim prim) → ∀ object element data pins, value = .ref object →
    heap.get? object = some (.array element data pins) → ∃ content, data = .bytes prim content
  /-- A box of a narrow type holds a value of the type. -/
  content : ∀ prim, prim.isNarrow = true → type = .object → ∀ handle inner,
    image.handleOf (.builtin (.prim prim)) = .ok handle →
      heap.deref? value = some (.boxed handle inner) → inner.Fits prim

theorem Exec.raise_ne_ok {α : Type} {image : Image} {exception : SystemException}
    {store later : Store} {value : α} : (raise image exception : Exec α).run store ≠ .ok value later := by
  intro ran
  have ends := (raise_ends : (raise image exception : Exec α).Ends fun _ => False) store
  rw [ran] at ends
  exact ends

namespace FrameStep

variable {image : Image} {store later : Store} {prim : Prim} {value array index result : Value}
variable {left right : Value}

theorem of_arrayOperand {object : ObjRef} {data : ArrayData}
    (ran : (arrayOperand image array).run store = .ok (object, data) later) :
    array = .ref object ∧
      ∃ element pins, store.heap.get? object = some (.array element data pins) := by
  unfold arrayOperand at ran
  cases array with
  | ref ref =>
      rw [EStateM.run_bind, run_heap] at ran
      dsimp only at ran
      split at ran
      next element found pins isArray =>
        cases ran
        exact ⟨rfl, element, pins, isArray⟩
      · cases ran
  | null => exact (Exec.raise_ne_ok ran).elim
  | _ => cases ran

/-- An element of an array. -/
theorem fits_loadElement (narrow : prim.isNarrow = true)
    (suits : array.Suits image store.heap (.array (.prim prim)))
    (ran : (loadElement image array index).run store = .ok result later) : result.Fits prim := by
  unfold loadElement at ran
  rw [EStateM.run_bind] at ran
  split at ran
  next found middle operand =>
    obtain ⟨object, data⟩ := found
    obtain ⟨rfl, element, pins, isArray⟩ := of_arrayOperand operand
    obtain ⟨content, rfl⟩ := suits.elements prim rfl object element data pins rfl isArray
    rw [EStateM.run_bind] at ran
    split at ran
    next position _ _ =>
      dsimp only at ran
      cases isRead : Memory.read? content (position * prim.size) prim with
      | none =>
          rw [isRead] at ran
          cases ran
      | some read =>
          rw [isRead] at ran
          cases ran
          exact Memory.fits_read narrow isRead
    · cases ran
  · cases ran

/-- A primitive that is read from raw memory. -/
theorem fits_loadIndirect (narrow : prim.isNarrow = true)
    (ran : (loadIndirect image prim value).run store = .ok result later) : result.Fits prim := by
  obtain ⟨read, heap, ⟨-, -, data, -, -, -, rfl⟩, done⟩ | ⟨-, trap, heap, done, -⟩ :=
    @loadIndirect_settles image store value prim
  · cases done.symm.trans ran
    exact Memory.fits_decode narrow _
  · cases done.symm.trans ran

/-- A converted number. -/
theorem fits_convert {conversion : Conversion} (narrow : conversion.target.isNarrow = true)
    (ran : (convert image conversion value).run store = .ok result later) :
    result.Fits conversion.target := by
  have notPointer : conversion.target.isPointer = false := by
    cases isTarget : conversion.target <;> rw [isTarget] at narrow <;> first | rfl | cases narrow
  have ran : (Exec.ofArith image (Arith.convert conversion value)).run store = .ok result later := by
    unfold convert at ran
    cases value
    case element =>
      dsimp only at ran
      rwa [notPointer, if_neg Bool.false_ne_true] at ran
    all_goals exact ran
  cases converts : Arith.convert conversion value with
  | ok converted =>
      rw [converts] at ran
      cases ran
      exact Arith.fits_convert narrow converts
  | error error =>
      rw [converts] at ran
      cases error
      case divideByZero | overflow => exact (Exec.raise_ne_ok ran).elim
      all_goals cases ran

/-- The content of a box. -/
theorem fits_unbox (narrow : prim.isNarrow = true) (suits : value.Suits image store.heap .object)
    (ran : (unbox image (.builtin (.prim prim)) value).run store = .ok result later) :
    result.Fits prim := by
  unfold unbox at ran
  rw [show image.isValueTy (.builtin (.prim prim)) = true from rfl, Bool.not_true,
    if_neg Bool.false_ne_true, EStateM.run_bind] at ran
  cases isType : image.handleOf (.builtin (.prim prim)) with
  | error error =>
      rw [isType] at ran
      cases ran
  | ok handle =>
      rw [isType] at ran
      dsimp only [Exec.ofImage] at ran
      rw [EStateM.run_pure] at ran
      dsimp only at ran
      split at ran
      · exact (Exec.raise_bind_ne_ok ran).elim
      rw [EStateM.run_bind, run_heap] at ran
      dsimp only at ran
      split at ran
      next actual content isBox =>
        split at ran
        next same =>
          subst same
          obtain ⟨word, rfl, holds⟩ := suits.content prim narrow rfl actual content isType isBox
          cases ran
          exact ⟨word, rfl, holds⟩
        · exact (Exec.raise_ne_ok ran).elim
      · exact (Exec.raise_ne_ok ran).elim

/-- A bit operation on truth values. -/
theorem fits_bits {op : ArithOp} (isBits : op = .and ∨ op = .or ∨ op = .xor)
    (isLeft : left.Fits .bool) (isRight : right.Fits .bool)
    (ran : (Exec.ofArith image (Arith.binary op left right)).run store = .ok result later) :
    result.Fits .bool := by
  obtain ⟨first, rfl⟩ := Value.fits_bool_iff.mp isLeft
  obtain ⟨second, rfl⟩ := Value.fits_bool_iff.mp isRight
  obtain rfl | rfl | rfl := isBits <;> cases first <;> cases second <;> cases ran <;>
    first
    | exact ⟨0, rfl, by decide⟩
    | exact ⟨1, rfl, by decide⟩

/-- The outcome of a comparison. -/
theorem fits_compare {op : CompareOp}
    (ran : (do return Value.ofBool (← Exec.ofArith image (Arith.compare op left right)) :
      Exec Value).run store = .ok result later) : result.Fits .bool := by
  rw [EStateM.run_bind] at ran
  split at ran
  · cases ran
    exact Value.fits_ofBool _
  · cases ran

/-! ## Straight runs -/

/-- Instructions are executed one after the other, and each of them goes on to the next one. -/
inductive Runs (image : Image) : List Instr → Frame → Store → Frame → Store → Prop where
  | nil {frame : Frame} {store : Store} : Runs image [] frame store frame store
  | cons {instr : Instr} {code : List Instr} {before between after : Frame}
      {store middle later : Store}
      (ran : ((execute image before.position instr).run
        { before with position := before.position + 1 }).run store = .ok (.next, between) middle)
      (rest : Runs image code between middle after later) :
      Runs image (instr :: code) before store after later

/-- Code that runs to its end leaves a value of a narrow type in the place of its operands. -/
def Produces (image : Image) (prim : Prim) (code : List Instr) (operands : List Value)
    (store : Store) : Prop :=
  ∀ (frame after : Frame) (later : Store) (rest : List Value), frame.stack = operands ++ rest →
    Runs image code frame store after later →
      ∃ value : Value, value.Fits prim ∧ after.stack = value :: rest

theorem of_mapTop {action : Value → Exec Value} {frame changed : Frame} {rest : List Value}
    {flow : Flow} (shape : frame.stack = value :: rest)
    (ran : ((mapTop action).run frame).run store = .ok (flow, changed) later) :
    ∃ result, (action value).run store = .ok result later ∧ changed.stack = result :: rest := by
  unfold mapTop at ran
  rw [StateT.run_bind, run_pop shape, pure_bind, StateT.run_bind, EStateM.run_bind] at ran
  cases acted : (action value).run store with
  | ok result middle =>
      rw [run_lift acted] at ran
      cases ran
      exact ⟨result, rfl, rfl⟩
  | error trap middle =>
      rw [Machine.run_lift_error acted] at ran
      cases ran

theorem of_mapTop₂ {action : Value → Value → Exec Value} {frame changed : Frame}
    {rest : List Value} {flow : Flow} (shape : frame.stack = right :: left :: rest)
    (ran : ((mapTop₂ action).run frame).run store = .ok (flow, changed) later) :
    ∃ result, (action left right).run store = .ok result later ∧ changed.stack = result :: rest := by
  have isMap : mapTop₂ action = pop >>= fun right => mapTop fun left => action left right := by
    unfold mapTop mapTop₂
    rfl
  rw [isMap, StateT.run_bind, run_pop shape, pure_bind] at ran
  have found := of_mapTop (show _ = left :: rest from rfl) ran
  exact found

namespace Produces

variable {operands : List Value} {code : List Instr} {instr : Instr}

theorem nil (fits : value.Fits prim) : Produces image prim [] [value] store := by
  rintro frame after later rest shape ⟨⟩
  exact ⟨value, fits, shape⟩

theorem const {constant : Constant}
    (next : Produces image prim code (FrameStep.constant constant :: operands) store) :
    Produces image prim (.const constant :: code) operands store := by
  intro frame after later rest shape runs
  cases runs with
  | cons ran runs =>
      cases ran
      exact next _ after later rest (congrArg (List.cons _) shape) runs

theorem mapTop {action : Value → Exec Value}
    (isMap : ∀ position, execute image position instr = FrameStep.mapTop action)
    (next : ∀ result later, (action value).run store = .ok result later →
      Produces image prim code (result :: operands) later) :
    Produces image prim (instr :: code) (value :: operands) store := by
  intro frame after later rest shape runs
  cases runs with
  | cons ran runs =>
      rw [isMap] at ran
      have moved : Frame.stack { frame with position := frame.position + 1 } =
        value :: (operands ++ rest) := shape
      obtain ⟨result, acted, isStack⟩ := of_mapTop moved ran
      exact next result _ acted _ after later rest isStack runs

theorem mapTop₂ {action : Value → Value → Exec Value} {left right : Value}
    (isMap : ∀ position, execute image position instr = FrameStep.mapTop₂ action)
    (next : ∀ result later, (action left right).run store = .ok result later →
      Produces image prim code (result :: operands) later) :
    Produces image prim (instr :: code) (right :: left :: operands) store := by
  intro frame after later rest shape runs
  cases runs with
  | cons ran runs =>
      rw [isMap] at ran
      have moved : Frame.stack { frame with position := frame.position + 1 } =
        right :: left :: (operands ++ rest) := shape
      obtain ⟨result, acted, isStack⟩ := of_mapTop₂ moved ran
      exact next result _ acted _ after later rest isStack runs

/-- What is thrown leaves nothing. -/
theorem throw : Produces image prim (.throw :: code) (value :: operands) store := by
  intro frame after later rest shape runs
  cases runs with
  | cons ran runs =>
      have height : frame.stack.length = (operands ++ rest).length + 1 := congrArg List.length shape
      have never := @throw_ends image frame.position
        { frame with position := frame.position + 1 } _ (fun _ _ => False) height store
      rw [ran] at never
      exact never.elim

/-- A comparison, of whatever values. -/
theorem compare {op : CompareOp} {left right : Value} :
    Produces image .bool [.compare op] [right, left] store :=
  mapTop₂ (fun _ => rfl) fun _ _ ran => nil (fits_compare ran)

/-- The code that turns a truth value into its opposite. -/
theorem negation : Produces image .bool Operators.negation [value] store :=
  const compare

end Produces

end FrameStep

/-! ## Nodes -/

open FrameStep

/-- An action makes values of a narrow type of operands of some types: it is carried out by fixed
code, and this leaves such a value. -/
def Action.Makes (prim : Prim) (types : List SourceTy) (action : Action) : Prop :=
  ∀ (context : LowerContext) (before after : Emitter),
    (context.lowerAction action).Writes before () after →
      ∃ code, after = before.emits code ∧ ∀ (image : Image) (store : Store) (operands : List Value),
        List.Forall₂ (Value.Suits image store.heap) types operands →
          Produces image prim code operands.reverse store

/-- A literal or an operator of a narrow type makes a value in the range of the type.  Nodes of the
other kinds only hand on values that other nodes have made. -/
def Core.MakesNarrow (prim : Prim) : Core → Prop
  | literal value => ∀ image store, Produces image prim value.code [] store
  | apply _ action operands => action.Makes prim (operands.map Core.type)
  | _ => True

namespace Action.Makes

variable {prim : Prim} {types : List SourceTy} {left right operand : SourceTy}
variable {image : Image} {store : Store} {instrs : List Instr}

theorem code {code : List Instr}
    (leaves : ∀ (image : Image) (store : Store) (operands : List Value),
      List.Forall₂ (Value.Suits image store.heap) types operands →
        Produces image prim code operands.reverse store) :
    (Action.code code).Makes prim types :=
  fun _ _ _ written => ⟨code, Lower.writes_emitAll.mp written, leaves⟩

theorem onType {action : TypeAction} {type : SourceTy}
    (leaves : ∀ (context : LowerContext) (found : RunTy), context.runTy type = .ok found →
      ∀ (image : Image) (store : Store) (operands : List Value),
        List.Forall₂ (Value.Suits image store.heap) types operands →
          Produces image prim (action.code found) operands.reverse store) :
    (Action.onType action type).Makes prim types := by
  intro context before after written
  obtain ⟨found, isFound, emitted⟩ := Lower.writes_lift_bind.mp written
  exact ⟨_, Lower.writes_emitAll.mp emitted, leaves context found isFound⟩

/-- Code that acts on one operand. -/
theorem of_single
    (each : ∀ value : Value, value.Suits image store.heap operand →
      Produces image prim instrs [value] store)
    (operands : List Value) (suit : List.Forall₂ (Value.Suits image store.heap) [operand] operands) :
    Produces image prim instrs operands.reverse store := by
  cases suit with
  | cons suits none =>
      cases none
      exact each _ suits

/-- Code that acts on two operands. -/
theorem of_pair
    (each : ∀ first second : Value, first.Suits image store.heap left →
      second.Suits image store.heap right → Produces image prim instrs [second, first] store)
    (operands : List Value)
    (suit : List.Forall₂ (Value.Suits image store.heap) [left, right] operands) :
    Produces image prim instrs operands.reverse store := by
  cases suit with
  | cons isLeft others =>
      cases others with
      | cons isRight none =>
          cases none
          exact each _ _ isLeft isRight

theorem unary
    (leaves : ∀ (image : Image) (store : Store) (value : Value),
      value.Suits image store.heap operand → Produces image prim instrs [value] store) :
    (Action.code instrs).Makes prim [operand] :=
  code fun image store => of_single (leaves image store)

theorem binary
    (leaves : ∀ (image : Image) (store : Store) (first second : Value),
      first.Suits image store.heap left → second.Suits image store.heap right →
        Produces image prim instrs [second, first] store) :
    (Action.code instrs).Makes prim [left, right] :=
  code fun image store => of_pair (leaves image store)

/-- A type test leaves a truth value. -/
theorem test {type : SourceTy} : (Action.onType .test type).Makes .bool [operand] :=
  onType fun _ _ _ _ _ => of_single fun _ _ => .mapTop (fun _ => rfl) fun _ _ _ => .const .compare

theorem unbox (narrow : prim.isNarrow = true) :
    (Action.onType .unbox (.prim prim)).Makes prim [.object] := by
  refine onType fun context found isFound image store => of_single fun value suits => ?_
  cases isFound
  exact .mapTop (fun _ => rfl) fun _ _ ran => .nil (fits_unbox narrow suits ran)

theorem loadElement (narrow : prim.isNarrow = true) :
    (Action.onType .loadElement (.prim prim)).Makes prim [.array (.prim prim), right] :=
  onType fun _ _ _ _ _ => of_pair fun _ _ isArray _ =>
    .mapTop₂ (fun _ => rfl) fun _ _ ran => .nil (fits_loadElement narrow isArray ran)

theorem comparison {op : BinaryOp} {shared : Prim} :
    (Action.code (Operators.comparison op shared)).Makes .bool [left, right] := by
  refine binary fun image store first second _ _ => ?_
  unfold Operators.comparison
  dsimp only
  split
  · exact .compare
  · exact .compare
  all_goals
    exact .mapTop₂ (fun _ => rfl) fun _ _ _ => .negation

end Action.Makes

namespace Operators

variable {context : TypeContext} {prim : Prim} {left right operand : SourceTy} {action : Action}

/-- The types with arithmetic are not narrow. -/
theorem not_isNarrow (arithmetic : prim.isArithmetic = true) : prim.isNarrow = false := by
  cases prim
  case bool | char | int8 | uint8 | int16 | uint16 => cases arithmetic
  all_goals rfl

theorem isBool_of_bitwise (narrow : prim.isNarrow = true)
    (allowed : (prim == .bool || prim.isInteger) = true) : prim = .bool := by
  cases prim
  case bool => rfl
  case char | int8 | uint8 | int16 | uint16 => cases allowed
  all_goals cases narrow

theorem makes_of_binary {op : BinaryOp} (narrow : prim.isNarrow = true)
    (meaning : Operators.binary context op left right = .ok (.prim prim, action)) :
    action.Makes prim [left, right] := by
  have found := binary?_of_binary meaning
  cases op with
  | add | sub | mul | div | rem =>
      replace found : arithmetic? _ left right = some (.prim prim, action) := found
      unfold arithmetic? at found
      split at found
      · cases found
      · split at found
        · cases found
          cases narrow
        · obtain ⟨shared, isShared, same⟩ := Option.bind_eq_some_iff.mp found
          obtain ⟨rfl, rfl, isAllowed⟩ := of_sharedPrim? isShared
          cases same
          cases narrow.symm.trans (not_isNarrow isAllowed)
  | bitAnd | bitOr | bitXor =>
      obtain ⟨shared, isShared, same⟩ := Option.bind_eq_some_iff.mp found
      obtain ⟨rfl, rfl, isAllowed⟩ := of_sharedPrim? isShared
      cases same
      obtain rfl := isBool_of_bitwise narrow isAllowed
      refine .binary fun image store first second isFirst isSecond => ?_
      refine .mapTop₂ (fun _ => rfl) fun result later ran => .nil ?_
      exact fits_bits (by decide) (isFirst.fits _ rfl rfl) (isSecond.fits _ rfl rfl) ran
  | shl | shr =>
      obtain ⟨shared, isPrim, same⟩ := Option.bind_eq_some_iff.mp found
      obtain ⟨accepted, same⟩ := Option.ite_none_right_eq_some.mp same
      obtain rfl := eq_of_prim? isPrim
      cases same
      have integer : prim.isInteger = true := (Bool.and_eq_true_iff.mp accepted).1
      cases narrow.symm.trans (not_isNarrow (Bool.or_eq_true_iff.mpr (.inl integer)))
  | eq =>
      obtain ⟨-, same⟩ := Option.ite_none_right_eq_some.mp found
      cases same
      exact .binary fun _ _ _ _ _ _ => .compare
  | ne =>
      obtain ⟨-, same⟩ := Option.ite_none_right_eq_some.mp found
      cases same
      exact .binary fun _ _ _ _ _ _ => .mapTop₂ (fun _ => rfl) fun _ _ _ => .negation
  | lt | le | gt | ge =>
      obtain ⟨shared, -, same⟩ := Option.map_eq_some_iff.mp found
      cases same
      exact .comparison
  | pow | atan2 =>
      obtain ⟨shared, isShared, same⟩ := Option.map_eq_some_iff.mp found
      obtain ⟨rfl, rfl, isFloat⟩ := of_sharedPrim? isShared
      cases same
      obtain rfl := beq_iff_eq.mp isFloat
      cases narrow
  | min | max =>
      obtain ⟨shared, isShared, same⟩ := Option.map_eq_some_iff.mp found
      obtain ⟨rfl, rfl, sized⟩ := of_sharedPrim? isShared
      cases same
      have arithmetic : prim.isArithmetic = true := by
        cases prim <;> first | rfl | cases sized
      cases narrow.symm.trans (not_isNarrow arithmetic)

theorem makes_of_unary {op : UnaryOp} (narrow : prim.isNarrow = true)
    (meaning : Operators.unary op operand = .ok (.prim prim, action)) :
    action.Makes prim [operand] := by
  obtain ⟨shared, isPrim, found⟩ := Option.bind_eq_some_iff.mp (unary?_of_unary meaning)
  obtain ⟨takes, same⟩ := Option.ite_none_right_eq_some.mp found
  obtain rfl := eq_of_prim? isPrim
  cases same
  by_cases isNot : op = .not
  · subst isNot
    obtain rfl := beq_iff_eq.mp takes
    exact .unary fun _ _ _ _ => .negation
  · have arithmetic : prim.isArithmetic = true := by
      cases op <;> cases prim <;> first | rfl | exact absurd rfl isNot | cases takes
    cases narrow.symm.trans (not_isNarrow arithmetic)

end Operators

namespace Literal

/-- A word without its top bit is the number that its bits are. -/
theorem toInt_toInt32 {word : UInt32} (small : word.toNat < 2 ^ 31) :
    word.toInt32.toInt = word.toNat := by
  have narrow : 2 * word.toBitVec.toNat < 2 ^ 32 := by
    rw [UInt32.toNat_toBitVec]
    omega
  exact BitVec.toInt_eq_toNat_of_lt narrow

/-- The word of a literal lies in the range of its type. -/
theorem holds_word {value : Literal} (narrow : prim.isNarrow = true)
    (isType : value.type = .prim prim) (notNull : ∀ type, value ≠ .null type)
    (plane : ∀ char, value = .char char → char.val.toNat < 2 ^ 16) :
    ∃ word : Int32, value.code = [.const (.int32 word)] ∧ prim.Holds word.toInt := by
  have unsigned {word : UInt32} {bound : Nat} (small : word.toNat < bound) (fits : bound ≤ 2 ^ 16)
      (isMin : prim.minValue = 0) (isMax : prim.maxValue = (bound : Int) - 1) :
      prim.Holds word.toInt32.toInt := by
    rw [toInt_toInt32 (by omega)]
    unfold Prim.Holds
    omega
  cases value
  case bool truth =>
    cases isType
    refine ⟨_, rfl, ?_⟩
    cases truth <;> decide
  case char char =>
    cases isType
    exact ⟨_, rfl, unsigned (plane char rfl) (Nat.le_refl _) rfl rfl⟩
  case uint8 value =>
    cases isType
    have small : value.toUInt32.toNat < 2 ^ 8 := (UInt8.toNat_toUInt32 value).symm ▸ value.toNat_lt
    exact ⟨_, rfl, unsigned small (by decide) rfl rfl⟩
  case uint16 value =>
    cases isType
    have small : value.toUInt32.toNat < 2 ^ 16 := (UInt16.toNat_toUInt32 value).symm ▸ value.toNat_lt
    exact ⟨_, rfl, unsigned small (Nat.le_refl _) rfl rfl⟩
  case int8 value =>
    cases isType
    refine ⟨_, rfl, ?_⟩
    rw [Int8.toInt_toInt32]
    exact ⟨value.le_toInt, value.toInt_le⟩
  case int16 value =>
    cases isType
    refine ⟨_, rfl, ?_⟩
    rw [Int16.toInt_toInt32]
    exact ⟨value.le_toInt, value.toInt_le⟩
  case null type => exact absurd rfl (notNull type)
  case string => cases isType
  all_goals
    cases isType
    cases narrow

end Literal

namespace Expr

variable {context : TypeContext} {prim : Prim} {core : Core}

/-- A node that uses a member only hands on what the member gives. -/
theorem makesNarrow_of_isMember (isMember : core.IsMember) : core.MakesNarrow prim := by
  obtain ⟨type, use, operands, rfl⟩ := isMember
  trivial

theorem unaryCore_makesNarrow {form : UnaryForm} {operand : Checked Core}
    (checked : context.unaryCore form operand = .ok core) (narrow : prim.isNarrow = true)
    (isType : core.type = .prim prim) : core.MakesNarrow prim := by
  cases form
  case setStaticField => exact makesNarrow_of_isMember (storeField_isMember checked)
  case setStaticProperty => exact makesNarrow_of_isMember (storeProperty_isMember checked)
  all_goals simp only [TypeContext.unaryCore, bind_eq_ok] at checked
  case op =>
    obtain ⟨_, _, ⟨type, action⟩, meaning, same⟩ := checked
    cases same
    cases isType
    exact Operators.makes_of_unary narrow meaning
  case field =>
    obtain ⟨_, _, _, _, checked⟩ := checked
    exact makesNarrow_of_isMember (loadField_isMember checked)
  case property =>
    obtain ⟨_, _, _, _, checked⟩ := checked
    exact makesNarrow_of_isMember (loadProperty_isMember checked)
  case convert target _ =>
    obtain ⟨_, _, checked⟩ := checked
    split at checked
    · cases checked
      cases isType
      exact Action.Makes.unary fun _ _ _ _ =>
        .mapTop (fun _ => rfl) fun _ _ ran => .nil (fits_convert narrow ran)
    · exact (throw_ne_ok.mp checked).elim
  case newArray =>
    split at checked
    · simp only [bind_eq_ok, throw_ne_ok, false_and, exists_false] at checked
    · simp only [bind_eq_ok, pure_eq_ok] at checked
      obtain ⟨_, _, _, _, rfl⟩ := checked
      cases isType
  case arrayLength =>
    obtain ⟨_, _, _, _, checked⟩ := checked
    cases checked
    cases isType
    cases narrow
  case isNull =>
    obtain ⟨_, _, _, _, checked⟩ := checked
    cases checked
    cases isType
    exact Action.Makes.unary fun _ _ _ _ => .const .compare
  case peek =>
    obtain ⟨_, _, _, _, checked⟩ := checked
    cases checked
    cases isType
    exact Action.Makes.unary fun _ _ _ _ =>
      .mapTop (fun _ => rfl) fun _ _ ran => .nil (fits_loadIndirect narrow ran)
  case throw =>
    obtain ⟨_, _, _, _, checked⟩ := checked
    cases checked
    exact Action.Makes.unary fun _ _ _ _ => .throw
  case box =>
    obtain ⟨_, _, _, _, checked⟩ := checked
    cases checked
    cases isType
  case cast type =>
    obtain ⟨operand, _, _, related, checked⟩ := checked
    cases checked
    cases isType
    obtain ⟨_, -, related⟩ := bind_eq_ok.mp related
    obtain ⟨_, isReference, -⟩ := bind_eq_ok.mp related
    cases (TypeContext.expectReference_eq_ok.mp isReference)
  case isInstance =>
    obtain ⟨_, _, _, _, checked⟩ := checked
    cases checked
    cases isType
    exact Action.Makes.test
  case unbox =>
    obtain ⟨operand, _, _, isObject, _, _, checked⟩ := checked
    cases checked
    cases isType
    have isObject : operand.type = .object := TypeContext.expectExact_eq_ok.mp isObject
    change Action.Makes prim [operand.type] _
    rw [isObject]
    exact Action.Makes.unbox narrow

theorem binaryCore_makesNarrow {form : BinaryForm} {left right : Checked Core}
    (checked : context.binaryCore form left right = .ok core) (narrow : prim.isNarrow = true)
    (isType : core.type = .prim prim) : core.MakesNarrow prim := by
  cases form
  all_goals simp only [TypeContext.binaryCore, bind_eq_ok] at checked
  case op =>
    obtain ⟨_, _, _, _, ⟨type, action⟩, meaning, same⟩ := checked
    cases same
    cases isType
    exact Operators.makes_of_binary narrow meaning
  case arrayRef =>
    obtain ⟨array, _, _, isElement, index, _, _, _, same⟩ := checked
    cases same
    cases isType
    change Action.Makes prim [array.type, index.type] _
    rw [elementType_eq_ok.mp isElement]
    exact Action.Makes.loadElement narrow
  case setField =>
    obtain ⟨_, _, _, _, checked⟩ := checked
    exact makesNarrow_of_isMember (storeField_isMember checked)
  case setProperty =>
    obtain ⟨_, _, _, _, checked⟩ := checked
    exact makesNarrow_of_isMember (storeProperty_isMember checked)
  case poke =>
    obtain ⟨_, _, _, _, _, _, checked⟩ := checked
    split at checked
    · cases checked
      cases isType
    · exact (throw_ne_ok.mp checked).elim

theorem ternaryCore_makesNarrow {form : TernaryForm} {first second third : Checked Core}
    (checked : context.ternaryCore form first second third = .ok core)
    (isType : core.type = .prim prim) : core.MakesNarrow prim := by
  cases form
  all_goals simp only [TypeContext.ternaryCore, bind_eq_ok, pure_eq_ok] at checked
  all_goals
    obtain ⟨_, _, _, _, _, _, _, _, _, _, _, _, rfl⟩ := checked
    cases isType

/-- A checked expression of a narrow type makes a value in range, if it makes one. -/
theorem Checks.makesNarrow {scope : Scope SourceTy} {expr : Expr}
    (checked : expr.Checks context scope core) (narrow : prim.isNarrow = true)
    (isType : core.type = .prim prim)
    (plane : ∀ char, core = .literal (.char char) → char.val.toNat < 2 ^ 16) :
    core.MakesNarrow prim := by
  cases checked.elaborates with
  | operation operation =>
      cases expr with
      | unary form operand => exact unaryCore_makesNarrow checked narrow isType
      | binary form left right => exact binaryCore_makesNarrow checked narrow isType
      | ternary form first second third => exact ternaryCore_makesNarrow checked isType
      | staticField owner name => exact makesNarrow_of_isMember (loadField_isMember checked)
      | staticProperty owner name => exact makesNarrow_of_isMember (loadProperty_isMember checked)
      | staticCall owner name args =>
          simp only [Checks, elaborate, bind_eq_ok] at checked
          obtain ⟨_, _, checked⟩ := checked
          exact makesNarrow_of_isMember (callMethod_isMember checked)
      | call receiver name args =>
          simp only [Checks, elaborate, bind_eq_ok] at checked
          obtain ⟨_, _, _, _, _, _, checked⟩ := checked
          exact makesNarrow_of_isMember (callMethod_isMember checked)
      | new type args =>
          simp only [Checks, elaborate, bind_eq_ok, pure_eq_ok] at checked
          obtain ⟨_, _, _, _, ctor, _, rfl⟩ := checked
          trivial
      | _ => simp [isOperation] at operation
  | literal value =>
      have notNull (type : SourceTy) : value ≠ .null type := by
        rintro rfl
        simp only [Checks, elaborate, bind_eq_ok] at checked
        obtain ⟨_, isReference, -⟩ := checked
        replace isReference := TypeContext.expectReference_eq_ok.mp isReference
        rw [show type = .prim prim from isType] at isReference
        cases isReference
      obtain ⟨word, isCode, holds⟩ := Literal.holds_word narrow isType notNull
        fun char same => plane char (congrArg Core.literal same)
      intro image store
      rw [isCode]
      exact .const (.nil ⟨word, rfl, holds⟩)
  | _ => trivial

end Expr

/-! ## Values that are kept -/

namespace Arith

/-- Converting an integer without a check, or one that passes it. -/
theorem convert_intValue {target : Prim} {checked : Bool} (integral : prim.isIntegral = true)
    (holds : prim.Holds number) (toIntegral : target.isIntegral = true)
    (fits : checked = true → target.Holds number) :
    convert ⟨target, checked, prim.isUnsigned⟩ (intValue prim number) =
      .ok (intValue target (target.wrap number)) := by
  rw [convert_eq integral toIntegral holds, Operators.converted,
    if_neg fun refused => refused.2 (fits refused.1)]
  rfl

/-- A number keeps its bits in a type at least as wide, so converting there and back changes
nothing. -/
theorem wrap_wrap {target : Prim} (wider : prim.size ≤ target.size) (holds : prim.Holds number) :
    prim.wrap (target.wrap number) = number := by
  have divides : (prim.modulus : Int) ∣ target.modulus := by
    rw [Prim.modulus_eq, Prim.modulus_eq]
    exact Int.natCast_dvd_natCast.mpr (Nat.pow_dvd_pow 256 wider)
  have same : target.wrap number % prim.modulus = number % prim.modulus := by
    rw [← Int.emod_emod_of_dvd _ divides, Prim.wrap_emod, Int.emod_emod_of_dvd _ divides]
  rw [Prim.wrap_congr same, Prim.wrap_of_holds holds]

end Arith

/-- A value of a narrow type comes back unchanged from an array of the type and from a type that is
at least as wide. -/
structure Value.Survives (prim : Prim) (value : Value) : Prop where
  stored : ∀ (image : Image) (store : Store) (array : ObjRef) (element : RunTy)
    (content : Array UInt8) (pins index : Nat),
      store.heap.get? array = some (.array element (.bytes prim content) pins) →
      index < content.size / prim.size → index < 2 ^ 31 →
        ∃ later, (storeElement image (.ref array) (.int32 (.ofNat index)) value).run store =
            .ok () later ∧
          (loadElement image (.ref array) (.int32 (.ofNat index))).run later = .ok value later
  widened : prim ≠ .bool → ∀ (target : Prim) (checked : Bool), target.isIntegral = true →
    prim.size ≤ target.size →
      (checked = true → ∀ number, prim.Holds number → target.Holds number) →
        ∃ wide, Arith.convert ⟨target, checked, prim.isUnsigned⟩ value = .ok wide ∧
          Arith.convert ⟨prim, checked, target.isUnsigned⟩ wide = .ok value

/-- A value in the range of its type survives. -/
theorem Value.Fits.survives {value : Value} (narrow : prim.isNarrow = true) (fits : value.Fits prim) :
    value.Survives prim := by
  obtain ⟨number, holds, rfl⟩ := fits.exists_intValue narrow
  have notFloat := Prim.notFloat_of_isNarrow narrow
  constructor
  · intro image store array element content pins index isArray inside small
    obtain ⟨word, encodes, same⟩ := Memory.encode?_intValue notFloat holds
    have own (ref : ObjRef) : Arith.intValue prim number ≠ .struct ref := by
      obtain ⟨word, isWord, -⟩ := fits
      rw [isWord]
      rintro ⟨⟩
    have stillInside : index < (Memory.overwrite content (index * prim.size)
        (Memory.toBytes prim.size word)).size / prim.size := by
      rwa [Memory.size_overwrite]
    have isRead := Memory.read?_written notFloat holds (Memory.element_inside inside) same
    exact ⟨_, FrameStep.run_storeElement isArray inside small own encodes,
      FrameStep.run_loadElement (Memory.get?_setBytes isArray _) stillInside small isRead⟩
  · intro notBool target checked toIntegral wider fitting
    have integral : prim.isIntegral = true := by
      cases prim
      case bool => contradiction
      case char | int8 | uint8 | int16 | uint16 => rfl
      all_goals cases narrow
    have fitsTarget (isChecked : checked = true) : target.Holds number :=
      fitting isChecked number holds
    have notBoolTarget : target ≠ .bool := by
      rintro rfl
      cases toIntegral
    have fitsBack (isChecked : checked = true) : prim.Holds (target.wrap number) := by
      rwa [Prim.wrap_of_holds (fitsTarget isChecked)]
    have back := Arith.convert_intValue toIntegral (Prim.holds_wrap notBoolTarget number) integral
      fitsBack
    rw [Arith.wrap_wrap wider holds] at back
    exact ⟨_, Arith.convert_intValue integral holds toIntegral fitsTarget, back⟩

/-! ## Programs -/

/-- A literal of a narrow type makes a value in the range of the type, unless it is a character beyond
the first plane, and so does an operator, from operands that suit the types that the checker saw.
Nodes of other kinds make no value of their own.  A value in the range of its type survives being
stored in an array and being converted to a wider type. -/
theorem Module.narrow_values_in_range {module : Module} {image : Image} {program : Program}
    (checked : module.check image = .ok program) {cls : CoreClass} (isClass : cls ∈ program)
    {node : Core} (isNode : node ∈ Core.preorderAll cls.roots) {prim : Prim}
    (narrow : prim.isNarrow = true) (isType : node.type = .prim prim)
    (plane : ∀ char, node = .literal (.char char) → char.val.toNat < 2 ^ 16) :
    node.MakesNarrow prim ∧ ∀ value : Value, value.Fits prim → value.Survives prim := by
  refine ⟨?_, fun value fits => fits.survives narrow⟩
  obtain ⟨context, accepted⟩ := Module.accepted_of_check checked
  obtain ⟨scope, expr, nodeChecked⟩ := accepted.exists_checks isClass isNode
  exact nodeChecked.makesNarrow narrow isType plane

/-- A module with a method that gives the low byte of a number. -/
def Module.truncating : Module where
  classes := [
    { name := "Bytes"
      attrs := .publicClass
      base := none
      interfaces := []
      fields := []
      methods := [
        { name := "low"
          attrs := .publicStatic
          params := [⟨"n", .prim .int32⟩]
          ret := .prim .uint8
          body := some (.unary (.convert .uint8 false) (.var "n")) }]
      ctors := []
      properties := [] }]

theorem Module.narrow_values_in_range_truncated :
    ∃ program cls node, Module.truncating.check .library = .ok program ∧ cls ∈ program ∧
      node ∈ Core.preorderAll cls.roots ∧ node.type = .prim .uint8 ∧ node.MakesNarrow .uint8 ∧
        ∀ value : Value, value.Fits .uint8 → value.Survives .uint8 := by
  have found : (Module.truncating.check .library).toOption.any (fun program =>
      decide (∃ cls ∈ program, ∃ node ∈ Core.preorderAll cls.roots, node.type = .prim .uint8)) =
        true := by
    decide +kernel
  obtain ⟨program, checked, holds⟩ := exists_ok_of_any found
  obtain ⟨cls, isClass, node, isNode, isType⟩ := of_decide_eq_true holds
  have plane (char : Char) (same : node = .literal (.char char)) : char.val.toNat < 2 ^ 16 := by
    subst same
    cases isType
  obtain ⟨makes, survive⟩ := Module.narrow_values_in_range checked isClass isNode rfl isType plane
  exact ⟨program, cls, node, checked, isClass, isNode, isType, makes, survive⟩

end ClassForge
