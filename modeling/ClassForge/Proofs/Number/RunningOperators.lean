import ClassForge.Proofs.Image.PlatformFunctions
import ClassForge.Proofs.Machine.StraightCode
import ClassForge.Proofs.Number.OperatorTable

/-!
# Running operators on integers

The code that the checker selects for an operator runs to the value that the operator means for the
integers on the stack, or it raises the exception of a division or of an absolute value without a
result.  `Min`, `Max` and `Abs` are calls of the platform, and such a call needs room for one more
level.
-/

namespace ClassForge

namespace Operators

/-! ## Answers -/

/-- What an operator gives for two integers of a type, with the type that it has.  A truth value
counts as 0 or 1. -/
def answer? (op : BinaryOp) (prim : Prim) (left right : Int) :
    Option (Prim × Except ArithError Int) :=
  match truth? op left right with
  | some truth => some (.bool, .ok truth.toInt)
  | none => (integer? op prim left right).map fun result => (prim, result)

end Operators

/-- The exception of an operation without a result. -/
def ArithError.exception? : ArithError → Option SystemException
  | .divideByZero => some .divideByZero
  | .overflow => some .overflow
  | _ => none

theorem Exec.ofArith_error {α : Type} {image : Image} {error : ArithError}
    {exception : SystemException} (isException : error.exception? = some exception) :
    (Exec.ofArith image (.error error) : Exec α) = Exec.raise image exception := by
  cases error <;> cases isException <;> rfl

namespace Operators

section Answers

variable {prim : Prim} {left right : Int} {op : BinaryOp}

theorem answer?_of_integer? {result : Except ArithError Int}
    (means : integer? op prim left right = some result) :
    answer? op prim left right = some (prim, result) := by
  unfold answer?
  cases op
  case eq | ne | lt | le | gt | ge => cases means
  all_goals exact congrArg (Option.map fun result => (prim, result)) means

theorem answer?_of_truth? {truth : Bool} (means : truth? op left right = some truth) :
    answer? op prim left right = some (.bool, .ok truth.toInt) := by
  unfold answer?
  rw [means]

/-- An operation without a result raises an exception. -/
theorem exception_of_integer? {error : ArithError}
    (means : integer? op prim left right = some (.error error)) :
    error = .divideByZero ∨ error = .overflow := by
  have ofDivided : ∀ {result : Int}, divided prim left right result = .error error →
      error = .divideByZero ∨ error = .overflow := by
    intro result isError
    unfold divided at isError
    split at isError
    · exact .inl (Except.error.inj isError).symm
    · split at isError
      · exact .inr (Except.error.inj isError).symm
      · cases isError
  cases op
  case div | rem => exact ofDivided (Option.some.inj means)
  all_goals cases means

end Answers

end Operators

namespace Machine

open FrameStep

/-! ## Actions -/

/-- Code with some values on top of the stack goes on with one value in their place, or with an
exception. -/
def Seat.Answers (image : Image) (limit : Nat) (seat : Seat) (frame : Frame) (start stop : Nat)
    (operands rest : List Value) (store : Store) : Except ArithError Value → Prop
  | .ok value =>
      Reaches image limit (seat.config frame start (operands ++ rest) store)
        (seat.config frame stop (value :: rest) store)
  | .error error =>
      ∃ exception, error.exception? = some exception ∧
        seat.Throws image limit (seat.config frame start (operands ++ rest) store) exception

/-- An action has code, and wherever this stands it gives an answer for some operands.  Only a call
of a routine is cut off when there is no room for another level. -/
def Performs (image : Image) (context : LowerContext) (action : Action) (operands : List Value)
    (answer : Except ArithError Value) : Prop :=
  ∀ before, ∃ after, (context.lowerAction action).Writes before () after ∧
    ∀ (limit : Nat) (seat : Seat) (frame : Frame), after.PlacedIn frame.body →
      ∀ (rest : List Value) (store : Store),
        seat.Answers image limit frame before.position after.position operands rest store answer ∨
          (∃ owner name params, action = .routine owner name params) ∧ seat.room = 0 ∧
            CutOff image limit (seat.config frame before.position (operands ++ rest) store)

namespace Performs

variable {image : Image} {context : LowerContext} {code : List Instr} {operands : List Value}
variable {value : Value}

/-- Code that computes a value. -/
theorem of_computes (computes : ∀ store, Computes image code operands store [value] store) :
    Performs image context (.code code) operands (.ok value) := by
  have written (before : Emitter) : (Lower.emitAll code).Writes before () (before.emits code) :=
    Lower.writes_emitAll.mpr rfl
  refine fun before => ⟨_, written before, ?_⟩
  intro limit seat frame placed rest store
  obtain ⟨hasCode, stop⟩ := Body.hasCode_of_writes (written before) placed
  rw [stop]
  exact .inl (computes store limit seat frame before.position rest hasCode)

/-- An arithmetic instruction. -/
theorem of_arith {op : ArithOp} {left right : Value} {answer : Except ArithError Value}
    (built : image.Built) (computes : Arith.binary op left right = answer)
    (raises : ∀ error, answer = .error error → error = .divideByZero ∨ error = .overflow) :
    Performs image context (.instr (.arith op)) [right, left] answer := by
  cases answer with
  | ok value => exact of_computes fun store => .arith computes
  | error error =>
      obtain ⟨exception, isException⟩ : ∃ exception, error.exception? = some exception := by
        rcases raises error rfl with rfl | rfl
        · exact ⟨_, rfl⟩
        · exact ⟨_, rfl⟩
      have written (before : Emitter) :
          (Lower.emitAll [.arith op]).Writes before () (before.emits [.arith op]) :=
        Lower.writes_emitAll.mpr rfl
      refine fun before => ⟨_, written before, ?_⟩
      intro limit seat frame placed rest store
      obtain ⟨hasCode, -⟩ := Body.hasCode_of_writes (written before) placed
      refine .inl ⟨exception, isException, ?_⟩
      refine Seat.throws_mapTop₂ built (hasCode 0 _ rfl) rfl ?_
      rw [computes, Exec.ofArith_error isException]

end Performs

end Machine

/-- What a built-in member without effects gives for some arguments. -/
def Native.Gives (image : Image) (native : Native) (args : List Value) :
    Except ArithError Value → Prop
  | .ok value => ∀ store, (native.run image args).run store = .ok (.value value) store
  | .error error =>
      ∃ exception, error.exception? = some exception ∧
        ∀ store, (native.run image args).run store = (Exec.raise image exception).run store

namespace Machine

open FrameStep

section Routines

variable {image : Image} {context : LowerContext} {name : Name} {operands : List SourceTy}
variable {types : List RunTy} {native : Native} {args : List Value} {answer : Except ArithError Value}
variable {method : MethodHandle} {info : MethodInfo}

/-- A call of a member of the platform gives what the member gives. -/
theorem Seat.answers_call {limit : Nat} {seat : Seat} {frame : Frame} {position : Nat}
    {rest : List Value} {store : Store} (built : image.Built)
    (isInstr : frame.body.instrs[position]? = some (.call method false))
    (isMethod : image.method? method = some info)
    (isRoutine : Image.isRoutine native args.length info = true)
    (own : ∀ value ∈ args, ∀ ref, value ≠ .struct ref) (gives : native.Gives image args answer) :
    seat.Answers image limit frame position (position + 1) args.reverse rest store answer ∨
      seat.room = 0 ∧ CutOff image limit (seat.config frame position (args.reverse ++ rest) store) := by
  simp only [Image.isRoutine, Bool.and_eq_true, beq_iff_eq, Bool.not_eq_true'] at isRoutine
  obtain ⟨⟨⟨isStatic, count⟩, hasValue⟩, isNative⟩ := isRoutine
  have ran := @execute_call image
    { frame with position, stack := args.reverse ++ rest } false store store method info args args rest
    isMethod isStatic count.symm rfl (run_copyAll own store)
  have enters := @Seat.step_enter image limit seat frame position (args.reverse ++ rest) rest store
    store _ _ _ isInstr ran
  obtain ⟨next, values, begins⟩ := @run_beginStatic method image store args native info isMethod
    isStatic isNative
  cases isRoom : seat.room with
  | zero =>
      rw [isRoom] at enters
      exact .inr ⟨rfl, _, _, .refl, enters⟩
  | succ room =>
      rw [isRoom] at enters
      left
      cases answer with
      | ok value =>
          rw [EStateM.run_bind, gives store] at begins
          dsimp only at begins
          rw [values value] at begins
          have pushes : info.onReturn = .push := if_neg (by rw [hasValue]; exact Bool.false_ne_true)
          have delivers := @Seat.step_deliver image limit seat frame (position + 1) rest store value
            info.onReturn room isRoom
          rw [pushes] at delivers enters
          exact .head enters (.head (Seat.step_begin begins) (.single delivers))
      | error error =>
          obtain ⟨exception, isException, raises⟩ := gives
          obtain ⟨handle, object, later, isHandle, raised, isObject⟩ :=
            @Exec.raise_throws image store Native.Outcome built exception
          rw [EStateM.run_bind, raises store, raised] at begins
          exact ⟨exception, isException, _, _, object, later,
            .head enters (.single (Seat.step_begin_throw begins)), .called, isObject.trans isHandle.symm⟩

/-- A function of the mathematics class. -/
theorem Performs.of_math (built : image.Built) (prepared : context.image.Built)
    (areTypes : context.runTys operands = .ok types)
    (isRoutine : (Image.library.mathMethod? name types).any (Image.isRoutine native args.length) = true)
    (own : ∀ value ∈ args, ∀ ref, value ≠ .struct ref) (gives : native.Gives image args answer) :
    Performs image context (Operators.math name operands) args.reverse answer := by
  obtain ⟨info, found, isRoutine⟩ := (Option.any_eq_true _ _).mp isRoutine
  obtain ⟨method, isFound, isInfo⟩ := Option.bind_eq_some_iff.mp found
  have inLibrary : Image.library.resolveMethod (.builtin (.named Platform.math)) name false types =
      .ok method := by
    generalize Image.library.resolveMethod (.builtin (.named Platform.math)) name false types = result
      at isFound
    cases result with
    | error => cases isFound
    | ok found => exact congrArg Except.ok (Option.some.inj isFound)
  have written (before : Emitter) : (context.lowerAction (Operators.math name operands)).Writes before ()
      (before.emit (.call method false)) := by
    refine Lower.writes_bind.mpr ⟨method, before, ?_, Lower.writes_emit.mpr rfl⟩
    refine Lower.writes_lift_bind.mpr ⟨.builtin (.named Platform.math), rfl, ?_⟩
    refine Lower.writes_lift_bind.mpr ⟨types, areTypes, ?_⟩
    exact Lower.writes_ofImage.mpr ⟨prepared.resolveMethod_library inLibrary, rfl⟩
  refine fun before => ⟨_, written before, ?_⟩
  intro limit seat frame placed rest store
  have stands : (Lower.emitAll [.call method false]).Writes before ()
      (before.emit (.call method false)) := Lower.writes_emitAll.mpr rfl
  obtain ⟨hasCode, stop⟩ := Body.hasCode_of_writes stands placed
  have isMethod := (built.method_library inLibrary).trans isInfo
  have called := @Seat.answers_call image native args answer method info limit seat frame
    before.position rest store built (hasCode 0 _ rfl) isMethod isRoutine own gives
  rw [show (before.emit (.call method false)).position = before.position + 1 from stop]
  exact called.imp_right fun cut => ⟨⟨_, _, _, rfl⟩, cut⟩

end Routines

/-! ## Operators -/

/-- An action has a result of a primitive type: an integer in its range, or an exception. -/
def Realizes (image : Image) (context : LowerContext) (action : Action) (type : SourceTy)
    (operands : List Value) (answer : Option (Prim × Except ArithError Int)) : Prop :=
  ∃ kind result, answer = some (kind, result) ∧ type = .prim kind ∧
    (∀ number, result = .ok number → kind.Holds number) ∧
    Performs image context action operands (result.map (Arith.intValue kind))

namespace Realizes

open Operators

variable {image : Image} {context : LowerContext} {op : BinaryOp} {prim : Prim} {left right : Int}

section Kinds

variable {action : Action} {operands : List Value} {code : List Instr}
variable {result : Except ArithError Int}

theorem of_integer (integral : prim.isIntegral = true) (isLeft : prim.Holds left)
    (isRight : op ≠ .shl → op ≠ .shr → prim.Holds right)
    (means : integer? op prim left right = some result)
    (performs : Performs image context action operands (result.map (Arith.intValue prim))) :
    Realizes image context action (.prim prim) operands (answer? op prim left right) :=
  ⟨prim, result, answer?_of_integer? means, rfl,
    fun _ isNumber => holds_of_integer? integral isLeft isRight (isNumber ▸ means), performs⟩

theorem of_truth {truth : Bool} (means : truth? op left right = some truth)
    (computes : ∀ store, Computes image code operands store [.ofBool truth] store) :
    Realizes image context (.code code) .bool operands (answer? op prim left right) := by
  refine ⟨.bool, .ok truth.toInt, answer?_of_truth? means, rfl, ?_, ?_⟩
  · rintro _ ⟨⟩
    cases truth <;> decide
  · have isValue : Arith.intValue .bool truth.toInt = .ofBool truth := by
      cases truth <;> rfl
    exact .of_computes fun store => isValue.symm ▸ computes store

/-- An integer that one instruction computes. -/
theorem of_arith {arithOp : ArithOp} {leftValue rightValue : Value} (built : image.Built)
    (integral : prim.isIntegral = true) (isLeft : prim.Holds left)
    (isRight : op ≠ .shl → op ≠ .shr → prim.Holds right)
    (means : integer? op prim left right = some result)
    (computes : Arith.binary arithOp leftValue rightValue = result.map (Arith.intValue prim)) :
    Realizes image context (.instr (.arith arithOp)) (.prim prim) [rightValue, leftValue]
      (answer? op prim left right) := by
  refine of_integer integral isLeft isRight means (.of_arith built computes fun error isError => ?_)
  cases result with
  | ok number => cases isError
  | error =>
      cases isError
      exact exception_of_integer? means

end Kinds

/-- The opposite of a comparison. -/
theorem computes_negated {compareOp : CompareOp} {leftValue rightValue : Value} {truth : Bool}
    {store : Store} (computes : Arith.compare compareOp leftValue rightValue = .ok truth) :
    Computes image (.compare compareOp :: negation) [rightValue, leftValue] store
      [.ofBool !truth] store :=
  @Computes.append image store store store [.compare compareOp] negation [rightValue, leftValue]
    [.ofBool truth] _ [] (.compare computes) (.negation truth)

section Comparisons

variable (integral : prim.isIntegral = true) (isLeft : prim.Holds left) (isRight : prim.Holds right)

include integral isLeft isRight

theorem of_order (isOp : op ∈ [.lt, .le, .gt, .ge]) :
    Realizes image context (.code (comparison op prim)) .bool
      [Arith.intValue prim right, Arith.intValue prim left] (answer? op prim left right) := by
  have noFloat : (prim.isUnsigned || prim.isFloat) = prim.isUnsigned := by
    cases prim
    case float32 | float64 => cases integral
    all_goals rfl
  have isLess := Arith.compare_lt integral isLeft isRight
  have isGreater := Arith.compare_gt integral isLeft isRight
  cases op
  case lt => exact of_truth rfl fun store => .compare isLess
  case gt => exact of_truth rfl fun store => .compare isGreater
  case le =>
    have isNot : decide (left ≤ right) = !decide (right < left) := by
      rw [← decide_not, decide_eq_decide, Int.not_lt]
    have isCode : comparison .le prim =
        .compare (if prim.isUnsigned then .gtUnsigned else .gt) :: negation :=
      congrArg (fun unordered : Bool =>
        Instr.compare (if unordered then .gtUnsigned else .gt) :: negation) noFloat
    refine of_truth rfl fun store => ?_
    rw [isNot, isCode]
    exact computes_negated isGreater
  case ge =>
    have isNot : decide (right ≤ left) = !decide (left < right) := by
      rw [← decide_not, decide_eq_decide, Int.not_lt]
    have isCode : comparison .ge prim =
        .compare (if prim.isUnsigned then .ltUnsigned else .lt) :: negation :=
      congrArg (fun unordered : Bool =>
        Instr.compare (if unordered then .ltUnsigned else .lt) :: negation) noFloat
    refine of_truth rfl fun store => ?_
    rw [isNot, isCode]
    exact computes_negated isLess
  all_goals exact absurd isOp (by decide)

theorem of_equal :
    Realizes image context (.instr (.compare .eq)) .bool
      [Arith.intValue prim right, Arith.intValue prim left] (answer? .eq prim left right) :=
  of_truth rfl fun _ => .compare (Arith.compare_eq integral isLeft isRight)

theorem of_unequal :
    Realizes image context (.code (.compare .eq :: negation)) .bool
      [Arith.intValue prim right, Arith.intValue prim left] (answer? .ne prim left right) := by
  have same : decide (left ≠ right) = !decide (left = right) := decide_not
  refine of_truth rfl fun store => ?_
  rw [same]
  exact computes_negated (Arith.compare_eq integral isLeft isRight)

end Comparisons

section Routines

variable (built : image.Built) (prepared : context.image.Built) (sized : prim = .int32 ∨ prim = .int64)

include sized

theorem intValue_ne_struct (value : Int) (ref : ObjRef) : Arith.intValue prim value ≠ .struct ref := by
  rcases sized with rfl | rfl <;> rintro ⟨⟩

include built prepared

/-- The lesser or the greater one of two integers. -/
theorem of_extremum {name : Name} {native : Native} {result : Int} (isLeft : prim.Holds left)
    (isRight : prim.Holds right) (means : integer? op prim left right = some (.ok result))
    (isRoutine : (Image.library.mathMethod? name [.prim prim, .prim prim]).any
      (Image.isRoutine native 2) = true)
    (runs : ∀ store, (native.run image [Arith.intValue prim left, Arith.intValue prim right]).run store =
      .ok (.value (Arith.intValue prim result)) store) :
    Realizes image context (math name [.prim prim, .prim prim]) (.prim prim)
      [Arith.intValue prim right, Arith.intValue prim left] (answer? op prim left right) := by
  have integral : prim.isIntegral = true := by
    rcases sized with rfl | rfl <;> rfl
  refine of_integer integral isLeft (fun _ _ => isRight) means ?_
  refine @Performs.of_math image context name _ [.prim prim, .prim prim] native
    [Arith.intValue prim left, Arith.intValue prim right] (.ok (Arith.intValue prim result)) built
    prepared rfl isRoutine ?_ runs
  exact List.forall_mem_cons.mpr ⟨intValue_ne_struct sized left,
    List.forall_mem_singleton.mpr (intValue_ne_struct sized right)⟩

/-- The absolute value of an integer. -/
theorem of_abs {operand : Int} (holds : prim.Holds operand)
    (isRoutine : (Image.library.mathMethod? "Abs" [.prim prim]).any
      (Image.isRoutine (.intAbs prim.isWide) 1) = true) :
    Performs image context (math "Abs" [.prim prim]) [Arith.intValue prim operand]
      ((if operand = prim.minValue then .error .overflow
        else .ok (operand.natAbs : Int) : Except ArithError Int).map (Arith.intValue prim)) := by
  refine @Performs.of_math image context "Abs" _ [.prim prim] (.intAbs prim.isWide)
    [Arith.intValue prim operand] _ built prepared rfl isRoutine
    (List.forall_mem_singleton.mpr (intValue_ne_struct sized operand)) ?_
  have runs := @Native.run_intAbs prim sized image operand holds
  by_cases least : operand = prim.minValue
  · rw [if_pos least]
    exact ⟨.overflow, rfl, fun store => (runs store).trans (if_pos least)⟩
  · rw [if_neg least]
    exact fun store => (runs store).trans (if_neg least)

end Routines

section Selections

variable {other : Prim} {type : SourceTy} {action : Action}
variable (built : image.Built) (prepared : context.image.Built) (integral : prim.isIntegral = true)
variable (isLeft : prim.Holds left)

include built prepared integral isLeft

theorem of_selects (isRight : other.Holds right) (selects : Selects op prim other type action) :
    Realizes image context action type [Arith.intValue other right, Arith.intValue prim left]
      (answer? op prim left right) := by
  have routines (sized : prim = .int32 ∨ prim = .int64) := by
    have evaluates := Image.library_math prim (by rcases sized with rfl | rfl <;> decide)
    exact Bool.and_eq_true_iff.mp (Bool.and_eq_true_iff.mp evaluates).1
  cases selects with
  | arithmetic isOp integer =>
      obtain ⟨result, means⟩ : ∃ result, integer? op prim left right = some result := by
        cases op
        case eq | ne | lt | le | gt | ge | pow | atan2 => exact absurd isOp (by decide)
        all_goals exact ⟨_, rfl⟩
      refine of_arith built integral isLeft (fun _ _ => isRight) means ?_
      refine Arith.binary_eq integer isLeft isRight means ?_ ?_ ?_ ?_
      all_goals
        rintro rfl
        exact absurd isOp (by decide)
  | offset isOp =>
      obtain ⟨result, means⟩ : ∃ result, integer? op .intPtr left right = some result := by
        rcases isOp with rfl | rfl <;> exact ⟨_, rfl⟩
      exact of_arith built integral isLeft
        (fun _ _ => ⟨Int.le_trans (by decide) isRight.1, Int.le_trans isRight.2 (by decide)⟩) means
        (Arith.binary_offset_eq isLeft isRight means isOp)
  | shift isOp integer =>
      obtain ⟨result, means⟩ : ∃ result, integer? op prim left right = some result := by
        rcases isOp with rfl | rfl <;> exact ⟨_, rfl⟩
      refine of_arith built integral isLeft (fun notShl notShr => ?_) means
        (Arith.binary_shift_eq integer isLeft isRight means isOp)
      exact absurd isOp (not_or.mpr ⟨notShl, notShr⟩)
  | equal => exact of_equal integral isLeft isRight
  | unequal => exact of_unequal integral isLeft isRight
  | order isOp => exact of_order integral isLeft isRight isOp
  | least sized =>
      exact of_extremum built prepared sized isLeft isRight rfl (routines sized).1
        (Native.run_intMin sized isLeft isRight)
  | greatest sized =>
      exact of_extremum built prepared sized isLeft isRight rfl (routines sized).2
        (Native.run_intMax sized isLeft isRight)

theorem of_selects₁ {op : UnaryOp} (selects : Selects₁ op prim action) :
    Realizes image context action (.prim prim) [Arith.intValue prim left]
      ((integer₁? op prim left).map fun result => (prim, result)) := by
  have answers {result : Except ArithError Int} (means : integer₁? op prim left = some result)
      (performs : Performs image context action [Arith.intValue prim left]
        (result.map (Arith.intValue prim))) :
      Realizes image context action (.prim prim) [Arith.intValue prim left]
        ((integer₁? op prim left).map fun result => (prim, result)) :=
    ⟨prim, result, congrArg (Option.map fun result => (prim, result)) means, rfl,
      fun _ isNumber => holds_of_integer₁? integral isLeft (isNumber ▸ means), performs⟩
  cases selects with
  | neg integer => exact answers rfl (.of_computes fun _ => .neg (Arith.neg_eq integer left))
  | bitNot integer => exact answers rfl (.of_computes fun _ => .not (Arith.not_eq integer left))
  | abs sized =>
      have evaluates := Image.library_math prim (by rcases sized with rfl | rfl <;> decide)
      exact answers rfl (of_abs built prepared sized isLeft (Bool.and_eq_true_iff.mp evaluates).2)

end Selections

end Realizes

/-- Every operator that the checker accepts for an integer gives the integer, or the truth value, that
it means in the type of the operands, or it raises the exception of a division by zero or of an
overflow.  An operator that calls a routine is cut off instead when there is no room for a level. -/
theorem integer_operators {image : Image} (built : image.Built) {context : LowerContext}
    (prepared : context.image.Built) {prim : Prim} (integral : prim.isIntegral = true) {left : Int}
    (isLeft : prim.Holds left) :
    (∀ (typing : TypeContext) (op : BinaryOp) (other : Prim) (right : Int) (type : SourceTy)
      (action : Action), other.Holds right →
      Operators.binary typing op (.prim prim) (.prim other) = .ok (type, action) →
        Realizes image context action type [Arith.intValue other right, Arith.intValue prim left]
          (Operators.answer? op prim left right)) ∧
      ∀ (op : UnaryOp) (type : SourceTy) (action : Action),
        Operators.unary op (.prim prim) = .ok (type, action) →
          Realizes image context action type [Arith.intValue prim left]
            ((Operators.integer₁? op prim left).map fun result => (prim, result)) := by
  constructor
  · intro typing op other right type action isRight selected
    exact .of_selects built prepared integral isLeft isRight
      (Operators.selects_of_binary integral selected)
  · intro op type action selected
    obtain ⟨rfl, selects⟩ := Operators.selects₁_of_unary integral selected
    exact .of_selects₁ built prepared integral isLeft selects

/-- The least 32-bit integer has neither a quotient by -1 nor an absolute value, but a remainder by
2. -/
theorem integer_operators_least :
    Prim.int32.Holds (-2147483648) ∧
      Realizes .library ⟨.library, .empty, "", false⟩ (.instr (.arith .div)) .int32
        [.int32 (-1), .int32 (-2147483648)] (some (.int32, .error .overflow)) ∧
      Realizes .library ⟨.library, .empty, "", false⟩ (.instr (.arith .rem)) .int32
        [.int32 2, .int32 (-2147483648)] (some (.int32, .ok 0)) ∧
      Realizes .library ⟨.library, .empty, "", false⟩ (Operators.math "Abs" [.int32]) .int32
        [.int32 (-2147483648)] (some (.int32, .error .overflow)) := by
  have holds : Prim.int32.Holds (-2147483648) := by decide
  have operators := @integer_operators .library .library ⟨.library, .empty, "", false⟩ .library
    .int32 rfl (-2147483648) holds
  have quotient := operators.1 ⟨.empty, .library⟩ .div .int32 (-1) _ _ (by decide) rfl
  have remainder := operators.1 ⟨.empty, .library⟩ .rem .int32 2 _ _ (by decide) rfl
  have absolute := operators.2 .abs _ _ rfl
  refine ⟨holds, ?_, ?_, ?_⟩
  · exact quotient
  · exact remainder
  · exact absolute

end Machine

end ClassForge
