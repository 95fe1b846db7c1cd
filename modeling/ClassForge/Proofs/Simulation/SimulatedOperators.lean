import ClassForge.Proofs.Simulation.SimulatedCode

/-!
# Code of operators

What operators on numbers and truth values mean is what their code computes.
-/

namespace ClassForge

open Machine

theorem Value.isTruthy_ofBool (truth : Bool) : (Value.ofBool truth).isTruthy = truth := by
  cases truth <;> decide

section Operators

variable {linkage : Linkage} {context : LowerContext} {world : World} {heap : Heap} {seat : Seat}
variable {frame : Frame} {before after : Emitter} {stack : List Value} {store : Store}
variable {limit : Nat} {post : Config → Prop} {type other result : SourceTy} {action : Action}
variable {datum second outcome : Datum} {value right : Value}
variable {image : Image}
variable {left : Value}

/-- The opposite of a truth value. -/
theorem Machine.Seat.arrives_negation {truth : Bool}
    (written : (Lower.emitAll Operators.negation).Writes before () after)
    (placed : after.PlacedIn frame.body)
    (rest : Arrives image limit
      (seat.config frame after.position (.ofBool (!truth) :: stack) store) post) :
    Arrives image limit (seat.config frame before.position (.ofBool truth :: stack) store) post := by
  obtain rfl := Lower.writes_emitAll_nil.mp
    (Lower.writes_emitAll_cons.mp (Lower.writes_emitAll_cons.mp written))
  have computes : Arith.compare .eq (.ofBool truth) (FrameStep.constant (.int32 0)) = .ok !truth := by
    cases truth <;> rfl
  refine Seat.arrives_const placed.before_emit.last ?_
  rw [← Emitter.position_emit _ (.const (.int32 0))]
  refine Seat.arrives_compare placed.last computes ?_
  rw [← Emitter.position_emit]
  exact rest

/-- The code of an operator with one operand computes what it means. -/
theorem Machine.Seat.arrives_unary {op : UnaryOp} (meaning : Operators.unary op type = .ok (result, action))
    (represents : Represents linkage world heap type datum value)
    (evaluated : Datum.unary? op datum = some outcome)
    (written : (context.lowerAction action).Writes before () after)
    (placed : after.PlacedIn frame.body)
    (rest : ∀ value, result.isVoid = false → Represents linkage world heap result outcome value →
      Arrives linkage.image limit (seat.config frame after.position (value :: stack) store) post) :
    Arrives linkage.image limit (seat.config frame before.position (value :: stack) store) post := by
  cases represents with
  | number x =>
      cases op <;> cases evaluated <;> cases meaning
      · obtain rfl := Lower.writes_emitAll_nil.mp (Lower.writes_emitAll_cons.mp written)
        refine Seat.arrives_neg placed.last rfl ?_
        rw [← Emitter.position_emit]
        exact rest _ rfl (.number _)
      · obtain rfl := Lower.writes_emitAll_nil.mp (Lower.writes_emitAll_cons.mp written)
        refine Seat.arrives_not placed.last rfl ?_
        rw [← Emitter.position_emit]
        exact rest _ rfl (.number _)
  | truth x =>
      cases op <;> cases evaluated
      cases meaning
      exact Seat.arrives_negation written placed (rest _ rfl (.truth _))
  | function => cases op <;> cases evaluated

/-- One instruction that computes a number. -/
theorem Machine.Seat.arrives_number {op : ArithOp}
    (computes : Arith.binary op left right = .ok value)
    (written : (context.lowerAction (.instr (.arith op))).Writes before () after)
    (placed : after.PlacedIn frame.body)
    (rest : Arrives image limit (seat.config frame after.position (value :: stack) store) post) :
    Arrives image limit (seat.config frame before.position (right :: left :: stack) store) post := by
  obtain rfl := Lower.writes_emitAll_nil.mp (Lower.writes_emitAll_cons.mp written)
  refine Seat.arrives_arith placed.last computes ?_
  rw [← Emitter.position_emit]
  exact rest

/-- One instruction that compares. -/
theorem Machine.Seat.arrives_comparison {op : CompareOp} {holds : Bool}
    (computes : Arith.compare op left right = .ok holds)
    (written : (context.lowerAction (.instr (.compare op))).Writes before () after)
    (placed : after.PlacedIn frame.body)
    (rest : Arrives image limit (seat.config frame after.position (.ofBool holds :: stack) store)
      post) :
    Arrives image limit (seat.config frame before.position (right :: left :: stack) store) post := by
  obtain rfl := Lower.writes_emitAll_nil.mp (Lower.writes_emitAll_cons.mp written)
  refine Seat.arrives_compare placed.last computes ?_
  rw [← Emitter.position_emit]
  exact rest

/-- A comparison whose outcome is turned into its opposite. -/
theorem Machine.Seat.arrives_opposite {op : CompareOp} {holds : Bool}
    (computes : Arith.compare op left right = .ok holds)
    (written : (context.lowerAction (.code (.compare op :: Operators.negation))).Writes before ()
      after) (placed : after.PlacedIn frame.body)
    (rest : Arrives image limit (seat.config frame after.position (.ofBool (!holds) :: stack) store)
      post) :
    Arrives image limit (seat.config frame before.position (right :: left :: stack) store) post := by
  have negates := Lower.writes_emitAll_cons.mp written
  have isFirst := placed.of_precedes (Lower.Adds.emitAll _ _ _ _ negates)
  refine Seat.arrives_compare isFirst.last computes ?_
  rw [← Emitter.position_emit]
  exact Seat.arrives_negation negates placed rest

/-- One number is at most another one if it is not greater. -/
theorem not_lt_eq (x y : Int32) : (!decide (y < x)) = decide (x ≤ y) := by
  rw [← decide_not, decide_eq_decide, Int32.not_lt]

/-- The code of an operator with two operands computes what it means. -/
theorem Machine.Seat.arrives_binary {op : BinaryOp}
    (meaning : Operators.binary linkage.typing op type other = .ok (result, action))
    (isLeft : Represents linkage world heap type datum value)
    (isRight : Represents linkage world heap other second right)
    (evaluated : Datum.binary? op datum second = some outcome)
    (written : (context.lowerAction action).Writes before () after)
    (placed : after.PlacedIn frame.body)
    (rest : ∀ value, result.isVoid = false → Represents linkage world heap result outcome value →
      Arrives linkage.image limit (seat.config frame after.position (value :: stack) store) post) :
    Arrives linkage.image limit (seat.config frame before.position (right :: value :: stack) store)
      post := by
  cases isLeft with
  | function => cases op <;> cases evaluated
  | number x =>
      cases isRight with
      | truth => cases op <;> cases evaluated
      | function => cases op <;> cases evaluated
      | number y =>
          cases op <;> cases evaluated <;> cases meaning
          iterate 6 · exact Seat.arrives_number rfl written placed (rest _ rfl (.number _))
          · exact Seat.arrives_comparison rfl written placed (rest _ rfl (.truth _))
          · exact Seat.arrives_opposite rfl written placed (rest _ rfl (.truth _))
          · exact Seat.arrives_comparison rfl written placed (rest _ rfl (.truth _))
          · rw [← not_lt_eq x y] at rest
            exact Seat.arrives_opposite rfl written placed (rest _ rfl (.truth _))
          · exact Seat.arrives_comparison rfl written placed (rest _ rfl (.truth _))
          · change ∀ value, _ → Represents _ _ _ _ (.truth (decide (y ≤ x))) value → _ at rest
            rw [← not_lt_eq y x] at rest
            exact Seat.arrives_opposite rfl written placed (rest _ rfl (.truth _))
  | truth x =>
      cases isRight with
      | number => cases op <;> cases evaluated
      | function => cases op <;> cases evaluated
      | truth y =>
          cases op <;> cases evaluated <;> cases meaning
          · have computes : Arith.binary .and (.ofBool x) (.ofBool y) = .ok (.ofBool (x && y)) := by
              cases x <;> cases y <;> rfl
            exact Seat.arrives_number computes written placed (rest _ rfl (.truth _))
          · have computes : Arith.binary .or (.ofBool x) (.ofBool y) = .ok (.ofBool (x || y)) := by
              cases x <;> cases y <;> rfl
            exact Seat.arrives_number computes written placed (rest _ rfl (.truth _))
          · have computes : Arith.binary .xor (.ofBool x) (.ofBool y) = .ok (.ofBool (x ^^ y)) := by
              cases x <;> cases y <;> rfl
            exact Seat.arrives_number computes written placed (rest _ rfl (.truth _))
          · have computes : Arith.compare .eq (.ofBool x) (.ofBool y) = .ok (x == y) := by
              cases x <;> cases y <;> rfl
            exact Seat.arrives_comparison computes written placed (rest _ rfl (.truth _))
          · have computes : Arith.compare .eq (.ofBool x) (.ofBool y) = .ok (x == y) := by
              cases x <;> cases y <;> rfl
            exact Seat.arrives_opposite computes written placed (rest _ rfl (.truth _))

end Operators

end ClassForge
