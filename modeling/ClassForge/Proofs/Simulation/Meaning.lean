import ClassForge.Expr.Basic
import ClassForge.Scope

/-!
# What expressions mean

A meaning for expressions without objects: numbers, truth values, variables, choices, loops and
functions.  Names stand for locations of a store.  Parameters and the names of `let` and `let*`
get a new location each time they are entered, functions keep the locations of the names around
them, and an assignment writes to a location.

Evaluation goes at most `fuel` deep.  It gives nothing when that is not enough, and for
expressions that are outside of the fragment or that are not accepted.
-/

namespace ClassForge

/-- Number of a place in the store. -/
abbrev Location := Nat

/-- What an expression evaluates to. -/
inductive Datum where
  /-- There is no value. -/
  | nothing
  | number (value : Int32)
  | truth (value : Bool)
  /-- A function with the locations of the names around it.  Its calls have a value if `returns`
  says so. -/
  | function (params : List Name) (body : Expr) (returns : Bool) (env : Scope Location)

/-- Evaluation changes the store and may fail. -/
abbrev Evaluation := StateT (List Datum) Option

namespace Evaluation

/-- A new location. -/
def allocate (datum : Datum) : Evaluation Location :=
  modifyGet fun store => (store.length, store ++ [datum])

/-- Read a location. -/
def read (location : Location) : Evaluation Datum := fun store =>
  store[location]?.map fun datum => (datum, store)

/-- Write a location. -/
def write (location : Location) (datum : Datum) : Evaluation Unit :=
  modify fun store => store.set location datum

/-- The location of a name. -/
def locate (env : Scope Location) (name : Name) : Evaluation Location :=
  liftM (env.get? name)

section Runs

variable {α β : Type} {store later : List Datum}
variable {location : Location}

theorem run_bind_eq_some {first : Evaluation α} {next : α → Evaluation β} {result : β} :
    (first >>= next).run store = some (result, later) ↔
      ∃ value middle, first.run store = some (value, middle) ∧
        (next value).run middle = some (result, later) := by
  rw [StateT.run_bind]
  exact Option.bind_eq_some_iff.trans Prod.exists

theorem run_pure_eq_some {value result : α} :
    (pure value : Evaluation α).run store = some (result, later) ↔ result = value ∧ later = store := by
  constructor
  · rintro ⟨⟩
    exact ⟨rfl, rfl⟩
  · rintro ⟨rfl, rfl⟩
    rfl

theorem run_discard_eq_some {first : Evaluation α} {done : Unit} :
    (discard first).run store = some (done, later) ↔
      ∃ value, first.run store = some (value, later) := by
  change (first >>= fun _ => pure ()).run store = _ ↔ _
  rw [run_bind_eq_some]
  constructor
  · rintro ⟨value, _, ran, ⟨⟩⟩
    exact ⟨value, ran⟩
  · rintro ⟨value, ran⟩
    exact ⟨value, later, ran, rfl⟩

theorem run_lift_eq_some {found : Option α} {result : α} :
    (liftM found : Evaluation α).run store = some (result, later) ↔
      found = some result ∧ later = store := by
  cases found with
  | none => exact iff_of_false nofun nofun
  | some value =>
      constructor
      · rintro ⟨⟩
        exact ⟨rfl, rfl⟩
      · rintro ⟨⟨⟩, rfl⟩
        rfl

theorem run_allocate_eq_some {datum : Datum} :
    (allocate datum).run store = some (location, later) ↔
      location = store.length ∧ later = store ++ [datum] := by
  constructor
  · rintro ⟨⟩
    exact ⟨rfl, rfl⟩
  · rintro ⟨rfl, rfl⟩
    rfl

theorem run_read_eq_some {datum : Datum} :
    (read location).run store = some (datum, later) ↔
      store[location]? = some datum ∧ later = store := by
  change store[location]?.map (fun datum => (datum, store)) = some (datum, later) ↔ _
  rw [Option.map_eq_some_iff]
  constructor
  · rintro ⟨_, found, ⟨⟩⟩
    exact ⟨found, rfl⟩
  · rintro ⟨found, rfl⟩
    exact ⟨datum, found, rfl⟩

theorem run_write_eq_some {datum : Datum} {done : Unit} :
    (write location datum).run store = some (done, later) ↔ later = store.set location datum := by
  constructor
  · rintro ⟨⟩
    rfl
  · rintro rfl
    rfl

end Runs

end Evaluation

namespace Datum

/-- The truth value that a datum is. -/
def truth? : Datum → Option Bool
  | truth value => some value
  | _ => none

/-- The number that a datum is. -/
def number? : Datum → Option Int32
  | number value => some value
  | _ => none

/-- The operators with one operand. -/
def unary? : UnaryOp → Datum → Option Datum
  | .neg, number x => some (number (-x))
  | .bitNot, number x => some (number (~~~x))
  | .not, truth x => some (truth !x)
  | _, _ => none

/-- The operators with two operands. -/
def binary? : BinaryOp → Datum → Datum → Option Datum
  | .add, number x, number y => some (number (x + y))
  | .sub, number x, number y => some (number (x - y))
  | .mul, number x, number y => some (number (x * y))
  | .bitAnd, number x, number y => some (number (x &&& y))
  | .bitOr, number x, number y => some (number (x ||| y))
  | .bitXor, number x, number y => some (number (x ^^^ y))
  | .bitAnd, truth x, truth y => some (truth (x && y))
  | .bitOr, truth x, truth y => some (truth (x || y))
  | .bitXor, truth x, truth y => some (truth (x ^^ y))
  | .eq, number x, number y => some (truth (x == y))
  | .eq, truth x, truth y => some (truth (x == y))
  | .ne, number x, number y => some (truth (x != y))
  | .ne, truth x, truth y => some (truth (x != y))
  | .lt, number x, number y => some (truth (x < y))
  | .le, number x, number y => some (truth (x ≤ y))
  | .gt, number x, number y => some (truth (x > y))
  | .ge, number x, number y => some (truth (x ≥ y))
  | _, _, _ => none

end Datum

/-- The arm of a `switch` that a label selects. -/
def selectArm {α : Type} (label : UInt32) (arms : List (List UInt32 × α)) (default : α) : α :=
  ((arms.find? fun arm => arm.1.contains label).map (·.2)).getD default

namespace Expr

section Parts

variable (eval : Expr → Scope Location → Evaluation Datum)

/-- The values of operands, one after the other. -/
def evalAll : List Expr → Scope Location → Evaluation (List Datum)
  | [], _ => return []
  | item :: items, env => do
      let datum ← eval item env
      let data ← evalAll items env
      return datum :: data

/-- The value of the last member of a sequence. -/
def evalSeq : List Expr → Scope Location → Evaluation Datum
  | [], _ => return .nothing
  | [item], env => eval item env
  | item :: next :: items, env => do
      discard <| eval item env
      evalSeq (next :: items) env

/-- A connective: evaluation stops at the first operand that decides. -/
def evalLogic (connective : Connective) : List Expr → Scope Location → Evaluation Datum
  | [], _ => return .truth (connective = .and)
  | [item], env => eval item env
  | item :: next :: items, env => do
      let decision ← liftM (← eval item env).truth?
      if decision = decide (connective = .or) then
        return .truth decision
      else
        evalLogic connective (next :: items) env

/-- New locations for clauses that all see the same names. -/
def evalNamed : List (Name × Expr) → Scope Location → Evaluation (List (Name × Location))
  | [], _ => return []
  | (name, init) :: clauses, env => do
      let location ← Evaluation.allocate (← eval init env)
      let locations ← evalNamed clauses env
      return (name, location) :: locations

/-- New locations for clauses of which each sees the names before it. -/
def evalClauses : List (Name × Expr) → Scope Location → Evaluation (Scope Location)
  | [], env => return env
  | (name, init) :: clauses, env => do
      let location ← Evaluation.allocate (← eval init env)
      evalClauses clauses (env.bind name location)

/-- New locations for parameters, which hold arguments. -/
def evalParams : List Name → List Datum → Scope Location → Evaluation (Scope Location)
  | [], [], env => return env
  | name :: names, datum :: data, env => do
      let location ← Evaluation.allocate datum
      evalParams names data (env.bind name location)
  | _, _, _ => failure

/-- Call a function. -/
def evalCall (function : Datum) (args : List Datum) : Evaluation Datum := do
  match function with
  | .function params body returns env =>
      let inner ← evalParams params args env
      let datum ← eval body inner
      return if returns then datum else .nothing
  | _ => failure

end Parts

/-- The value of an expression. -/
def eval : (fuel : Nat) → Expr → Scope Location → Evaluation Datum
  | 0, _, _ => failure
  | fuel + 1, expr, env => do
      match expr with
      | literal (.int32 value) => return .number value
      | literal (.bool value) => return .truth value
      | var name => Evaluation.read (← Evaluation.locate env name)
      | set name value =>
          let datum ← eval fuel value env
          Evaluation.write (← Evaluation.locate env name) datum
          return .nothing
      | seq items => evalSeq (eval fuel) items env
      | logic connective items => evalLogic (eval fuel) connective items env
      | when test body =>
          if ← liftM (← eval fuel test env).truth? then
            eval fuel body env
          else
            return .nothing
      | cond test yes no =>
          if ← liftM (← eval fuel test env).truth? then
            eval fuel yes env
          else
            eval fuel no env
      | .while test body =>
          if ← liftM (← eval fuel test env).truth? then
            discard <| eval fuel body env
            eval fuel (.while test body) env
          else
            return .nothing
      | switch selector arms default =>
          let value ← liftM (← eval fuel selector env).number?
          eval fuel (selectArm value.toUInt32 arms default) env
      | letPar clauses body =>
          let locations ← evalNamed (eval fuel) clauses env
          eval fuel body (env.bindAll locations)
      | letSeq clauses body =>
          let inner ← evalClauses (eval fuel) clauses env
          eval fuel body inner
      | loop _ name vars ret body =>
          let args ← evalAll (eval fuel) (vars.map (·.2)) env
          let location ← Evaluation.allocate .nothing
          let function : Datum :=
            .function (vars.map (·.1.name)) body (!ret.isVoid) (env.bind name location)
          Evaluation.write location function
          evalCall (eval fuel) function args
      | lambda _ params body => return .function (params.map Param.name) body true env
      | invoke function args =>
          let function ← eval fuel function env
          let args ← evalAll (eval fuel) args env
          evalCall (eval fuel) function args
      | unary (.op op) operand =>
          liftM (Datum.unary? op (← eval fuel operand env))
      | binary (.op op) left right =>
          let left ← eval fuel left env
          let right ← eval fuel right env
          liftM (Datum.binary? op left right)
      | _ => failure

end Expr

end ClassForge
