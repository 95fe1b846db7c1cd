import ClassForge.Build.Step

/-!
# Scheduling a build

Before anything runs, the steps are validated: a key has at most one producer,
and every input exists already or is produced in the same or an earlier phase.
Then the phases run one after the other.  Within a phase, a step becomes ready
once the steps that produce its inputs have run; of the steps that are ready the
one with the least label runs first.  The order, and with it every handle that
the target gives out, depends only on the set of steps.
-/

namespace ClassForge

namespace Schedule

variable {τ : Type}

/-! ## Validation -/

/-- The first step that produces a key. -/
def producer? (steps : List (Step τ)) (key : Key) : Option (Step τ) :=
  steps.find? fun step => step.outputs.contains key

/-- Check the keys that a step adds one by one: a key may have been entered neither
by a step before it nor by the step itself. -/
def checkOutputs (before : List (Step τ)) (step : Step τ) :
    (entered keys : List Key) → Except Diagnostic Unit
  | _, [] => .ok ()
  | entered, key :: keys =>
      match producer? before key with
      | some first => .error (.duplicateOutput key first.label step.label)
      | none =>
          if entered.contains key then
            .error (.duplicateOutput key step.label step.label)
          else checkOutputs before step (key :: entered) keys

/-- Check that every key is added once. -/
def checkProducers : (before steps : List (Step τ)) → Except Diagnostic Unit
  | _, [] => .ok ()
  | before, step :: steps => do
      checkOutputs before step [] step.outputs
      checkProducers (before ++ [step]) steps

/-- Whether a key is there when steps of a phase run. -/
def isAvailable (steps : List (Step τ)) (resolution : Resolution) (phase : Phase)
    (key : Key) : Bool :=
  resolution.contains key ||
    (producer? steps key).any fun producer => producer.phase.number ≤ phase.number

/-- Check that every input can be made. -/
def checkInputs (steps : List (Step τ)) (resolution : Resolution) :
    Except Diagnostic Unit :=
  steps.forM fun step =>
    step.inputs.forM fun key =>
      if isAvailable steps resolution step.phase key then .ok ()
      else .error (.unproducible key step.label)

/-- Check the steps before any of them runs. -/
def validate (steps : List (Step τ)) (resolution : Resolution) :
    Except Diagnostic Unit := do
  checkProducers [] steps
  checkInputs steps resolution

/-! ## Order -/

/-- A step of a phase with its position among all steps, and the positions of
the steps of the phase that produce its inputs. -/
structure Node (τ : Type) where
  step : Step τ
  position : Nat
  needs : List Nat

/-- The steps of a phase with their positions. -/
def members (steps : List (Step τ)) (phase : Phase) : List (Step τ × Nat) :=
  steps.zipIdx.filter fun (step, _) => step.phase = phase

/-- The position of the step that produces a key. -/
def position? (members : List (Step τ × Nat)) (key : Key) : Option Nat :=
  (members.find? fun (step, _) => step.outputs.contains key).map (·.2)

/-- The steps of a phase with what they depend on. -/
def nodes (steps : List (Step τ)) (phase : Phase) : List (Node τ) :=
  let members := members steps phase
  members.map fun (step, position) =>
    { step, position, needs := step.inputs.filterMap (position? members) }

/-- Of steps that are ready at the same time the one with the lesser label comes
first; equal labels keep the order of the list. -/
def precedes (left right : Node τ) : Bool :=
  ((compare left.step.label right.step.label).then
    (compare left.position right.position)).isLE

/-- Put a node into a queue that is kept in order. -/
def enqueue (node : Node τ) : List (Node τ) → List (Node τ)
  | [] => [node]
  | first :: rest =>
      if precedes node first then node :: first :: rest else first :: enqueue node rest

/-- The nodes that depend on the one at a position, once each however many of its
outputs they read. -/
def dependents (nodes : List (Node τ)) (position : Nat) : List (Node τ) :=
  nodes.filter fun node => node.needs.contains position

/-- How far the order of a phase has come. -/
structure Frontier (τ : Type) where
  /-- By position, on how many steps a step still waits. -/
  indegrees : Array Nat
  /-- The steps that wait for none, the first of them to run in front. -/
  ready : List (Node τ)

namespace Frontier

/-- Before any step has run.  A step that several inputs are read from counts once. -/
def initial (nodes : List (Node τ)) (size : Nat) : Frontier τ :=
  let indegrees := nodes.foldl
    (fun indegrees node =>
      indegrees.setIfInBounds node.position node.needs.eraseDups.length)
    (Array.replicate size 0)
  let free := nodes.filter fun node => indegrees.getD node.position 0 = 0
  { indegrees, ready := free.foldl (fun ready node => enqueue node ready) [] }

/-- One of the steps that a node waits for has run; after the last of them the node
is ready. -/
def release (frontier : Frontier τ) (node : Node τ) : Frontier τ :=
  let left := frontier.indegrees.getD node.position 0 - 1
  { indegrees := frontier.indegrees.setIfInBounds node.position left
    ready := if left = 0 then enqueue node frontier.ready else frontier.ready }

end Frontier

/-- Run the first ready step and release its dependents, again and again, at most
`count` times.  The result is the order in which the steps run and what the steps
that never become ready still wait for. -/
def drain (nodes : List (Node τ)) : (count : Nat) → Frontier τ → List (Node τ) × Array Nat
  | 0, frontier => ([], frontier.indegrees)
  | count + 1, frontier =>
      match frontier.ready with
      | [] => ([], frontier.indegrees)
      | next :: ready =>
          let (order, indegrees) := drain nodes count
            ((dependents nodes next.position).foldl .release { frontier with ready })
          (next :: order, indegrees)

/-- The steps of a phase in the order in which they run. -/
def order (steps : List (Step τ)) (phase : Phase) :
    Except Diagnostic (List (Step τ)) :=
  let nodes := nodes steps phase
  let (order, indegrees) := drain nodes nodes.length (.initial nodes steps.length)
  if order.length < nodes.length then
    let stuck := nodes.filter fun node => 0 < indegrees.getD node.position 0
    .error (.cycle phase.number
      ((stuck.map fun node => node.step.label).mergeSort fun left right =>
        (compare left right).isLE))
  else .ok (order.map Node.step)

/-! ## Running -/

/-- Run a step and check that it added its outputs. -/
def runStep (step : Step τ) : Build τ Unit := do
  step.action
  let resolution := (← get).resolution
  match step.outputs.find? fun key => !resolution.contains key with
  | some key => throw (.missingOutput step.label key)
  | none => return ()

/-- Order and run the steps of a phase. -/
def runPhase (steps : List (Step τ)) (phase : Phase) : Build τ Unit := do
  match order steps phase with
  | .ok steps => steps.forM runStep
  | .error diagnostic => throw diagnostic

end Schedule

/-- Validate, order and run the steps of a build. -/
def schedule {τ : Type} (steps : List (Step τ)) : Build τ Unit := do
  match Schedule.validate steps (← get).resolution with
  | .ok () => Phase.all.forM (Schedule.runPhase steps)
  | .error diagnostic => throw diagnostic

end ClassForge
