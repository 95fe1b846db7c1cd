import ClassForge.Resolution

/-!
# Build steps

A build is made of steps.  A step is one request to the target, or a few that
belong together, with the keys that have to exist before it runs and the keys
that it adds.  The order of the steps follows from these keys alone.
-/

namespace ClassForge

/-- The two parts of a build: everything is declared and given code in the
first, types are completed in the second. -/
inductive Phase where
  | declare
  | complete
  deriving DecidableEq, Repr

namespace Phase

/-- Place of a phase in the order of the phases, from one. -/
def number : Phase → Nat
  | declare => 1
  | complete => 2

/-- A phase as diagnostics print it. -/
def text (phase : Phase) : String :=
  "phase " ++ toString phase.number

/-- The phases in the order in which they run. -/
def all : List Phase :=
  [declare, complete]

end Phase

/-- What a build changes: the target, and the handles that it gave out. -/
structure BuildState (τ : Type) where
  target : τ
  resolution : Resolution

/-- Actions of a build.  What an action has changed before it fails stays
changed. -/
abbrev Build (τ : Type) := EStateM Diagnostic (BuildState τ)

namespace Build

variable {τ α : Type}

/-- Read something off the handles given out so far. -/
def resolve (read : Resolution → Except Diagnostic α) : Build τ α := do
  match read (← get).resolution with
  | .ok value => return value
  | .error diagnostic => throw diagnostic

/-- Make a request to the target. -/
def request (action : τ → Except ImageError (α × τ)) : Build τ α := do
  let state ← get
  match action state.target with
  | .ok (value, target) =>
      set { state with target }
      return value
  | .error error => throw (.target error)

/-- Record the handle of an item. -/
def record (key : Key) (resolved : Resolved) : Build τ Unit := do
  let state ← get
  match state.resolution.insert key resolved with
  | .ok resolution => set { state with resolution }
  | .error diagnostic => throw diagnostic

end Build

/-- One step of a build. -/
structure Step (τ : Type) where
  /-- Describes the step, and decides between steps that could run next. -/
  label : String
  phase : Phase
  /-- Keys that have to exist before the step runs. -/
  inputs : List Key
  /-- Keys that the step adds. -/
  outputs : List Key
  action : Build τ Unit

/-- A step whose keys are listed once each. -/
def Step.make {τ : Type} (label : String) (phase : Phase)
    (inputs outputs : List Key) (action : Build τ Unit) : Step τ where
  label := label
  phase := phase
  inputs := inputs.eraseDups
  outputs := outputs.eraseDups
  action := action

end ClassForge
