import ClassForge.Proofs.Schedule.Scheduling
import Mathlib.Data.List.Infix

/-!
# The actions that a build runs

To speak about the actions that a build runs, each step is given a recorder: the
target also holds a list, to which the step adds where it stands, the state that
its action found and how the action ended.  A build of recording steps ends like
the build itself, and its list is what that build has done.  The list is described
by running the nodes of the two phases in their order.
-/

namespace ClassForge

variable {key : Key}

/-- How an action of a build ended. -/
abbrev Build.Outcome (τ : Type) := EStateM.Result Diagnostic (BuildState τ) Unit

/-! ## Single actions -/

/-- An entry stays when another one is added. -/
theorem KeyTable.get?_of_insert? {α : Type} {table extended : KeyTable α} {other : Key}
    {value found : α} (added : table.insert? key value = some extended)
    (isFound : table.get? other = some found) : extended.get? other = some found := by
  rw [get?_insert? added, if_neg, isFound]
  rintro rfl
  have taken : table.contains other = true := by simp [contains, isFound]
  simp [insert?, taken] at added

namespace Build

variable {τ α β : Type} {state after : BuildState τ} {value : α}

theorem bind_eq_ok {action : Build τ α} {next : α → Build τ β} {result : β} :
    (action >>= next).run state = .ok result after ↔
      ∃ value middle, action.run state = .ok value middle ∧
        (next value).run middle = .ok result after := by
  rw [EStateM.run_bind]
  cases action.run state <;> simp

theorem resolve_eq_ok {read : Resolution → Except Diagnostic α} :
    (Build.resolve read).run state = .ok value after ↔
      read state.resolution = .ok value ∧ after = state := by
  rw [run_resolve]
  cases read state.resolution <;> simp [eq_comm]

theorem request_eq_ok {action : τ → Except ImageError (α × τ)} :
    (Build.request action).run state = .ok value after ↔
      ∃ target, action state.target = .ok (value, target) ∧ after = { state with target } := by
  rw [run_request]
  cases action state.target with
  | error error => simp
  | ok found => simp [Prod.ext_iff, eq_comm, and_assoc]

theorem record_eq_ok {resolved : Resolved} :
    (Build.record key resolved).run state = .ok () after ↔
      ∃ resolution, state.resolution.insert? key resolved = some resolution ∧
        after = { state with resolution } := by
  rw [run_record, Resolution.insert]
  cases state.resolution.insert? key resolved <;> simp [eq_comm]

end Build

namespace Schedule

variable {τ σ : Type}

/-- One run of an action: the step that it belongs to, with its position in the list
of steps, the state that the action found and how it ended. -/
structure Execution (τ : Type) where
  position : Nat
  step : Step τ
  before : BuildState τ
  outcome : Build.Outcome τ

/-- A target together with the actions that have run on it. -/
structure Recorded (τ : Type) where
  target : τ
  executions : List (Execution τ)

/-- A state in which some actions are on record. -/
def withRecord (executions : List (Execution τ)) (state : BuildState τ) :
    BuildState (Recorded τ) where
  target := { target := state.target, executions }
  resolution := state.resolution

/-- An outcome with some actions on record. -/
def recordedOutcome (executions : List (Execution τ)) :
    Build.Outcome τ → Build.Outcome (Recorded τ)
  | .ok () after => .ok () (withRecord executions after)
  | .error diagnostic after => .error diagnostic (withRecord executions after)

/-- The step with a recorder: it does what the step does and puts that on record. -/
def recordedStep (position : Nat) (step : Step τ) : Step (Recorded τ) where
  label := step.label
  phase := step.phase
  inputs := step.inputs
  outputs := step.outputs
  action := fun state =>
    let before : BuildState τ :=
      { target := state.target.target, resolution := state.resolution }
    let outcome := step.action.run before
    recordedOutcome (state.target.executions ++ [{ position, step, before, outcome }]) outcome

/-- The build with a recorder on every step. -/
def recordedRun (steps : List (Step τ)) (start : BuildState τ) :
    Build.Outcome (Recorded τ) :=
  (schedule (steps.mapIdx recordedStep)).run (withRecord [] start)

/-- The actions that a build runs, in order. -/
def executions (steps : List (Step τ)) (start : BuildState τ) : List (Execution τ) :=
  match recordedRun steps start with
  | .ok () final => final.target.executions
  | .error _ final => final.target.executions

/-! ## Scheduling looks at no action -/

/-- Steps that differ in their actions only. -/
structure Alike (left : Step τ) (right : Step σ) : Prop where
  label : left.label = right.label
  phase : left.phase = right.phase
  inputs : left.inputs = right.inputs
  outputs : left.outputs = right.outputs

theorem alike_recordedStep (position : Nat) (step : Step τ) :
    Alike (recordedStep position step) step :=
  ⟨rfl, rfl, rfl, rfl⟩

section Validation

variable {left before : List (Step τ)} {right after : List (Step σ)}

theorem producer?_alike (alike : List.Forall₂ Alike left right) (key : Key) :
    Option.Rel Alike (producer? left key) (producer? right key) := by
  induction alike with
  | nil => exact .none
  | cons first _ ih =>
      simp only [producer?, List.find?_cons, first.outputs]
      split
      · exact .some first
      · exact ih

theorem checkOutputs_alike {step : Step τ} {other : Step σ} (same : step.label = other.label)
    (earlier : List.Forall₂ Alike before after) (entered keys : List Key) :
    checkOutputs before step entered keys = checkOutputs after other entered keys := by
  induction keys generalizing entered with
  | nil => rfl
  | cons key keys ih =>
      have sameMaker := producer?_alike earlier key
      rw [checkOutputs, checkOutputs, same, ih]
      generalize producer? before key = maker, producer? after key = otherMaker at sameMaker
      cases sameMaker with
      | none => rfl
      | some sameMaker => simp only [sameMaker.label]

theorem checkProducers_alike (earlier : List.Forall₂ Alike before after)
    (alike : List.Forall₂ Alike left right) :
    checkProducers before left = checkProducers after right := by
  induction alike generalizing before after with
  | nil => rfl
  | cons first rest ih =>
      rw [checkProducers, checkProducers, first.outputs, checkOutputs_alike first.label earlier,
        ih (List.rel_append earlier (.cons first .nil))]

theorem isAvailable_alike (alike : List.Forall₂ Alike left right) (resolution : Resolution)
    (phase : Phase) (key : Key) :
    isAvailable left resolution phase key = isAvailable right resolution phase key := by
  unfold isAvailable
  congr 1
  have same := producer?_alike alike key
  generalize producer? left key = maker, producer? right key = otherMaker at same
  cases same with
  | none => rfl
  | some same => simp only [Option.any_some, same.phase]

/-- Checks look at the keys and labels of steps only. -/
theorem validate_alike (alike : List.Forall₂ Alike left right) (resolution : Resolution) :
    validate left resolution = validate right resolution := by
  have sameInputs : ∀ {some : List (Step τ)} {others : List (Step σ)},
      List.Forall₂ Alike some others →
      (some.forM fun step => step.inputs.forM fun key =>
        if isAvailable left resolution step.phase key then Except.ok ()
        else .error (Diagnostic.unproducible key step.label)) =
      others.forM fun step => step.inputs.forM fun key =>
        if isAvailable right resolution step.phase key then Except.ok ()
        else .error (Diagnostic.unproducible key step.label) := by
    intro some others pairs
    induction pairs with
    | nil => rfl
    | cons first _ ih =>
        simp only [List.forM_eq_forM, List.forM_cons] at ih ⊢
        rw [ih, first.inputs, first.phase, first.label]
        simp only [isAvailable_alike alike]
  unfold validate checkInputs
  rw [checkProducers_alike .nil alike, sameInputs alike]

end Validation

section Order

variable {steps : List (Step τ)} {phase : Phase} {swap : Nat → Step τ → Step σ}

/-- A node with another step. -/
def Node.withStep (swap : Nat → Step τ → Step σ) (node : Node τ) : Node σ where
  step := swap node.position node.step
  position := node.position
  needs := node.needs

variable (alike : ∀ position step, Alike (swap position step) step)

include alike

theorem forall₂_mapIdx_alike : List.Forall₂ Alike (steps.mapIdx swap) steps := by
  rw [List.forall₂_iff_get]
  refine ⟨by simp, fun index _ _ => ?_⟩
  simpa using alike index _

theorem members_mapIdx :
    members (steps.mapIdx swap) phase =
      (members steps phase).map fun (step, position) => (swap position step, position) := by
  have indexed : (steps.mapIdx swap).zipIdx =
      steps.zipIdx.map fun (step, position) => (swap position step, position) := by
    refine List.ext_getElem? fun index => ?_
    cases found : steps[index]? <;> simp [List.getElem?_zipIdx, found]
  rw [members, indexed, List.filter_map, members]
  congr 1
  refine List.filter_congr fun pair _ => ?_
  simp [(alike _ _).phase]

theorem position?_map (pairs : List (Step τ × Nat)) (key : Key) :
    position? (pairs.map fun (step, position) => (swap position step, position)) key =
      position? pairs key := by
  simp [position?, List.find?_map, Function.comp_def, (alike _ _).outputs]

/-- Other actions lead to the same nodes. -/
theorem nodes_mapIdx :
    nodes (steps.mapIdx swap) phase = (nodes steps phase).map (Node.withStep swap) := by
  simp only [nodes, members_mapIdx alike, List.map_map]
  refine List.map_congr_left fun pair _ => ?_
  simp only [Function.comp_apply, Node.withStep, Node.mk.injEq, true_and, (alike _ _).inputs]
  exact List.filterMap_congr fun key _ => position?_map alike _ key

theorem sortedNodes_mapIdx :
    sortedNodes (steps.mapIdx swap) phase =
      (sortedNodes steps phase).map (Node.withStep swap) := by
  rw [sortedNodes, nodes_mapIdx alike, sortedNodes]
  symm
  refine List.map_mergeSort fun left _ right _ => ?_
  simp [precedes, Node.withStep, (alike _ _).label]

omit alike in
theorem arrange_map {count : Nat} {done : Array Bool}
    {remaining : List (Node τ)} :
    arrange count done (remaining.map (Node.withStep swap)) =
      ((arrange count done remaining).1.map (Node.withStep swap),
        (arrange count done remaining).2.map (Node.withStep swap)) := by
  induction count generalizing done remaining with
  | zero => rfl
  | succ count ih =>
      have sameReady : isReady done ∘ Node.withStep swap = isReady done := rfl
      rw [arrange, arrange, List.find?_map, sameReady]
      cases found : remaining.find? (isReady done) with
      | none => rfl
      | some next =>
          have sameOthers : (remaining.map (Node.withStep swap)).filter
                (fun node => node.position != next.position) =
              (remaining.filter fun node => node.position != next.position).map
                (Node.withStep swap) :=
            List.filter_map
          simp only [Option.map_some, List.map_cons]
          exact congrArg (fun rest => (Node.withStep swap next :: rest.1, rest.2))
            ((congrArg _ sameOthers).trans ih)

/-- Other actions are arranged in the same order. -/
theorem arranged_mapIdx :
    arranged (steps.mapIdx swap) phase =
      ((arranged steps phase).1.map (Node.withStep swap),
        (arranged steps phase).2.map (Node.withStep swap)) := by
  rw [arranged, sortedNodes_mapIdx alike, List.length_map, List.length_mapIdx, arrange_map,
    arranged]

/-- Steps with other actions run in the same order, or are refused for the same
cycle. -/
theorem order_mapIdx :
    order (steps.mapIdx swap) phase =
      match order steps phase with
      | .ok _ => .ok ((arranged steps phase).1.map fun node => swap node.position node.step)
      | .error diagnostic => .error diagnostic := by
  rw [order_eq_arranged, order_eq_arranged, arranged_mapIdx alike]
  obtain ⟨order, stuck⟩ := arranged steps phase
  cases stuck with
  | nil => simp [Node.withStep, Function.comp_def]
  | cons node others => simp [Node.withStep, (alike _ _).label, Function.comp_def]

end Order

/-! ## Running nodes in their order -/

section Performing

variable {steps : List (Step τ)} {phase : Phase} {nodes : List (Node τ)} {state final : BuildState τ}
variable {log : List (Execution τ)}

/-- The run of the action of a node in a state. -/
def Node.execution (node : Node τ) (state : BuildState τ) : Execution τ where
  position := node.position
  step := node.step
  before := state
  outcome := node.step.action.run state

/-- Run nodes one after the other until a step fails, noting every action that runs. -/
def perform : List (Node τ) → BuildState τ → List (Execution τ) × Build.Outcome τ
  | [], state => ([], .ok () state)
  | node :: rest, state =>
      match (runStep node.step).run state with
      | .ok () after =>
          (node.execution state :: (perform rest after).1, (perform rest after).2)
      | .error diagnostic after => ([node.execution state], .error diagnostic after)

/-- Order a phase and run its nodes. -/
def performPhase (steps : List (Step τ)) (phase : Phase) (state : BuildState τ) :
    List (Execution τ) × Build.Outcome τ :=
  match order steps phase with
  | .ok _ => perform (arranged steps phase).1 state
  | .error diagnostic => ([], .error diagnostic state)

/-- Validate the steps and run the phases. -/
def performAll (steps : List (Step τ)) (start : BuildState τ) :
    List (Execution τ) × Build.Outcome τ :=
  match validate steps start.resolution with
  | .error diagnostic => ([], .error diagnostic start)
  | .ok () =>
      match performPhase steps .declare start with
      | (declared, .error diagnostic after) => (declared, .error diagnostic after)
      | (declared, .ok () middle) =>
          (declared ++ (performPhase steps .complete middle).1,
            (performPhase steps .complete middle).2)

theorem run_recordedStep {node : Node τ} :
    (runStep (recordedStep node.position node.step)).run (withRecord log state) =
      recordedOutcome (log ++ [node.execution state]) ((runStep node.step).run state) := by
  have ran : (recordedStep node.position node.step).action.run (withRecord log state) =
      recordedOutcome (log ++ [node.execution state]) (node.step.action.run state) := rfl
  rw [run_runStep, run_runStep, ran]
  cases node.step.action.run state with
  | error diagnostic after => rfl
  | ok value after =>
      simp only [recordedOutcome, withRecord, recordedStep]
      cases node.step.outputs.find? fun key => !after.resolution.contains key <;> rfl

theorem run_recordedSteps :
    ((nodes.map fun node => recordedStep node.position node.step).forM runStep).run
        (withRecord log state) =
      recordedOutcome (log ++ (perform nodes state).1) (perform nodes state).2 := by
  induction nodes generalizing log state with
  | nil => simp only [perform, List.append_nil]; rfl
  | cons node rest ih =>
      have unfolded : (((node :: rest).map fun node =>
            recordedStep node.position node.step).forM runStep).run (withRecord log state) =
          (runStep (recordedStep node.position node.step) >>= fun _ =>
            (rest.map fun node => recordedStep node.position node.step).forM runStep).run
              (withRecord log state) := rfl
      rw [unfolded, EStateM.run_bind, run_recordedStep, perform]
      cases (runStep node.step).run state with
      | error diagnostic after => rfl
      | ok value after =>
          simp only [recordedOutcome]
          rw [ih, List.append_assoc]
          rfl

/-- Performing nodes ends as running their steps does. -/
theorem perform_outcome :
    (perform nodes state).2 = ((nodes.map Node.step).forM runStep).run state := by
  induction nodes generalizing state with
  | nil => rfl
  | cons node rest ih =>
      have unfolded : (((node :: rest).map Node.step).forM runStep).run state =
          (runStep node.step >>= fun _ => (rest.map Node.step).forM runStep).run state := rfl
      rw [unfolded, EStateM.run_bind, perform]
      cases (runStep node.step).run state with
      | error diagnostic after => rfl
      | ok value after => exact ih

theorem run_recordedPhase :
    (runPhase (steps.mapIdx recordedStep) phase).run (withRecord log state) =
      recordedOutcome (log ++ (performPhase steps phase state).1)
        (performPhase steps phase state).2 := by
  rw [run_runPhase, order_mapIdx alike_recordedStep, performPhase]
  cases order steps phase with
  | error diagnostic => simp only [List.append_nil]; rfl
  | ok sequence => exact run_recordedSteps

/-- Performing a phase ends as running it does. -/
theorem performPhase_outcome :
    (performPhase steps phase state).2 = (runPhase steps phase).run state := by
  rw [run_runPhase, performPhase]
  cases ordered : order steps phase with
  | error diagnostic => rfl
  | ok sequence =>
      rw [← (order_eq_ok.mp ordered).2]
      exact perform_outcome

/-- A build ends as the run of its nodes does. -/
theorem run_eq_performAll (start : BuildState τ) :
    (schedule steps).run start = (performAll steps start).2 := by
  rw [run_schedule, performAll]
  cases validate steps start.resolution with
  | error diagnostic => rfl
  | ok =>
      simp only [← performPhase_outcome]
      generalize performPhase steps .declare start = declared
      obtain ⟨declared, outcome⟩ := declared
      cases outcome <;> rfl

theorem recordedRun_eq_performAll (start : BuildState τ) :
    recordedRun steps start =
      recordedOutcome (performAll steps start).1 (performAll steps start).2 := by
  rw [recordedRun, run_schedule, performAll,
    show (withRecord [] start).resolution = start.resolution from rfl,
    validate_alike (forall₂_mapIdx_alike alike_recordedStep)]
  cases validate steps start.resolution with
  | error diagnostic => rfl
  | ok =>
      simp only [run_recordedPhase, List.nil_append]
      generalize performPhase steps .declare start = declared
      obtain ⟨declared, outcome⟩ := declared
      cases outcome with
      | error diagnostic after => rfl
      | ok value middle => simp only [recordedOutcome, run_recordedPhase]

/-- What a build does is the run of its nodes. -/
theorem executions_eq_performAll (start : BuildState τ) :
    executions steps start = (performAll steps start).1 := by
  rw [executions, recordedRun_eq_performAll]
  generalize performAll steps start = performed
  obtain ⟨done, outcome⟩ := performed
  cases outcome <;> rfl

/-- Recording changes nothing: a build with recorders ends as the build without them
does, with its actions on record. -/
theorem recordedRun_eq (start : BuildState τ) :
    recordedRun steps start =
      recordedOutcome (executions steps start) ((schedule steps).run start) := by
  rw [recordedRun_eq_performAll, executions_eq_performAll, run_eq_performAll]

end Performing

/-! ## One step, and a run of steps -/

section Steps

variable {steps : List (Step τ)} {phase : Phase} {nodes : List (Node τ)}
  {state after final : BuildState τ} {step : Step τ} {diagnostic : Diagnostic}

/-- The action succeeded and left the outputs of its step among what is resolved. -/
def Execution.Completed (execution : Execution τ) : Prop :=
  ∃ after, execution.outcome = .ok () after ∧
    ∀ key ∈ execution.step.outputs, after.resolution.contains key = true

/-- What an execution says about the list of steps. -/
def Execution.place (execution : Execution τ) : Nat × Step τ :=
  (execution.position, execution.step)

/-- A step with its position. -/
def Node.place (node : Node τ) : Nat × Step τ :=
  (node.position, node.step)

/-- An action that succeeds adds to what is resolved and changes nothing of it. -/
def OnlyAdds (step : Step τ) : Prop :=
  ∀ before after, step.action.run before = .ok () after →
    ∀ key resolved, before.resolution.get? key = some resolved →
      after.resolution.get? key = some resolved

theorem OnlyAdds.contains (adds : OnlyAdds step) (succeeds : step.action.run state = .ok () after)
    (held : state.resolution.contains key = true) : after.resolution.contains key = true := by
  obtain ⟨resolved, found⟩ := Option.isSome_iff_exists.mp held
  exact Option.isSome_iff_exists.mpr ⟨resolved, adds _ _ succeeds key resolved found⟩

/-- A step that ends well has made its outputs. -/
theorem runStep_eq_ok (ran : (runStep step).run state = .ok () after) :
    step.action.run state = .ok () after ∧
      ∀ key ∈ step.outputs, after.resolution.contains key = true := by
  rw [run_runStep] at ran
  split at ran
  · rename_i middle acted
    split at ran
    · cases ran
    · rename_i complete
      cases ran
      refine ⟨acted, fun key output => ?_⟩
      simpa using List.find?_eq_none.mp complete key output
  · cases ran

/-- A step fails with its action or for want of an output. -/
theorem runStep_eq_error (ran : (runStep step).run state = .error diagnostic after) :
    step.action.run state = .error diagnostic after ∨
      step.action.run state = .ok () after ∧ ∃ key ∈ step.outputs,
        diagnostic = .missingOutput step.label key ∧ after.resolution.contains key = false := by
  rw [run_runStep] at ran
  split at ran
  · rename_i middle acted
    split at ran
    · rename_i key missing
      cases ran
      refine .inr ⟨acted, key, List.mem_of_find?_eq_some missing, rfl, ?_⟩
      simpa using List.find?_some missing
    · cases ran
  · rename_i acted
    cases ran
    exact .inl acted

/-- The actions that run are those of the first nodes. -/
theorem perform_places :
    (perform nodes state).1.map Execution.place <+: nodes.map Node.place := by
  induction nodes generalizing state with
  | nil => exact List.prefix_refl _
  | cons node rest ih =>
      rw [perform]
      cases (runStep node.step).run state with
      | ok value after => exact (List.prefix_cons_inj _).mpr ih
      | error diagnostic after => exact (List.prefix_cons_inj _).mpr List.nil_prefix

/-- A run that succeeds has come to every node and completed it. -/
theorem perform_ok (done : (perform nodes state).2 = .ok () final) :
    (perform nodes state).1.map Execution.place = nodes.map Node.place ∧
      ∀ execution ∈ (perform nodes state).1, execution.Completed := by
  induction nodes generalizing state with
  | nil => exact ⟨rfl, by simp [perform]⟩
  | cons node rest ih =>
      rw [perform] at done ⊢
      cases ran : (runStep node.step).run state with
      | error diagnostic after => simp [ran] at done
      | ok value after =>
          simp only [ran] at done ⊢
          obtain ⟨places, completed⟩ := ih done
          refine ⟨by rw [List.map_cons, places]; rfl, ?_⟩
          rintro execution (_ | ⟨_, later⟩)
          · exact ⟨after, runStep_eq_ok ran⟩
          · exact completed execution later

/-- A run that fails has come to a step that did not complete: its action failed, or
left out an output. -/
theorem perform_error (failed : (perform nodes state).2 = .error diagnostic final) :
    ∃ execution ∈ (perform nodes state).1, ¬execution.Completed ∧
      (execution.outcome = .error diagnostic final ∨
        ∃ key, diagnostic = .missingOutput execution.step.label key) := by
  induction nodes generalizing state with
  | nil => cases failed
  | cons node rest ih =>
      rw [perform] at failed ⊢
      cases ran : (runStep node.step).run state with
      | ok value after =>
          simp only [ran] at failed ⊢
          obtain ⟨execution, later, found⟩ := ih failed
          exact ⟨execution, List.mem_cons_of_mem _ later, found⟩
      | error fault after =>
          simp only [ran] at failed ⊢
          cases failed
          refine ⟨node.execution state, List.mem_cons_self, ?_⟩
          rcases runStep_eq_error ran with acted | ⟨acted, key, output, rfl, missing⟩
          · refine ⟨?_, .inl acted⟩
            rintro ⟨other, succeeded, -⟩
            cases acted.symm.trans succeeded
          · refine ⟨?_, .inr ⟨key, rfl⟩⟩
            rintro ⟨other, succeeded, complete⟩
            cases acted.symm.trans succeeded
            rw [complete key output] at missing
            cases missing

variable (onlyAdd : ∀ node ∈ nodes, OnlyAdds node.step)

include onlyAdd

/-- Every action finds what was resolved at the start and the outputs of the steps
before it. -/
theorem perform_before {earlier later : List (Execution τ)} {execution : Execution τ}
    (split : (perform nodes state).1 = earlier ++ execution :: later)
    (held : state.resolution.contains key = true ∨ ∃ prior ∈ earlier, key ∈ prior.step.outputs) :
    execution.before.resolution.contains key = true := by
  induction nodes generalizing state earlier with
  | nil => simp [perform] at split
  | cons node rest ih =>
      rw [perform] at split
      cases ran : (runStep node.step).run state with
      | error diagnostic after =>
          simp only [ran] at split
          cases earlier with
          | nil =>
              obtain ⟨rfl, -⟩ := List.cons.inj split
              simpa [Node.execution] using held
          | cons first earlier => simp at split
      | ok value after =>
          simp only [ran] at split
          obtain ⟨acted, complete⟩ := runStep_eq_ok ran
          cases earlier with
          | nil =>
              obtain ⟨rfl, -⟩ := List.cons.inj split
              simpa [Node.execution] using held
          | cons first earlier =>
              obtain ⟨rfl, rest⟩ := List.cons.inj split
              refine ih (fun other member => onlyAdd other (by simp [member])) rest ?_
              rcases held with atStart | ⟨prior, member, output⟩
              · exact .inl ((onlyAdd node (by simp)).contains acted atStart)
              · rcases List.mem_cons.mp member with rfl | inEarlier
                · exact .inl (complete key output)
                · exact .inr ⟨prior, inEarlier, output⟩

/-- A run that succeeds ends with what was resolved at the start and the outputs of all
its steps. -/
theorem perform_after (done : (perform nodes state).2 = .ok () final)
    (held : state.resolution.contains key = true ∨ ∃ node ∈ nodes, key ∈ node.step.outputs) :
    final.resolution.contains key = true := by
  induction nodes generalizing state with
  | nil =>
      cases done
      simpa using held
  | cons node rest ih =>
      rw [perform] at done
      cases ran : (runStep node.step).run state with
      | error diagnostic after => simp [ran] at done
      | ok value after =>
          simp only [ran] at done
          obtain ⟨acted, complete⟩ := runStep_eq_ok ran
          refine ih (fun other member => onlyAdd other (by simp [member])) done ?_
          rcases held with atStart | ⟨producer, member, output⟩
          · exact .inl ((onlyAdd node (by simp)).contains acted atStart)
          · rcases List.mem_cons.mp member with rfl | inRest
            · exact .inl (complete key output)
            · exact .inr ⟨producer, inRest, output⟩

end Steps

end Schedule

end ClassForge
