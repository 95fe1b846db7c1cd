import ClassForge.Proofs.Schedule.Executions

/-!
# Safety of schedules

Whatever the steps, what is resolved at the start and the target: an action runs
when the inputs of its step are there, after every step of an earlier phase, and at
most once.  A build that succeeds has run every step and holds every output; a build
that is refused has run none.
-/

namespace ClassForge

namespace Schedule

variable {τ : Type} {steps : List (Step τ)} {phase : Phase} {start : BuildState τ}
variable {resolution : Resolution} {step : Step τ}

/-! ## What validation finds out -/

/-- No validated step lists a key twice that it adds. -/
theorem once_of_validate (validated : validate steps resolution = .ok ()) :
    ∀ step ∈ steps, step.outputs.Nodup := by
  unfold validate at validated
  obtain ⟨⟨⟩, producers, -⟩ := bind_eq_ok.mp validated
  exact (checkProducers_eq_ok.mp producers).1

/-- No two validated steps add the same key. -/
theorem disjoint_of_validate (validated : validate steps resolution = .ok ()) :
    steps.Pairwise Disjoint := by
  unfold validate at validated
  obtain ⟨⟨⟩, producers, -⟩ := bind_eq_ok.mp validated
  exact (checkProducers_eq_ok.mp producers).2.1

/-- Every input of a validated step is resolved at the start or made by a step of the
same or an earlier phase. -/
theorem available_of_validate (validated : validate steps resolution = .ok ())
    (member : step ∈ steps) {key : Key} (input : key ∈ step.inputs) :
    resolution.contains key = true ∨ ∃ producer ∈ steps, key ∈ producer.outputs ∧
      producer.phase.number ≤ step.phase.number := by
  unfold validate at validated
  obtain ⟨⟨⟩, -, inputs⟩ := bind_eq_ok.mp validated
  have available := forM_eq_ok.mp (forM_eq_ok.mp inputs step member) key input
  split at available
  · rename_i holds
    simp only [isAvailable, Bool.or_eq_true, Option.any_eq_true, decide_eq_true_eq] at holds
    refine holds.imp_right ?_
    rintro ⟨producer, found, inTime⟩
    have makes := List.find?_some found
    exact ⟨producer, List.mem_of_find?_eq_some found, by simpa using makes, inTime⟩
  · cases available

/-! ## The ways of a build -/

theorem arranged_mem {node : Node τ} (member : node ∈ (arranged steps phase).1) :
    steps[node.position]? = some node.step ∧ node.step.phase = phase := by
  obtain ⟨atPosition, ofPhase, -⟩ :=
    mem_nodes.mp (arranged_perm.subset (List.mem_append_left _ member))
  exact ⟨atPosition, ofPhase⟩

/-- With no step stuck, every step of the phase is placed. -/
theorem arranged_all (none : (arranged steps phase).2 = []) {position : Nat}
    (atPosition : steps[position]? = some step) (ofPhase : step.phase = phase) :
    ∃ node ∈ (arranged steps phase).1, node.place = (position, step) := by
  have inNodes : (⟨step, position,
      step.inputs.filterMap (position? (members steps phase))⟩ : Node τ) ∈ nodes steps phase :=
    mem_nodes.mpr ⟨atPosition, ofPhase, rfl⟩
  have arranged := arranged_perm.mem_iff.mpr inNodes
  rw [none, List.append_nil] at arranged
  exact ⟨_, arranged, rfl⟩

/-- The nodes of both phases in the order in which they run. -/
def sequence (steps : List (Step τ)) : List (Node τ) :=
  (arranged steps .declare).1 ++ (arranged steps .complete).1

/-- No step comes twice. -/
theorem sequence_nodup : ((sequence steps).map Node.position).Nodup := by
  have ofPhase : ∀ phase, ((arranged steps phase).1.map Node.position).Nodup := by
    intro phase
    have all : (((arranged steps phase).1 ++ (arranged steps phase).2).map
        Node.position).Nodup :=
      ((arranged_perm.map Node.position).nodup_iff).mpr nodes_nodup
    rw [List.map_append] at all
    exact (List.nodup_append.mp all).1
  rw [sequence, List.map_append, List.nodup_append]
  refine ⟨ofPhase _, ofPhase _, ?_⟩
  intro position early other late same
  obtain ⟨first, isFirst, rfl⟩ := List.mem_map.mp early
  obtain ⟨second, isSecond, rfl⟩ := List.mem_map.mp late
  obtain ⟨atFirst, firstPhase⟩ := arranged_mem isFirst
  obtain ⟨atSecond, secondPhase⟩ := arranged_mem isSecond
  rw [same, atSecond, Option.some.injEq] at atFirst
  rw [atFirst, firstPhase] at secondPhase
  cases secondPhase

/-- The ways in which a build can go, with the actions that it runs and its outcome. -/
inductive Performed (steps : List (Step τ)) (start : BuildState τ) :
    List (Execution τ) → Build.Outcome τ → Prop where
  /-- The steps are refused. -/
  | invalid {diagnostic : Diagnostic} :
      validate steps start.resolution = .error diagnostic →
      Performed steps start [] (.error diagnostic start)
  /-- There is no order for the first phase. -/
  | knotted {diagnostic : Diagnostic} :
      validate steps start.resolution = .ok () →
      order steps .declare = .error diagnostic →
      Performed steps start [] (.error diagnostic start)
  /-- A step of the first phase fails. -/
  | failed {diagnostic : Diagnostic} {after : BuildState τ} :
      validate steps start.resolution = .ok () →
      (arranged steps .declare).2 = [] →
      (perform (arranged steps .declare).1 start).2 = .error diagnostic after →
      Performed steps start (perform (arranged steps .declare).1 start).1
        (.error diagnostic after)
  /-- There is no order for the second phase. -/
  | knottedLate {diagnostic : Diagnostic} {middle : BuildState τ} :
      validate steps start.resolution = .ok () →
      (arranged steps .declare).2 = [] →
      (perform (arranged steps .declare).1 start).2 = .ok () middle →
      order steps .complete = .error diagnostic →
      Performed steps start (perform (arranged steps .declare).1 start).1
        (.error diagnostic middle)
  /-- The second phase runs. -/
  | ran {middle : BuildState τ} :
      validate steps start.resolution = .ok () →
      (arranged steps .declare).2 = [] →
      (arranged steps .complete).2 = [] →
      (perform (arranged steps .declare).1 start).2 = .ok () middle →
      Performed steps start
        ((perform (arranged steps .declare).1 start).1 ++
          (perform (arranged steps .complete).1 middle).1)
        (perform (arranged steps .complete).1 middle).2

/-- A build goes in one of these ways. -/
theorem performed (steps : List (Step τ)) (start : BuildState τ) :
    Performed steps start (executions steps start) ((schedule steps).run start) := by
  rw [executions_eq_performAll, run_eq_performAll, performAll]
  cases validated : validate steps start.resolution with
  | error diagnostic => exact .invalid validated
  | ok =>
      simp only [performPhase]
      cases declares : order steps .declare with
      | error diagnostic => exact .knotted validated declares
      | ok first =>
          have none := (order_eq_ok.mp declares).1
          simp only
          cases ran : perform (arranged steps .declare).1 start with
          | mk declared outcome =>
              have isOutcome : (perform (arranged steps .declare).1 start).2 = outcome :=
                congrArg Prod.snd ran
              have isDone : (perform (arranged steps .declare).1 start).1 = declared :=
                congrArg Prod.fst ran
              subst isDone
              cases outcome with
              | error diagnostic after => exact .failed validated none isOutcome
              | ok value middle =>
                  cases completes : order steps .complete with
                  | error diagnostic =>
                      simp only [List.append_nil]
                      exact .knottedLate validated none isOutcome completes
                  | ok second =>
                      exact .ran validated none (order_eq_ok.mp completes).1 isOutcome

/-! ## Order of the actions -/

section

variable {done : List (Execution τ)} {outcome : Build.Outcome τ}
variable {execution : Execution τ}
variable {key : Key} {final : BuildState τ}

/-- The actions that run are those of the first nodes of both phases. -/
theorem Performed.places (performed : Performed steps start done outcome) :
    done.map Execution.place <+: (sequence steps).map Node.place := by
  have early : (perform (arranged steps .declare).1 start).1.map Execution.place <+:
      (sequence steps).map Node.place := by
    rw [sequence, List.map_append]
    exact perform_places.trans (List.prefix_append _ _)
  cases performed with
  | invalid _ | knotted _ _ => exact List.nil_prefix
  | failed _ _ _ | knottedLate _ _ _ _ => exact early
  | ran _ _ _ declared =>
      rw [sequence, List.map_append, List.map_append, (perform_ok declared).1]
      exact (List.prefix_append_right_inj _).mpr perform_places

theorem Performed.placed (performed : Performed steps start done outcome)
    (member : execution ∈ done) : ∃ node ∈ sequence steps, node.place = execution.place :=
  List.mem_map.mp (performed.places.subset (List.mem_map_of_mem member))

theorem getElem?_of_mem_sequence {node : Node τ} (member : node ∈ sequence steps) :
    steps[node.position]? = some node.step := by
  rcases List.mem_append.mp member with early | late
  · exact (arranged_mem early).1
  · exact (arranged_mem late).1

theorem positions_of_places {executions : List (Execution τ)} :
    executions.map Execution.position = (executions.map Execution.place).map Prod.fst := by
  simp [Execution.place, Function.comp_def]

/-- No step is performed twice. -/
theorem Performed.once (performed : Performed steps start done outcome) :
    (done.map Execution.position).Nodup := by
  rw [positions_of_places]
  refine List.Nodup.sublist (performed.places.sublist.map Prod.fst) ?_
  simpa [Node.place, Function.comp_def] using sequence_nodup

/-- When an action of the second phase runs, every step of the first has run. -/
theorem Performed.phased (performed : Performed steps start done outcome)
    {earlier later : List (Execution τ)} (split : done = earlier ++ execution :: later)
    (isLate : execution.step.phase = .complete) {position : Nat} {step : Step τ}
    (atPosition : steps[position]? = some step) (isEarly : step.phase = .declare) :
    position ∈ earlier.map Execution.position := by
  have notDeclared : execution ∉ (perform (arranged steps .declare).1 start).1 := by
    intro member
    obtain ⟨node, inOrder, same⟩ :=
      List.mem_map.mp (perform_places.subset (List.mem_map_of_mem member))
    have sameStep : node.step = execution.step := congrArg Prod.snd same
    have ofPhase := (arranged_mem inOrder).2
    rw [sameStep, isLate] at ofPhase
    cases ofPhase
  have isDone : execution ∈ done := by simp [split]
  cases performed with
  | invalid _ | knotted _ _ => cases isDone
  | failed _ _ _ | knottedLate _ _ _ _ => exact (notDeclared isDone).elim
  | ran _ none _ declared =>
      obtain ⟨node, inOrder, same⟩ := arranged_all none atPosition isEarly
      have inFirst : (position, step) ∈
          (perform (arranged steps .declare).1 start).1.map Execution.place := by
        rw [(perform_ok declared).1, ← same]
        exact List.mem_map_of_mem inOrder
      obtain ⟨prior, inDeclared, isPrior⟩ := List.mem_map.mp inFirst
      refine List.mem_map.mpr ⟨prior, ?_, congrArg Prod.fst isPrior⟩
      rcases List.append_eq_append_iff.mp split with ⟨middle, rfl, -⟩ | ⟨middle, whole, tail⟩
      · exact List.mem_append_left _ inDeclared
      · cases middle with
        | nil => simpa [whole] using inDeclared
        | cons head middle =>
            obtain ⟨rfl, -⟩ := List.cons.inj tail
            exact (notDeclared (by simp [whole])).elim

/-! ## Inputs and outputs -/

variable (onlyAdd : ∀ step ∈ steps, OnlyAdds step)

include onlyAdd

theorem onlyAdds_of_mem_arranged {node : Node τ} (member : node ∈ (arranged steps phase).1) :
    OnlyAdds node.step :=
  onlyAdd _ (List.mem_of_getElem? (arranged_mem member).1)

/-- An action finds an input that is there when its phase starts or that a step of the
phase makes. -/
theorem perform_supplied {state : BuildState τ}
    (member : execution ∈ (perform (arranged steps phase).1 state).1)
    (input : key ∈ execution.step.inputs)
    (source : state.resolution.contains key = true ∨
      ∃ producer ∈ steps, producer.phase = phase ∧ key ∈ producer.outputs) :
    execution.before.resolution.contains key = true := by
  obtain ⟨earlier, later, split⟩ := List.append_of_mem member
  refine perform_before (fun node => onlyAdds_of_mem_arranged onlyAdd) split (source.imp_right ?_)
  rintro ⟨producer, isStep, ofPhase, output⟩
  -- The nodes split as the executions do, and the producer stands before the node.
  obtain ⟨rest, whole⟩ : (perform (arranged steps phase).1 state).1.map Execution.place <+:
      (arranged steps phase).1.map Node.place := perform_places
  rw [split, List.map_append, List.append_assoc] at whole
  obtain ⟨before, others, nodes, sameBefore, tail⟩ := List.map_eq_append_iff.mp whole.symm
  obtain ⟨node, after, rfl, sameNode, -⟩ := List.map_eq_cons_iff.mp tail
  have sameStep : node.step = execution.step := congrArg Prod.snd sameNode
  rw [← sameStep] at input
  obtain ⟨prior, present, made⟩ := arranged_ready nodes input isStep ofPhase output
  have inEarlier : prior.place ∈ earlier.map Execution.place :=
    sameBefore ▸ List.mem_map_of_mem present
  obtain ⟨ran, isEarlier, same⟩ := List.mem_map.mp inEarlier
  have sameMaker : ran.step = prior.step := congrArg Prod.snd same
  exact ⟨ran, isEarlier, sameMaker ▸ made⟩

/-- When the first phase is over, its outputs and what was resolved at the start are
there. -/
theorem perform_declared {middle : BuildState τ} (none : (arranged steps .declare).2 = [])
    (declared : (perform (arranged steps .declare).1 start).2 = .ok () middle)
    (source : start.resolution.contains key = true ∨
      ∃ producer ∈ steps, producer.phase = .declare ∧ key ∈ producer.outputs) :
    middle.resolution.contains key = true := by
  refine perform_after (fun node => onlyAdds_of_mem_arranged onlyAdd) declared
    (source.imp_right ?_)
  rintro ⟨producer, isStep, ofPhase, output⟩
  obtain ⟨position, atPosition⟩ := List.mem_iff_getElem?.mp isStep
  obtain ⟨node, inOrder, same⟩ := arranged_all none atPosition ofPhase
  have sameStep : node.step = producer := congrArg Prod.snd same
  exact ⟨node, inOrder, sameStep ▸ output⟩

/-- An action finds the inputs of its step. -/
theorem Performed.supplied (performed : Performed steps start done outcome)
    (member : execution ∈ done) (input : key ∈ execution.step.inputs) :
    execution.before.resolution.contains key = true := by
  obtain ⟨node, inOrder, same⟩ := performed.placed member
  have isStep : execution.step ∈ steps := by
    rw [← show node.step = execution.step from congrArg Prod.snd same]
    exact List.mem_of_getElem? (getElem?_of_mem_sequence inOrder)
  have inFirst : validate steps start.resolution = .ok () →
      execution ∈ (perform (arranged steps .declare).1 start).1 →
      execution.before.resolution.contains key = true := by
    intro validated member
    obtain ⟨early, inEarly, samePlace⟩ :=
      List.mem_map.mp (perform_places.subset (List.mem_map_of_mem member))
    have isEarly : execution.step.phase = .declare := by
      rw [← show early.step = execution.step from congrArg Prod.snd samePlace]
      exact (arranged_mem inEarly).2
    refine perform_supplied onlyAdd member input
      ((available_of_validate validated isStep input).imp_right ?_)
    rintro ⟨producer, isProducer, output, inTime⟩
    refine ⟨producer, isProducer, ?_, output⟩
    rw [isEarly] at inTime
    cases isPhase : producer.phase with
    | declare => rfl
    | complete => simp [isPhase, Phase.number] at inTime
  cases performed with
  | invalid _ | knotted _ _ => cases member
  | failed validated _ _ | knottedLate validated _ _ _ => exact inFirst validated member
  | ran validated none _ declared =>
      rcases List.mem_append.mp member with early | late
      · exact inFirst validated early
      · refine perform_supplied onlyAdd late input ?_
        rcases available_of_validate validated isStep input with
          atStart | ⟨producer, isProducer, output, -⟩
        · exact .inl (perform_declared onlyAdd none declared (.inl atStart))
        · cases ofPhase : producer.phase with
          | declare =>
              exact .inl (perform_declared onlyAdd none declared
                (.inr ⟨producer, isProducer, ofPhase, output⟩))
          | complete => exact .inr ⟨producer, isProducer, ofPhase, output⟩

/-- A build that succeeds ends with every output. -/
theorem Performed.complete {final : BuildState τ}
    (performed : Performed steps start done (.ok () final)) {step : Step τ} (member : step ∈ steps)
    {key : Key}
    (output : key ∈ step.outputs) : final.resolution.contains key = true := by
  generalize isOutcome : (.ok () final : Build.Outcome τ) = outcome at performed
  cases performed with
  | invalid _ | knotted _ _ | failed _ _ _ | knottedLate _ _ _ _ => cases isOutcome
  | ran _ none noneLate declared =>
      refine perform_after (fun node => onlyAdds_of_mem_arranged onlyAdd) isOutcome.symm ?_
      cases ofPhase : step.phase with
      | declare =>
          exact .inl (perform_declared onlyAdd none declared
            (.inr ⟨step, member, ofPhase, output⟩))
      | complete =>
          obtain ⟨position, atPosition⟩ := List.mem_iff_getElem?.mp member
          obtain ⟨node, inOrder, same⟩ := arranged_all noneLate atPosition ofPhase
          have sameStep : node.step = step := congrArg Prod.snd same
          exact .inr ⟨node, inOrder, sameStep ▸ output⟩

omit onlyAdd in
/-- A build that succeeds has run every step once. -/
theorem Performed.all (performed : Performed steps start done (.ok () final)) :
    (done.map Execution.position).Perm (List.range steps.length) := by
  refine (List.perm_ext_iff_of_nodup performed.once List.nodup_range).mpr fun position => ?_
  rw [List.mem_range]
  constructor
  · intro isDone
    obtain ⟨execution, member, rfl⟩ := List.mem_map.mp isDone
    obtain ⟨node, inOrder, same⟩ := performed.placed member
    rw [← show node.position = execution.position from congrArg Prod.fst same]
    exact (List.getElem?_eq_some_iff.mp (getElem?_of_mem_sequence inOrder)).1
  · intro inBounds
    have atPosition : steps[position]? = some steps[position] := List.getElem?_eq_getElem inBounds
    generalize isOutcome : (.ok () final : Build.Outcome τ) = outcome at performed
    cases performed with
    | invalid _ | knotted _ _ | failed _ _ _ | knottedLate _ _ _ _ => cases isOutcome
    | ran _ none noneLate declared =>
        rw [positions_of_places, List.map_append, (perform_ok declared).1,
          (perform_ok isOutcome.symm).1, ← List.map_append]
        have ofPhase : ∃ node ∈ sequence steps, node.place = (position, steps[position]) := by
          cases isPhase : steps[position].phase with
          | declare =>
              obtain ⟨node, inOrder, same⟩ := arranged_all none atPosition isPhase
              exact ⟨node, List.mem_append_left _ inOrder, same⟩
          | complete =>
              obtain ⟨node, inOrder, same⟩ := arranged_all noneLate atPosition isPhase
              exact ⟨node, List.mem_append_right _ inOrder, same⟩
        obtain ⟨node, inOrder, same⟩ := ofPhase
        exact List.mem_map.mpr ⟨_, List.mem_map_of_mem inOrder, congrArg Prod.fst same⟩

/-- Diagnostics with which steps are refused before any of them runs. -/
def IsRefusal : Diagnostic → Prop
  | .duplicateOutput _ _ _ | .unproducible _ _ => True
  | .cycle number _ => number = Phase.declare.number
  | _ => False

omit onlyAdd in
/-- A build that is refused, and not by one of its own actions, has done nothing. -/
theorem Performed.refused {diagnostic : Diagnostic}
    (performed : Performed steps start done (.error diagnostic final))
    (refusal : IsRefusal diagnostic)
    (own : ∀ execution ∈ done, execution.outcome ≠ .error diagnostic final) :
    done = [] ∧ final = start := by
  have unfailed : ∀ {nodes : List (Node τ)} {state : BuildState τ},
      (∀ execution ∈ (perform nodes state).1, execution ∈ done) →
      (perform nodes state).2 ≠ .error diagnostic final := by
    intro nodes state within failed
    obtain ⟨execution, member, -, acted | ⟨key, rfl⟩⟩ := perform_error failed
    · exact own execution (within execution member) acted
    · exact refusal
  generalize isOutcome : (.error diagnostic final : Build.Outcome τ) = outcome at performed
  cases performed with
  | invalid _ | knotted _ _ =>
      cases isOutcome
      exact ⟨rfl, rfl⟩
  | failed _ _ failed =>
      cases isOutcome
      exact (unfailed (fun _ member => member) failed).elim
  | knottedLate _ _ _ completes =>
      cases isOutcome
      obtain ⟨labels, rfl⟩ := order_error completes
      cases refusal
  | ran _ _ _ _ =>
      exact (unfailed (fun _ member => List.mem_append_right _ member) isOutcome.symm).elim

end

/-! ## Safety -/

/-- What holds of the actions that a build runs, and of how it ends. -/
structure Safe (steps : List (Step τ)) (start : BuildState τ) : Prop where
  /-- The record of actions is that of the build itself. -/
  faithful : recordedRun steps start =
    recordedOutcome (executions steps start) ((schedule steps).run start)
  /-- Actions are those of the steps. -/
  placed : ∀ execution ∈ executions steps start,
    steps[execution.position]? = some execution.step
  /-- Whenever an action runs, every input of its step is resolved. -/
  supplied : ∀ execution ∈ executions steps start, ∀ key ∈ execution.step.inputs,
    execution.before.resolution.contains key = true
  /-- Every step of the first phase has run before any step of the second. -/
  phased : ∀ earlier execution later,
    executions steps start = earlier ++ execution :: later →
    execution.step.phase = .complete →
    ∀ position step, steps[position]? = some step → step.phase = .declare →
      position ∈ earlier.map Execution.position
  /-- No action runs twice. -/
  once : ((executions steps start).map Execution.position).Nodup
  /-- A build that succeeds has run every step once and holds every output. -/
  finished : ∀ final, (schedule steps).run start = .ok () final →
    ((executions steps start).map Execution.position).Perm (List.range steps.length) ∧
      ∀ step ∈ steps, ∀ key ∈ step.outputs, final.resolution.contains key = true
  /-- A build that is refused for its steps has run no action and changed nothing.  The
  action of a step may fail with any diagnostic; that is no refusal. -/
  refused : ∀ diagnostic final, (schedule steps).run start = .error diagnostic final →
    IsRefusal diagnostic →
    (∀ execution ∈ executions steps start, execution.outcome ≠ .error diagnostic final) →
      executions steps start = [] ∧ final = start

/-- Every build whose actions only add to what is resolved is safe. -/
theorem schedule_safe (steps : List (Step τ)) (start : BuildState τ)
    (onlyAdd : ∀ step ∈ steps, OnlyAdds step) : Safe steps start := by
  have ways := performed steps start
  refine ⟨recordedRun_eq start, ?_, ?_, ?_, ways.once, ?_, ?_⟩
  · intro execution member
    obtain ⟨node, inOrder, same⟩ := ways.placed member
    obtain ⟨samePosition, sameStep⟩ := Prod.mk.inj same
    rw [← samePosition, ← sameStep]
    exact getElem?_of_mem_sequence inOrder
  · exact fun execution member key input => ways.supplied onlyAdd member input
  · exact fun earlier execution later split isLate position step atPosition isEarly =>
      ways.phased split isLate atPosition isEarly
  · intro final succeeded
    rw [succeeded] at ways
    exact ⟨ways.all, fun step member key output => ways.complete onlyAdd member output⟩
  · intro diagnostic final failed refusal own
    rw [failed] at ways
    exact ways.refused refusal own

/-- Recording a handle only adds to what is resolved. -/
theorem onlyAdds_record {key : Key} {resolved : Resolved}
    (records : step.action = Build.record key resolved) : OnlyAdds step := by
  intro before after succeeded other value found
  rw [records] at succeeded
  obtain ⟨extended, inserted, rfl⟩ := Build.record_eq_ok.mp succeeded
  exact KeyTable.get?_of_insert? inserted found

/-- Three steps listed against their order: `Base` is declared before `Derived`, and
completed after both. -/
def hierarchySteps : List (Step Unit) :=
  [.make "seal Base" .complete [.type "Base"] [.completed "Base"]
      (Build.record (.completed "Base") (.completed ⟨⟨0⟩, "Base"⟩)),
    .make "declare Derived" .declare [.type "Base"] [.type "Derived"]
      (Build.record (.type "Derived") (.type ⟨1⟩)),
    .make "declare Base" .declare [] [.type "Base"]
      (Build.record (.type "Base") (.type ⟨0⟩))]

/-- A base is declared before the class on it, which is not listed so. -/
theorem hierarchySteps_safe :
    (∀ step ∈ hierarchySteps, OnlyAdds step) ∧ Safe hierarchySteps ⟨(), .empty⟩ ∧
      (executions hierarchySteps ⟨(), .empty⟩).map Execution.position = [2, 1, 0] := by
  have onlyAdd : ∀ step ∈ hierarchySteps, OnlyAdds step := by
    simp only [hierarchySteps, List.forall_mem_cons, List.not_mem_nil, false_imp_iff,
      implies_true, and_true]
    exact ⟨onlyAdds_record rfl, onlyAdds_record rfl, onlyAdds_record rfl⟩
  refine ⟨onlyAdd, schedule_safe _ _ onlyAdd, ?_⟩
  decide +kernel

/-- A step that counts itself in the target and then fails with a diagnostic that refuses steps
before any of them runs. -/
def reportingSteps : List (Step Nat) :=
  [.make "count" .declare [] [] do
    modify fun state => { state with target := state.target + 1 }
    throw (.duplicateOutput (.type "Base") "declare Base" "declare Base again")]

/-- What an action fails with tells nothing of what has run: a build that ends with such a
diagnostic may have run an action and changed the target. -/
theorem reportingSteps_unsafe :
    (∀ step ∈ reportingSteps, OnlyAdds step) ∧ ∃ diagnostic final,
      (schedule reportingSteps).run ⟨0, .empty⟩ = .error diagnostic final ∧
      IsRefusal diagnostic ∧ final.target = 1 ∧
      (executions reportingSteps ⟨0, .empty⟩).map Execution.position = [0] := by
  refine ⟨?_, _, _, rfl, trivial, rfl, ?_⟩
  · intro step isStep before after succeeded
    obtain rfl := List.mem_singleton.mp isStep
    cases succeeded
  · decide +kernel

end Schedule

end ClassForge
