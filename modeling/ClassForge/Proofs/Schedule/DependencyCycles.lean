import ClassForge.Proofs.Schedule.ScheduleSafety
import Mathlib.Data.Set.Finite.List
import Mathlib.Order.WellFounded

/-!
# Dependency cycles

A step depends on another step of its phase when it reads what the other makes.
Ordering a phase gets stuck on exactly the steps from which a cycle of dependencies
can be reached, and a build stops there if it gets that far.
-/

namespace ClassForge

namespace Schedule

open Relation

variable {τ : Type} {steps : List (Step τ)} {phase : Phase} {start : BuildState τ}

/-! ## Dependencies within a phase -/

/-- A step of a phase reads what a step of the same phase makes. -/
structure DependsIn (steps : List (Step τ)) (phase : Phase) (step other : Step τ) : Prop where
  member : step ∈ steps
  ofPhase : step.phase = phase
  otherMember : other ∈ steps
  otherOfPhase : other.phase = phase
  reads : ∃ key ∈ step.inputs, key ∈ other.outputs

/-- Some step of the phase depends on itself, directly or through others. -/
def HasCycle (steps : List (Step τ)) (phase : Phase) : Prop :=
  ∃ step, TransGen (DependsIn steps phase) step step

/-- A step depends on one that lies on a cycle, or lies on it itself. -/
def ReachesCycle (steps : List (Step τ)) (phase : Phase) (step : Step τ) : Prop :=
  ∃ looping, ReflTransGen (DependsIn steps phase) step looping ∧
    TransGen (DependsIn steps phase) looping looping

theorem HasCycle.of_reaches {step : Step τ} (reaches : ReachesCycle steps phase step) :
    HasCycle steps phase :=
  let ⟨looping, _, cycle⟩ := reaches
  ⟨looping, cycle⟩

/-- From a step that reaches a cycle, the first dependency leads to another one. -/
theorem ReachesCycle.exists_next {step : Step τ} (reaches : ReachesCycle steps phase step) :
    ∃ next, DependsIn steps phase step next ∧ ReachesCycle steps phase next := by
  obtain ⟨looping, path, cycle⟩ := reaches
  rcases path.cases_head with rfl | ⟨next, first, rest⟩
  · obtain ⟨next, first, back⟩ := TransGen.head'_iff.mp cycle
    exact ⟨next, first, step, back, cycle⟩
  · exact ⟨next, first, looping, rest, cycle⟩

/-! ## Stuck nodes -/

/-- The nodes that run reach no cycle: what they depend on runs before them. -/
theorem not_reachesCycle_of_arranged (disjoint : steps.Pairwise Disjoint) {node : Node τ}
    (member : node ∈ (arranged steps phase).1) : ¬ReachesCycle steps phase node.step := by
  obtain ⟨before, after, split⟩ := List.append_of_mem member
  clear member
  -- By induction on the number of nodes that run before.
  induction isLength : before.length using Nat.strongRecOn generalizing before after node with
  | _ length ih =>
      intro reaches
      obtain ⟨next, depends, nextReaches⟩ := reaches.exists_next
      obtain ⟨key, input, output⟩ := depends.reads
      obtain ⟨prior, present, made⟩ :=
        arranged_ready split input depends.otherMember depends.otherOfPhase output
      have isStep : prior.step ∈ steps := by
        have inOrder : prior ∈ (arranged steps phase).1 := by simp [split, present]
        exact List.mem_of_getElem? (arranged_mem inOrder).1
      have same : prior.step = next := by
        by_contra different
        exact disjoint.forall isStep depends.otherMember different key made output
      obtain ⟨first, second, rfl⟩ := List.append_of_mem present
      refine ih first.length ?_ first (second ++ node :: after) ?_ rfl (same ▸ nextReaches)
      · rw [← isLength]
        simp
      · simpa using split

/-- A stuck step depends on the stuck ones that it reads from. -/
theorem dependsIn_of_stuck {node awaited : Node τ} (stuck : node ∈ (arranged steps phase).2)
    (late : awaited ∈ (arranged steps phase).2)
    (reads : ∃ key ∈ node.step.inputs, key ∈ awaited.step.outputs) :
    DependsIn steps phase node.step awaited.step := by
  obtain ⟨atNode, ofPhase, -⟩ :=
    mem_nodes.mp (arranged_perm.subset (List.mem_append_right _ stuck))
  obtain ⟨atAwaited, otherOfPhase, -⟩ :=
    mem_nodes.mp (arranged_perm.subset (List.mem_append_right _ late))
  exact ⟨List.mem_of_getElem? atNode, ofPhase, List.mem_of_getElem? atAwaited, otherOfPhase,
    reads⟩

/-- A node that never runs reaches a cycle: each of them waits for another one, and there
are finitely many. -/
theorem reachesCycle_of_stuck {node : Node τ} (stuck : node ∈ (arranged steps phase).2) :
    ReachesCycle steps phase node.step := by
  by_contra acyclic
  let Waiting := { other : Node τ // other ∈ (arranged steps phase).2 ∧
    ReflTransGen (DependsIn steps phase) node.step other.step }
  have finite : Finite Waiting :=
    Set.Finite.to_subtype (((arranged steps phase).2.finite_toSet).subset fun _ member => member.1)
  let Above (left right : Waiting) : Prop :=
    TransGen (DependsIn steps phase) right.1.step left.1.step
  have trans : IsTrans Waiting Above := ⟨fun _ _ _ first second => second.trans first⟩
  have irrefl : Std.Irrefl Above :=
    ⟨fun other cycle => acyclic ⟨other.1.step, other.2.2, cycle⟩⟩
  have wellFounded : WellFounded Above := Finite.wellFounded_of_trans_of_irrefl Above
  obtain ⟨last, -, isLast⟩ :=
    wellFounded.has_min Set.univ ⟨(⟨node, stuck, .refl⟩ : Waiting), trivial⟩
  obtain ⟨awaited, late, reads⟩ := arranged_stuck last.2.1
  have depends := dependsIn_of_stuck last.2.1 late reads
  exact isLast ⟨awaited, late, last.2.2.tail depends⟩ trivial (.single depends)

/-- The labels of the steps of a phase that reach a cycle, in ascending order. -/
noncomputable def cycleLabels (steps : List (Step τ)) (phase : Phase) : List String :=
  open Classical in
  ((steps.filter fun step => step.phase = phase ∧ ReachesCycle steps phase step).map
    Step.label).mergeSort fun left right => (compare left right).isLE

section

open Classical in
/-- The nodes that never run are those of the steps that reach a cycle. -/
theorem stuck_perm (disjoint : steps.Pairwise Disjoint) :
    ((arranged steps phase).2.map Node.step).Perm
      (steps.filter fun step => step.phase = phase ∧ ReachesCycle steps phase step) := by
  have reaching : ((arranged steps phase).1 ++ (arranged steps phase).2).filter
      (fun node => decide (ReachesCycle steps phase node.step)) = (arranged steps phase).2 := by
    rw [List.filter_append, List.filter_eq_nil_iff.mpr, List.filter_eq_self.mpr, List.nil_append]
    · exact fun node stuck => by simpa using reachesCycle_of_stuck stuck
    · exact fun node member => by simpa using not_reachesCycle_of_arranged disjoint member
  have ofPhase : (nodes steps phase).map Node.step =
      steps.filter fun step => step.phase = phase := by
    rw [← members_map_step]
    simp [nodes, Function.comp_def]
  have perm : (arranged steps phase).2.Perm ((nodes steps phase).filter fun node =>
      decide (ReachesCycle steps phase node.step)) := by
    rw [← reaching]
    exact arranged_perm.filter _
  refine (perm.map Node.step).trans (List.Perm.of_eq ?_)
  have mapped : ((nodes steps phase).filter fun node =>
        decide (ReachesCycle steps phase node.step)).map Node.step =
      ((nodes steps phase).map Node.step).filter fun step =>
        decide (ReachesCycle steps phase step) := by
    rw [List.filter_map]
    rfl
  rw [mapped, ofPhase, List.filter_filter]
  exact List.filter_congr fun step _ => by simp [Bool.and_comm]

end

/-- There is a cycle just when a step is stuck. -/
theorem hasCycle_iff (disjoint : steps.Pairwise Disjoint) :
    HasCycle steps phase ↔ (arranged steps phase).2 ≠ [] := by
  constructor
  · rintro ⟨step, cycle⟩ none
    obtain ⟨next, depends, -⟩ := TransGen.head'_iff.mp cycle
    obtain ⟨position, atPosition⟩ := List.mem_iff_getElem?.mp depends.member
    obtain ⟨node, inOrder, same⟩ := arranged_all none atPosition depends.ofPhase
    have sameStep : node.step = step := congrArg Prod.snd same
    exact not_reachesCycle_of_arranged disjoint inOrder (sameStep ▸ ⟨step, .refl, cycle⟩)
  · intro some
    obtain ⟨node, stuck⟩ := List.exists_mem_of_ne_nil _ some
    exact .of_reaches (reachesCycle_of_stuck stuck)

/-- A phase without a cycle can be ordered. -/
theorem order_of_acyclic (disjoint : steps.Pairwise Disjoint)
    (acyclic : ¬HasCycle steps phase) :
    order steps phase = .ok ((arranged steps phase).1.map Node.step) := by
  rw [hasCycle_iff disjoint, ne_eq, not_not] at acyclic
  exact order_eq_ok.mpr ⟨acyclic, rfl⟩

/-- A phase with a cycle is refused, with the labels of the steps that reach it. -/
theorem order_of_cycle (disjoint : steps.Pairwise Disjoint)
    (cyclic : HasCycle steps phase) :
    order steps phase = .error (.cycle phase.number (cycleLabels steps phase)) := by
  have labels : (((arranged steps phase).2.map fun node => node.step.label).mergeSort
      fun left right => (compare left right).isLE) = cycleLabels steps phase := by
    refine mergeSort_labels_eq ?_
    have perm : (((arranged steps phase).2.map Node.step).map Step.label).Perm _ :=
      (stuck_perm disjoint).map Step.label
    rwa [List.map_map] at perm
  rw [hasCycle_iff disjoint] at cyclic
  rw [order_eq_arranged, ← labels]
  generalize arranged steps phase = parts at cyclic ⊢
  obtain ⟨order, stuck⟩ := parts
  cases stuck with
  | nil => exact (cyclic rfl).elim
  | cons node others => rfl

/-! ## Builds that meet a cycle -/

/-- The build itself ends with a diagnostic, and not one of its actions. -/
def Refuses (steps : List (Step τ)) (start : BuildState τ) (diagnostic : Diagnostic) : Prop :=
  ∃ final, (schedule steps).run start = .error diagnostic final ∧
    ∀ execution ∈ executions steps start, execution.outcome ≠ .error diagnostic final

/-- A build gets to a phase when no earlier phase has a cycle and no step of an earlier
phase fails: the actions succeed and leave the outputs of their steps. -/
def Reached (steps : List (Step τ)) (start : BuildState τ) (phase : Phase) : Prop :=
  ∀ earlier : Phase, earlier.number < phase.number →
    ¬HasCycle steps earlier ∧
      ∀ execution ∈ executions steps start, execution.step.phase = earlier → execution.Completed

/-- The actions of a run of nodes of one phase. -/
theorem phase_of_mem_perform {state : BuildState τ} {execution : Execution τ}
    (member : execution ∈ (perform (arranged steps phase).1 state).1) :
    execution.step.phase = phase := by
  obtain ⟨node, inOrder, same⟩ :=
    List.mem_map.mp (perform_places.subset (List.mem_map_of_mem member))
  rw [← show node.step = execution.step from congrArg Prod.snd same]
  exact (arranged_mem inOrder).2

/-- Where a build that ends with a cycle has got to. -/
theorem Performed.cycle {done : List (Execution τ)} {number : Nat} {labels : List String}
    {final : BuildState τ}
    (performed : Performed steps start done (.error (.cycle number labels) final))
    (validated : validate steps start.resolution = .ok ())
    (own : ∀ execution ∈ done, execution.outcome ≠ .error (.cycle number labels) final) :
    ∃ phase : Phase, number = phase.number ∧ HasCycle steps phase ∧
      labels = cycleLabels steps phase ∧
      (∀ execution ∈ done, execution.step.phase.number < phase.number ∧ execution.Completed) ∧
      ∀ earlier : Phase, earlier.number < phase.number → ¬HasCycle steps earlier := by
  have disjoint := disjoint_of_validate validated
  have unfailed : ∀ {nodes : List (Node τ)} {state : BuildState τ},
      (∀ execution ∈ (perform nodes state).1, execution ∈ done) →
      (perform nodes state).2 ≠ .error (.cycle number labels) final := by
    intro nodes state within failed
    obtain ⟨execution, member, -, acted | ⟨key, missing⟩⟩ := perform_error failed
    · exact own execution (within execution member) acted
    · cases missing
  have cyclic : ∀ {phase : Phase}, order steps phase = .error (.cycle number labels) →
      number = phase.number ∧ HasCycle steps phase ∧ labels = cycleLabels steps phase := by
    intro phase refused
    by_cases cycle : HasCycle steps phase
    · rw [order_of_cycle disjoint cycle] at refused
      cases refused
      exact ⟨rfl, cycle, rfl⟩
    · rw [order_of_acyclic disjoint cycle] at refused
      cases refused
  generalize isOutcome : (.error (.cycle number labels) final : Build.Outcome τ) = outcome
    at performed
  cases performed with
  | invalid refused => cases validated.symm.trans refused
  | knotted _ declares =>
      cases isOutcome
      obtain ⟨isNumber, cycle, isLabels⟩ := cyclic declares
      refine ⟨.declare, isNumber, cycle, isLabels, by simp, ?_⟩
      intro earlier before
      cases earlier <;> simp [Phase.number] at before
  | failed _ _ failed =>
      cases isOutcome
      exact (unfailed (fun _ member => member) failed).elim
  | knottedLate _ none declared completes =>
      cases isOutcome
      obtain ⟨isNumber, cycle, isLabels⟩ := cyclic completes
      refine ⟨.complete, isNumber, cycle, isLabels, ?_, ?_⟩
      · intro execution member
        rw [phase_of_mem_perform member]
        exact ⟨by decide, (perform_ok declared).2 execution member⟩
      · intro earlier before
        cases earlier with
        | declare =>
            rw [hasCycle_iff disjoint, ne_eq, not_not]
            exact none
        | complete => simp [Phase.number] at before
  | ran _ _ _ _ =>
      exact (unfailed (fun _ member => List.mem_append_right _ member) isOutcome.symm).elim

/-- A build that gets to a phase with a cycle ends there, before any step of it. -/
theorem refuses_of_cycle (validated : validate steps start.resolution = .ok ())
    (cycle : HasCycle steps phase)
    (reached : Reached steps start phase) :
    Refuses steps start (.cycle phase.number (cycleLabels steps phase)) := by
  have disjoint := disjoint_of_validate validated
  cases phase with
  | declare =>
      have stopped : performAll steps start =
          ([], .error (.cycle Phase.declare.number (cycleLabels steps .declare)) start) := by
        simp only [performAll, validated, performPhase, order_of_cycle disjoint cycle]
      refine ⟨start, ?_, ?_⟩
      · rw [run_eq_performAll, stopped]
      · rw [executions_eq_performAll, stopped]
        simp
  | complete =>
      obtain ⟨acyclic, completed⟩ := reached .declare (by decide)
      have declares := order_of_acyclic disjoint acyclic
      have completes := order_of_cycle disjoint cycle
      -- The first phase succeeds, since each of its actions is completed.
      cases ran : (perform (arranged steps .declare).1 start).2 with
      | error diagnostic after =>
          obtain ⟨execution, member, incomplete, -⟩ := perform_error ran
          refine (incomplete (completed execution ?_ (phase_of_mem_perform member))).elim
          have shape : (performAll steps start).1 =
              (perform (arranged steps .declare).1 start).1 := by
            simp only [performAll, validated, performPhase, declares]
            rw [show perform (arranged steps .declare).1 start =
              ((perform (arranged steps .declare).1 start).1, .error diagnostic after) from
                Prod.ext rfl ran]
          rw [executions_eq_performAll, shape]
          exact member
      | ok value middle =>
          have stopped : performAll steps start =
              ((perform (arranged steps .declare).1 start).1,
                .error (.cycle Phase.complete.number (cycleLabels steps .complete)) middle) := by
            simp only [performAll, validated, performPhase, declares, completes]
            rw [show perform (arranged steps .declare).1 start =
              ((perform (arranged steps .declare).1 start).1, .ok () middle) from
                Prod.ext rfl ran]
            simp
          refine ⟨middle, ?_, ?_⟩
          · rw [run_eq_performAll, stopped]
          · rw [executions_eq_performAll, stopped]
            intro execution member failed
            obtain ⟨after, succeeded, -⟩ := (perform_ok ran).2 execution member
            cases failed.symm.trans succeeded

/-- Cycles are detected exactly: a build ends with a cycle of a phase just when the phase
has one and the build gets there, it names the steps that reach the cycle, and runs none
of the phase. -/
theorem cycle_exact (steps : List (Step τ)) (start : BuildState τ)
    (validated : validate steps start.resolution = .ok ()) (phase : Phase) :
    ((∃ labels, Refuses steps start (.cycle phase.number labels)) ↔
      HasCycle steps phase ∧ Reached steps start phase) ∧
    ∀ labels, Refuses steps start (.cycle phase.number labels) →
      labels = cycleLabels steps phase ∧
        ∀ execution ∈ executions steps start, execution.step.phase ≠ phase := by
  have found : ∀ labels, Refuses steps start (.cycle phase.number labels) →
      HasCycle steps phase ∧ labels = cycleLabels steps phase ∧
      (∀ execution ∈ executions steps start,
        execution.step.phase.number < phase.number ∧ execution.Completed) ∧
      ∀ earlier : Phase, earlier.number < phase.number → ¬HasCycle steps earlier := by
    rintro labels ⟨final, failed, own⟩
    have ways := performed steps start
    rw [failed] at ways
    obtain ⟨other, sameNumber, facts⟩ := ways.cycle validated own
    obtain rfl : phase = other := by
      cases phase <;> cases other <;> first | rfl | cases sameNumber
    exact facts
  refine ⟨⟨?_, ?_⟩, ?_⟩
  · rintro ⟨labels, refuses⟩
    obtain ⟨cycle, -, completed, acyclic⟩ := found labels refuses
    exact ⟨cycle, fun earlier before =>
      ⟨acyclic earlier before, fun execution member _ => (completed execution member).2⟩⟩
  · rintro ⟨cycle, reached⟩
    exact ⟨_, refuses_of_cycle validated cycle reached⟩
  · intro labels refuses
    obtain ⟨-, isLabels, completed, -⟩ := found labels refuses
    refine ⟨isLabels, fun execution member same => ?_⟩
    have before := (completed execution member).1
    rw [same] at before
    exact Nat.lt_irrefl _ before

/-- Two types that wait for each other, beside one that waits for nothing. -/
def mutualSteps : List (Step Unit) :=
  [.make "make A" .declare [.type "B"] [.type "A"] (pure ()),
    .make "declare Free" .declare [] [.type "Free"] (Build.record (.type "Free") (.type ⟨0⟩)),
    .make "make B" .declare [.type "A"] [.type "B"] (pure ())]

/-- Two steps that read from each other are refused. -/
theorem mutualSteps_cycle_exact :
    validate mutualSteps .empty = .ok () ∧ HasCycle mutualSteps .declare ∧
      (∃ labels, Refuses mutualSteps ⟨(), .empty⟩ (.cycle 1 labels)) ∧
      ∀ execution ∈ executions mutualSteps ⟨(), .empty⟩, execution.step.phase ≠ .declare := by
  have validated : validate mutualSteps .empty = .ok () := by decide +kernel
  have forth : DependsIn mutualSteps .declare mutualSteps[0] mutualSteps[2] :=
    ⟨List.getElem_mem _, rfl, List.getElem_mem _, rfl, .type "B", by decide, by decide⟩
  have back : DependsIn mutualSteps .declare mutualSteps[2] mutualSteps[0] :=
    ⟨List.getElem_mem _, rfl, List.getElem_mem _, rfl, .type "A", by decide, by decide⟩
  have cycle : HasCycle mutualSteps .declare := ⟨_, .tail (.single forth) back⟩
  have reached : Reached mutualSteps ⟨(), .empty⟩ .declare := by
    intro earlier before
    cases earlier <;> simp [Phase.number] at before
  obtain ⟨reports, exact⟩ := cycle_exact mutualSteps ⟨(), .empty⟩ validated .declare
  obtain ⟨labels, refuses⟩ := reports.mpr ⟨cycle, reached⟩
  exact ⟨validated, cycle, ⟨labels, refuses⟩, (exact labels refuses).2⟩

/-! ## Cycles that a build does not get to -/

/-- A type that waits for itself in each of the two phases. -/
def twiceKnottedSteps : List (Step Unit) :=
  [.make "declare Knot" .declare [.type "Knot"] [.type "Knot"] (pure ()),
    .make "seal Knot" .complete [.completed "Knot"] [.completed "Knot"] (pure ())]

/-- A type that is never made, although its action succeeds, and one that waits for
itself in the second phase. -/
def emptyHandedSteps : List (Step Unit) :=
  [.make "declare Ghost" .declare [] [.type "Ghost"] (pure ()),
    .make "seal Knot" .complete [.completed "Knot"] [.completed "Knot"] (pure ())]

/-- A cycle in the second phase that a build does not report, although no action fails. -/
def LeavesCycle (steps : List (Step Unit)) : Prop :=
  validate steps .empty = .ok () ∧ HasCycle steps .complete ∧
    (∀ execution ∈ executions steps ⟨(), .empty⟩, ∃ after, execution.outcome = .ok () after) ∧
    ∀ labels final, (schedule steps).run ⟨(), .empty⟩ ≠
      .error (.cycle Phase.complete.number labels) final

/-- A cycle in the second phase is not reported when the first phase has a cycle itself or a
step of it leaves out an output. -/
theorem late_cycle_unreported : LeavesCycle twiceKnottedSteps ∧ LeavesCycle emptyHandedSteps := by
  constructor
  · have validated : validate twiceKnottedSteps .empty = .ok () := by decide +kernel
    have knot : HasCycle twiceKnottedSteps .declare :=
      ⟨twiceKnottedSteps[0], .single ⟨List.getElem_mem _, rfl, List.getElem_mem _, rfl,
        .type "Knot", by decide, by decide⟩⟩
    have lateKnot : HasCycle twiceKnottedSteps .complete :=
      ⟨twiceKnottedSteps[1], .single ⟨List.getElem_mem _, rfl, List.getElem_mem _, rfl,
        .completed "Knot", by decide, by decide⟩⟩
    have stopped : performAll twiceKnottedSteps ⟨(), .empty⟩ =
        ([], .error (.cycle Phase.declare.number (cycleLabels twiceKnottedSteps .declare))
          ⟨(), .empty⟩) := by
      simp only [performAll, validated, performPhase,
        order_of_cycle (disjoint_of_validate validated) knot]
    refine ⟨validated, lateKnot, ?_, ?_⟩
    · rw [executions_eq_performAll, stopped]
      simp
    · intro labels final
      rw [run_eq_performAll, stopped]
      simp [Phase.number]
  · have validated : validate emptyHandedSteps .empty = .ok () := by decide +kernel
    have lateKnot : HasCycle emptyHandedSteps .complete :=
      ⟨emptyHandedSteps[1], .single ⟨List.getElem_mem _, rfl, List.getElem_mem _, rfl,
        .completed "Knot", by decide, by decide⟩⟩
    have ran : executions emptyHandedSteps ⟨(), .empty⟩ =
        [⟨0, emptyHandedSteps[0], ⟨(), .empty⟩, .ok () ⟨(), .empty⟩⟩] := rfl
    have stopped : (schedule emptyHandedSteps).run ⟨(), .empty⟩ =
        .error (.missingOutput "declare Ghost" (.type "Ghost")) ⟨(), .empty⟩ := rfl
    exact ⟨validated, lateKnot, by simp [ran], by simp [stopped]⟩

end Schedule

end ClassForge
