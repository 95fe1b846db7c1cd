import ClassForge.Proofs.Schedule.DependencyCycles
import Mathlib.Data.List.Lex

/-!
# The canonical order of a build

Steps with different labels run in the least order that their dependencies permit,
comparing lists of labels from the left.  Nothing of the order in which the steps are
listed is left in it: a build of the same steps in another order does the same.
-/

namespace ClassForge

namespace Schedule

variable {τ : Type} {steps shuffled : List (Step τ)} {phase : Phase} {start : BuildState τ}

/-! ## Lists of labels -/

/-- A list of labels is the other one or comes before it in lexicographic order. -/
def LexLE (left right : List String) : Prop :=
  left = right ∨ List.Lex (fun first second => compare first second = .lt) left right

theorem LexLE.cons {left right : List String} (before : LexLE left right) (label : String) :
    LexLE (label :: left) (label :: right) :=
  before.imp (congrArg _) .cons

/-- Two sequences of which each is the lesser are the same. -/
theorem LexLE.antisymm {left right : List String} (before : LexLE left right)
    (after : LexLE right left) : left = right := by
  rcases before with same | before
  · exact same
  rcases after with same | after
  · exact same.symm
  have asymm : Std.Asymm fun first second : String => compare first second = .lt :=
    ⟨fun first second less greater =>
      lt_asymm (compare_lt_iff_lt.mp less) (compare_lt_iff_lt.mp greater)⟩
  exact ((List.Lex.asymm _).asymm _ _ before after).elim

/-! ## Orders that the dependencies permit -/

/-- The steps of a phase in an order in which none stands before one that it depends
on. -/
structure LinearExtension (steps : List (Step τ)) (phase : Phase) (sequence : List (Step τ)) :
    Prop where
  perm : sequence.Perm (steps.filter fun step => step.phase = phase)
  respects : sequence.Pairwise fun earlier later => ¬DependsIn steps phase earlier later

/-- Steps in another order are the steps of nodes in another order. -/
theorem exists_nodes_perm {sequence : List (Step τ)}
    (perm : sequence.Perm (steps.filter fun step => step.phase = phase)) :
    ∃ others : List (Node τ), others.Perm (nodes steps phase) ∧
      others.map Node.step = sequence := by
  rw [← nodes_map_step] at perm
  have related : List.Forall₂ (fun step node => Node.step node = step)
      ((nodes steps phase).map Node.step) (nodes steps phase) := by
    rw [List.forall₂_map_left_iff]
    exact List.forall₂_same.mpr fun _ _ => rfl
  obtain ⟨others, pairs, isPerm⟩ := List.perm_comp_forall₂ perm related
  refine ⟨others, isPerm, ?_⟩
  have mapped : List.Forall₂ Eq (others.map Node.step) sequence := by
    rw [List.forall₂_map_left_iff]
    exact pairs.flip
  exact List.forall₂_eq_eq_eq ▸ mapped

/-- In a permitted order of nodes, what a node needs stands before it. -/
theorem needs_before {others before after : List (Node τ)} {node : Node τ}
    (acyclic : ¬HasCycle steps phase) (isPerm : others.Perm (nodes steps phase))
    (respects : (others.map Node.step).Pairwise fun earlier later =>
      ¬DependsIn steps phase earlier later)
    (split : others = before ++ node :: after) {position : Nat}
    (needed : position ∈ node.needs) :
    ∃ prior ∈ before, prior.position = position := by
  have inNodes : node ∈ nodes steps phase := isPerm.subset (by simp [split])
  obtain ⟨atNode, ofPhase, needs⟩ := mem_nodes.mp inNodes
  rw [needs] at needed
  obtain ⟨key, input, found⟩ := List.mem_filterMap.mp needed
  obtain ⟨producer, atPosition, producerPhase, output⟩ := position?_eq_some found
  have depends : DependsIn steps phase node.step producer :=
    ⟨List.mem_of_getElem? atNode, ofPhase, List.mem_of_getElem? atPosition, producerPhase,
      key, input, output⟩
  have awaited : (⟨producer, position,
      producer.inputs.filterMap (position? (members steps phase))⟩ : Node τ) ∈ others :=
    isPerm.mem_iff.mpr (mem_nodes.mpr ⟨atPosition, producerPhase, rfl⟩)
  rw [split, List.mem_append, List.mem_cons] at awaited
  rcases awaited with early | same | late
  · exact ⟨_, early, rfl⟩
  · have itself : producer = node.step := congrArg Node.step same
    exact (acyclic ⟨node.step, .single (itself ▸ depends)⟩).elim
  · rw [split, List.map_append, List.map_cons, List.pairwise_append, List.pairwise_cons]
      at respects
    exact (respects.2.1.1 producer (List.mem_map_of_mem late) depends).elim

/-! ## The least of them -/

/-- Taking the first ready node of a sorted list again and again gives the least of the
orders in which every node has what it needs. -/
theorem arrange_least {count : Nat} {done : Array Bool} {remaining sequence others : List (Node τ)}
    (sorted : remaining.Pairwise fun left right =>
      compare left.step.label right.step.label = .lt)
    (distinct : (remaining.map Node.position).Nodup)
    (inBounds : ∀ node ∈ remaining, node.position < done.size)
    (arrangement : arrange count done remaining = (sequence, [])) (perm : others.Perm remaining)
    (ready : ∀ before node after, others = before ++ node :: after →
      ∀ position ∈ node.needs, done.getD position false = true ∨
        ∃ prior ∈ before, prior.position = position) :
    LexLE (sequence.map fun node => node.step.label)
      (others.map fun node => node.step.label) := by
  induction count generalizing done remaining sequence others with
  | zero =>
      cases arrangement
      rw [List.perm_nil.mp perm]
      exact .inl rfl
  | succ count ih =>
      rw [arrange] at arrangement
      cases found : remaining.find? (isReady done) with
      | none =>
          simp only [found] at arrangement
          cases arrangement
          rw [List.perm_nil.mp perm]
          exact .inl rfl
      | some next =>
          simp only [found, Prod.mk.injEq] at arrangement
          obtain ⟨rfl, none⟩ := arrangement
          obtain ⟨-, earlier, later, whole, unready⟩ := List.find?_eq_some_iff_append.mp found
          have present : next ∈ remaining := by simp [whole]
          cases others with
          | nil => simp [List.perm_nil.mp perm.symm] at present
          | cons first rest =>
              have firstReady : isReady done first = true := by
                refine List.all_eq_true.mpr fun position needed => ?_
                simpa using ready [] first rest rfl position needed
              have member : first ∈ remaining := perm.subset List.mem_cons_self
              rw [whole, List.mem_append, List.mem_cons] at member
              rcases member with before | same | after
              · have waits := unready first before
                simp [firstReady] at waits
              · subst same
                have taken := perm_cons_filter distinct present
                refine LexLE.cons (ih ?_ ?_ ?_ (Prod.ext rfl none) ?_ ?_) _
                · exact sorted.sublist List.filter_sublist
                · exact List.Nodup.sublist (List.Sublist.map _ List.filter_sublist) distinct
                · intro node inRest
                  rw [Array.size_setIfInBounds]
                  exact inBounds node (List.mem_filter.mp inRest).1
                · exact (perm.trans taken.symm).cons_inv
                · intro before node after split position needed
                  rw [Array.getD_eq_getD_getElem?, Array.getElem?_setIfInBounds]
                  by_cases own : first.position = position
                  · subst own
                    simp [inBounds first present]
                  · rw [if_neg own, ← Array.getD_eq_getD_getElem?]
                    refine (ready (first :: before) node after (by simp [split]) position
                      needed).imp_right ?_
                    rintro ⟨prior, inBefore, same⟩
                    rcases List.mem_cons.mp inBefore with rfl | inBefore
                    · exact (own same).elim
                    · exact ⟨prior, inBefore, same⟩
              · rw [whole, List.pairwise_append, List.pairwise_cons] at sorted
                exact .inr (.rel (sorted.2.1.1 first after))

section Distinct

variable (disjoint : steps.Pairwise Disjoint) (distinct : (steps.map Step.label).Nodup)

include distinct

/-- Lists of steps with the same labels are the same. -/
theorem eq_of_labels {left right : List (Step τ)} (inLeft : ∀ step ∈ left, step ∈ steps)
    (inRight : ∀ step ∈ right, step ∈ steps)
    (labels : left.map Step.label = right.map Step.label) : left = right := by
  induction left generalizing right with
  | nil => exact (List.map_eq_nil_iff.mp labels.symm).symm
  | cons step left ih =>
      cases right with
      | nil => cases labels
      | cons other right =>
          obtain ⟨sameLabel, sameRest⟩ := List.cons.inj labels
          obtain rfl : step = other := List.inj_on_of_nodup_map distinct
            (inLeft step (by simp)) (inRight other (by simp)) sameLabel
          rw [ih (fun step member => inLeft step (by simp [member]))
            (fun step member => inRight step (by simp [member])) sameRest]

/-- Different nodes have different labels. -/
theorem nodes_labels_nodup :
    ((nodes steps phase).map fun node => node.step.label).Nodup := by
  have labels : ((nodes steps phase).map fun node => node.step.label) =
      (steps.filter fun step => step.phase = phase).map Step.label := by
    rw [← nodes_map_step, List.map_map]
    rfl
  rw [labels]
  exact List.Nodup.sublist (List.Sublist.map _ List.filter_sublist) distinct

/-- Labels go up along the sorted nodes. -/
theorem sortedNodes_strict :
    (sortedNodes steps phase).Pairwise fun left right =>
      compare left.step.label right.step.label = .lt := by
  have different : (sortedNodes steps phase).Pairwise fun left right =>
      left.step.label ≠ right.step.label :=
    List.pairwise_map.mp (((sortedNodes_perm.map _).nodup_iff).mpr (nodes_labels_nodup distinct))
  refine (sortedNodes_pairwise.and different).imp ?_
  rintro left right ⟨before, differs⟩
  rcases precedes_iff.mp before with less | ⟨same, -⟩
  · exact compare_lt_iff_lt.mpr less
  · exact (differs same).elim

include disjoint

/-- The order of a phase is one that the dependencies permit. -/
theorem order_extends {sequence : List (Step τ)} (ordered : order steps phase = .ok sequence) :
    LinearExtension steps phase sequence := by
  refine ⟨order_perm ordered, ?_⟩
  obtain ⟨none, rfl⟩ := order_eq_ok.mp ordered
  have labels : ((arranged steps phase).1.map fun node => node.step.label).Nodup := by
    have all : (((arranged steps phase).1 ++ (arranged steps phase).2).map
        fun node => node.step.label).Nodup :=
      ((arranged_perm.map _).nodup_iff).mpr (nodes_labels_nodup distinct)
    rw [List.map_append] at all
    exact (List.nodup_append.mp all).1
  rw [List.pairwise_map, List.pairwise_iff_forall_sublist]
  intro earlier later inOrder depends
  -- What `earlier` reads is made before it, hence not by `later`.
  obtain ⟨front, back, split, inFront, inBack⟩ := List.cons_sublist_iff.mp inOrder
  obtain ⟨before, after, rfl⟩ := List.append_of_mem inFront
  obtain ⟨key, input, output⟩ := depends.reads
  have whole : (arranged steps phase).1 = before ++ earlier :: (after ++ back) := by
    simpa using split
  obtain ⟨prior, present, made⟩ :=
    arranged_ready whole input depends.otherMember depends.otherOfPhase output
  have isStep : prior.step ∈ steps := by
    have inOrder : prior ∈ (arranged steps phase).1 := by simp [split, present]
    exact List.mem_of_getElem? (arranged_mem inOrder).1
  have same : prior.step = later.step := by
    by_contra different
    exact disjoint.forall isStep depends.otherMember different key made output
  rw [split, List.map_append, List.nodup_append] at labels
  refine labels.2.2 prior.step.label ?_ later.step.label ?_ (congrArg Step.label same)
  · exact List.mem_map.mpr ⟨prior, by simp [present], rfl⟩
  · exact List.mem_map.mpr ⟨later, List.singleton_sublist.mp inBack, rfl⟩

omit disjoint in
/-- No order that the dependencies permit is less. -/
theorem order_least {sequence other : List (Step τ)} (acyclic : ¬HasCycle steps phase)
    (ordered : order steps phase = .ok sequence)
    (permitted : LinearExtension steps phase other) :
    LexLE (sequence.map Step.label) (other.map Step.label) := by
  obtain ⟨none, rfl⟩ := order_eq_ok.mp ordered
  obtain ⟨others, isPerm, rfl⟩ := exists_nodes_perm permitted.perm
  rw [List.map_map, List.map_map]
  refine arrange_least (sortedNodes_strict distinct) ?_ ?_ (Prod.ext rfl none)
    (isPerm.trans sortedNodes_perm.symm) ?_
  · exact ((sortedNodes_perm.map Node.position).nodup_iff).mpr nodes_nodup
  · intro node member
    rw [Array.size_replicate]
    exact (List.getElem?_eq_some_iff.mp (mem_nodes.mp (sortedNodes_perm.subset member)).1).1
  · intro before node after split position needed
    exact .inr (needs_before acyclic isPerm permitted.respects split needed)

end Distinct

/-! ## Steps in another order -/

section Shuffled

variable (perm : shuffled.Perm steps)

include perm

/-- Dependencies do not depend on the order of the list. -/
theorem dependsIn_perm : DependsIn shuffled phase = DependsIn steps phase := by
  funext step other
  refine propext ⟨?_, ?_⟩
  · exact fun ⟨member, ofPhase, otherMember, otherOfPhase, reads⟩ =>
      ⟨perm.subset member, ofPhase, perm.subset otherMember, otherOfPhase, reads⟩
  · exact fun ⟨member, ofPhase, otherMember, otherOfPhase, reads⟩ =>
      ⟨perm.symm.subset member, ofPhase, perm.symm.subset otherMember, otherOfPhase, reads⟩

/-- Cycles do not depend on the order of the list. -/
theorem hasCycle_perm : HasCycle shuffled phase ↔ HasCycle steps phase := by
  simp only [HasCycle, dependsIn_perm perm]

theorem cycleLabels_perm : cycleLabels shuffled phase = cycleLabels steps phase := by
  unfold cycleLabels
  have same : ReachesCycle shuffled phase = ReachesCycle steps phase := by
    funext step
    simp only [ReachesCycle, dependsIn_perm perm]
  refine mergeSort_labels_eq (List.Perm.map _ ((perm.filter _).trans (.of_eq ?_)))
  exact List.filter_congr fun step _ => by simp [same]

theorem LinearExtension.of_perm {sequence : List (Step τ)}
    (permitted : LinearExtension shuffled phase sequence) :
    LinearExtension steps phase sequence :=
  ⟨permitted.perm.trans (perm.filter _), dependsIn_perm perm ▸ permitted.respects⟩

theorem disjoint_perm (disjoint : steps.Pairwise Disjoint) : shuffled.Pairwise Disjoint :=
  (perm.pairwise_iff Disjoint.symm).mpr disjoint

/-- The order of a phase does not depend on the order in which the steps are listed. -/
theorem order_shuffled (disjoint : steps.Pairwise Disjoint)
    (distinct : (steps.map Step.label).Nodup) :
    order shuffled phase = order steps phase := by
  have alsoDisjoint := disjoint_perm perm disjoint
  have alsoDistinct : (shuffled.map Step.label).Nodup := ((perm.map _).nodup_iff).mpr distinct
  by_cases cycle : HasCycle steps phase
  · rw [order_of_cycle disjoint cycle,
      order_of_cycle alsoDisjoint ((hasCycle_perm perm).mpr cycle), cycleLabels_perm perm]
  · have alsoAcyclic : ¬HasCycle shuffled phase := fun found => cycle ((hasCycle_perm perm).mp found)
    have ordered := order_of_acyclic disjoint cycle
    have alsoOrdered := order_of_acyclic alsoDisjoint alsoAcyclic
    have permitted := order_extends disjoint distinct ordered
    have alsoPermitted := order_extends alsoDisjoint alsoDistinct alsoOrdered
    have labels := (order_least alsoDistinct alsoAcyclic alsoOrdered
      (permitted.of_perm perm.symm)).antisymm
        (order_least distinct cycle ordered (alsoPermitted.of_perm perm))
    rw [ordered, alsoOrdered, eq_of_labels distinct ?_ ?_ labels]
    · exact fun step member =>
        perm.subset (List.mem_of_mem_filter (alsoPermitted.perm.subset member))
    · exact fun step member => List.mem_of_mem_filter (permitted.perm.subset member)

end Shuffled

/-! ## Validation of steps in another order -/

/-- What validation checks, said without the order of the steps. -/
theorem validate_eq_ok {resolution : Resolution} :
    validate steps resolution = .ok () ↔ (∀ step ∈ steps, step.outputs.Nodup) ∧
      steps.Pairwise Disjoint ∧ ∀ step ∈ steps, ∀ key ∈ step.inputs,
        resolution.contains key = true ∨ ∃ producer ∈ steps, key ∈ producer.outputs ∧
          producer.phase.number ≤ step.phase.number := by
  constructor
  · intro validated
    exact ⟨once_of_validate validated, disjoint_of_validate validated,
      fun step member key input => available_of_validate validated member input⟩
  · rintro ⟨once, disjoint, available⟩
    unfold validate
    rw [bind_eq_ok]
    refine ⟨(), checkProducers_eq_ok.mpr ⟨once, disjoint, by simp⟩, ?_⟩
    refine forM_eq_ok.mpr fun step member => forM_eq_ok.mpr fun key input => if_pos ?_
    rw [isAvailable, Bool.or_eq_true]
    refine (available step member key input).imp_right ?_
    rintro ⟨producer, isProducer, output, inTime⟩
    cases found : producer? steps key with
    | none => exact (producer?_eq_none.mp found producer isProducer output).elim
    | some first =>
        have makes := List.find?_some found
        have same : first = producer := by
          by_contra different
          exact disjoint.forall (List.mem_of_find?_eq_some found) isProducer different key
            (by simpa using makes) output
        simpa [same] using inTime

/-- A shuffled list is accepted too. -/
theorem validate_shuffled {resolution : Resolution} (perm : shuffled.Perm steps)
    (validated : validate steps resolution = .ok ()) : validate shuffled resolution = .ok () := by
  rw [validate_eq_ok] at validated ⊢
  obtain ⟨once, disjoint, available⟩ := validated
  refine ⟨fun step member => once step (perm.subset member), disjoint_perm perm disjoint,
    fun step member key input => ?_⟩
  refine (available step (perm.subset member) key input).imp_right ?_
  exact fun ⟨producer, isProducer, made⟩ => ⟨producer, perm.symm.subset isProducer, made⟩

/-! ## Builds of steps in another order -/

/-- What an execution does, apart from the position of its step. -/
def Execution.deed (execution : Execution τ) : Step τ × BuildState τ × Build.Outcome τ :=
  (execution.step, execution.before, execution.outcome)

/-- What a run of nodes does depends on their steps only. -/
theorem perform_deeds {left right : List (Node τ)} (same : left.map Node.step = right.map Node.step)
    (state : BuildState τ) :
    (perform left state).1.map Execution.deed = (perform right state).1.map Execution.deed := by
  induction left generalizing right state with
  | nil =>
      cases right with
      | nil => rfl
      | cons node right => cases same
  | cons node left ih =>
      cases right with
      | nil => cases same
      | cons other right =>
          obtain ⟨sameStep, sameRest⟩ := List.cons.inj same
          have sameDeed : (node.execution state).deed = (other.execution state).deed := by
            simp only [Execution.deed, Node.execution, sameStep]
          rw [perform, perform, sameStep]
          cases (runStep other.step).run state with
          | error diagnostic after => simp only [List.map_cons, sameDeed, List.map_nil]
          | ok value after => simp only [List.map_cons, sameDeed, ih sameRest after]

section

variable
  (perm : shuffled.Perm steps)
  (disjoint : steps.Pairwise Disjoint)
  (distinct : (steps.map Step.label).Nodup)

include perm disjoint distinct

theorem performPhase_shuffled (phase : Phase) (state : BuildState τ) :
    (performPhase shuffled phase state).1.map Execution.deed =
        (performPhase steps phase state).1.map Execution.deed ∧
      (performPhase shuffled phase state).2 = (performPhase steps phase state).2 := by
  have same : order shuffled phase = order steps phase := order_shuffled perm disjoint distinct
  constructor
  · rw [performPhase, performPhase, same]
    cases ordered : order steps phase with
    | error diagnostic => rfl
    | ok sequence =>
        have sameSteps := (order_eq_ok.mp (same.trans ordered)).2.trans
          (order_eq_ok.mp ordered).2.symm
        exact perform_deeds sameSteps state
  · rw [performPhase_outcome, performPhase_outcome, run_runPhase, run_runPhase, same]

/-- Both phases run alike for a shuffled list. -/
theorem performAll_shuffled (validated : validate steps start.resolution = .ok ()) :
    (performAll shuffled start).1.map Execution.deed =
        (performAll steps start).1.map Execution.deed ∧
      (performAll shuffled start).2 = (performAll steps start).2 := by
  simp only [performAll, validated, validate_shuffled perm validated]
  obtain ⟨sameDeclared, sameOutcome⟩ :=
    performPhase_shuffled perm disjoint distinct .declare start
  generalize performPhase shuffled .declare start = left at *
  generalize performPhase steps .declare start = right at *
  obtain ⟨leftDone, outcome⟩ := left
  obtain ⟨rightDone, other⟩ := right
  subst sameOutcome
  cases outcome with
  | error diagnostic after => exact ⟨sameDeclared, rfl⟩
  | ok value middle =>
      obtain ⟨sameCompleted, sameOutcome⟩ :=
        performPhase_shuffled perm disjoint distinct .complete middle
      refine ⟨?_, sameOutcome⟩
      simp only [List.map_append, sameCompleted]
      exact congrArg (· ++ _) sameDeclared

end

/-- Steps with different labels run in the least order that their dependencies permit, and
a build of them in another order does the same to the same states and ends in the same
way. -/
theorem schedule_canonical (steps : List (Step τ)) (start : BuildState τ)
    (validated : validate steps start.resolution = .ok ())
    (distinct : (steps.map Step.label).Nodup) :
    (∀ phase, ¬HasCycle steps phase →
      ∃ sequence, order steps phase = .ok sequence ∧ LinearExtension steps phase sequence ∧
        ∀ other, LinearExtension steps phase other →
          LexLE (sequence.map Step.label) (other.map Step.label)) ∧
    ∀ shuffled, shuffled.Perm steps →
      (schedule shuffled).run start = (schedule steps).run start ∧
        (executions shuffled start).map Execution.deed =
          (executions steps start).map Execution.deed := by
  have disjoint := disjoint_of_validate validated
  refine ⟨fun phase acyclic => ?_, fun shuffled perm => ?_⟩
  · have ordered := order_of_acyclic disjoint acyclic
    exact ⟨_, ordered, order_extends disjoint distinct ordered,
      fun other permitted => order_least distinct acyclic ordered permitted⟩
  · obtain ⟨sameDeeds, sameOutcome⟩ := performAll_shuffled perm disjoint distinct validated
    rw [run_eq_performAll, run_eq_performAll, executions_eq_performAll,
      executions_eq_performAll]
    exact ⟨sameOutcome, sameDeeds⟩

/-- The steps of a class and its base, listed backwards, run in the same order. -/
theorem hierarchySteps_canonical :
    validate hierarchySteps .empty = .ok () ∧ (hierarchySteps.map Step.label).Nodup ∧
      (∃ sequence, order hierarchySteps .declare = .ok sequence ∧
        LinearExtension hierarchySteps .declare sequence ∧
        ∀ other, LinearExtension hierarchySteps .declare other →
          LexLE (sequence.map Step.label) (other.map Step.label)) ∧
      (schedule hierarchySteps.reverse).run ⟨(), .empty⟩ =
        (schedule hierarchySteps).run ⟨(), .empty⟩ := by
  have validated : validate hierarchySteps .empty = .ok () := by decide +kernel
  have distinct : (hierarchySteps.map Step.label).Nodup := by decide +kernel
  have acyclic : ¬HasCycle hierarchySteps .declare := by
    have succeeds : (order hierarchySteps .declare).isOk = true := by decide +kernel
    obtain ⟨sequence, ordered⟩ := exists_ok_of_isOk succeeds
    rw [hasCycle_iff (disjoint_of_validate validated), (order_eq_ok.mp ordered).1]
    exact not_not.mpr rfl
  obtain ⟨least, shuffled⟩ := schedule_canonical hierarchySteps ⟨(), .empty⟩ validated distinct
  exact ⟨validated, distinct, least .declare acyclic, (shuffled _ (List.reverse_perm _)).1⟩

end Schedule

end ClassForge
