import ClassForge.Proofs.Build.Builds

/-!
# The course of a build

A build whose steps are valid goes through the steps of its first phase and then through those of
the second.  When a step has its turn, it was not taken before, only steps of the first phase were
taken before one of the first, and all of them before one of the second.  So what a build can fail
with is what one of its steps can fail with in such a state.
-/

namespace ClassForge

namespace Schedule

variable {τ : Type} {steps done first second : List (Step τ)} {step : Step τ}

/-- The turn of a step in a build that goes through its phases. -/
structure PhaseTurn (steps done : List (Step τ)) (step : Step τ) : Prop
    extends InTurn steps done step where
  declaring : step.phase = .declare → ∀ earlier ∈ done, earlier.phase = .declare
  completing : step.phase = .complete → ∀ other ∈ steps, other.phase = .declare → other ∈ done
  once : steps.Nodup → step ∉ done

/-- In an order of both phases, every step has its turn. -/
theorem Valid.phaseTurn (valid : Valid steps) {before after : List (Step τ)}
    (declares : order steps .declare = .ok first) (completes : order steps .complete = .ok second)
    (split : first ++ second = before ++ step :: after) : PhaseTurn steps before step := by
  have inFirst : ∀ other, other ∈ first ↔ other ∈ steps ∧ other.phase = .declare := by
    intro other
    rw [(order_perm declares).mem_iff]
    simp
  have inSecond : ∀ other ∈ second, other.phase = .complete := fun other isLate =>
    of_decide_eq_true (List.mem_filter.mp ((order_perm completes).subset isLate)).2
  refine ⟨valid.inTurn declares split (.inr completes), fun early earlier isEarlier => ?_,
    fun late other isOther ofFirst => ?_, fun distinct isDone => ?_⟩
  · rcases List.append_eq_append_iff.mp split with ⟨middle, -, rest⟩ | ⟨middle, whole, -⟩
    · -- The step would be one of the second phase.
      have isLate := inSecond step (by simp [rest])
      rw [early] at isLate
      cases isLate
    · exact ((inFirst earlier).mp (by simp [whole, isEarlier])).2
  · have isFirst := (inFirst other).mpr ⟨isOther, ofFirst⟩
    rcases List.append_eq_append_iff.mp split with ⟨middle, rfl, -⟩ | ⟨middle, whole, rest⟩
    · exact List.mem_append_left _ isFirst
    · cases middle with
      | nil => simpa [whole] using isFirst
      | cons head middle =>
          obtain ⟨rfl, -⟩ := List.cons.inj rest
          have early := ((inFirst step).mp (by simp [whole])).2
          rw [late] at early
          cases early
  · have apart := ((perm_of_phases declares completes).nodup_iff).mpr distinct
    rw [split] at apart
    exact (List.nodup_append.mp apart).2.2 step isDone step List.mem_cons_self rfl

/-- Valid steps that have an order fail only with what one of them can fail with in its turn. -/
theorem exists_of_schedule_error {start after : BuildState τ} {diagnostic : Diagnostic}
    (empty : start.resolution = .empty) (valid : validate steps .empty = .ok ())
    (declares : order steps .declare = .ok first) (completes : order steps .complete = .ok second)
    (failed : (schedule steps).run start = .error diagnostic after) :
    ∃ done step state, Runs steps start done state ∧ PhaseTurn steps done step ∧
      (runStep step).run state = .error diagnostic after := by
  have turns : ∀ before step after, first ++ second = before ++ step :: after →
      PhaseTurn steps before step :=
    fun _ _ _ => (valid_of_validate valid).phaseTurn declares completes
  have inFirst : ∀ before step after, first = before ++ step :: after →
      PhaseTurn steps before step := by
    intro before step after split
    exact turns before step (after ++ second) (by rw [split, List.append_assoc]; rfl)
  have declared := runs_forM (Runs.start : Runs steps start [] start) fun before step after split =>
    (inFirst before step after split).toInTurn
  rw [run_schedule, empty, valid] at failed
  dsimp only at failed
  rw [run_runPhase, declares] at failed
  dsimp only at failed
  cases ran : (first.forM runStep).run start with
  | error fault later =>
      rw [ran] at declared failed
      cases failed
      obtain ⟨before, step, waiting, middle, split, runs, fails⟩ := declared
      exact ⟨before, step, middle, runs, inFirst before step waiting split, fails⟩
  | ok value middle =>
      rw [ran] at declared failed
      rw [List.nil_append] at declared
      dsimp only at failed
      rw [run_runPhase, completes] at failed
      have inSecond : ∀ before step after, second = before ++ step :: after →
          PhaseTurn steps (first ++ before) step := by
        intro before step after split
        exact turns (first ++ before) step after (by rw [split, List.append_assoc])
      have completed := runs_forM declared fun before step after split =>
        (inSecond before step after split).toInTurn
      dsimp only at failed
      rw [failed] at completed
      obtain ⟨before, step, waiting, middle, split, runs, fails⟩ := completed
      exact ⟨first ++ before, step, middle, runs, inSecond before step waiting split, fails⟩

end Schedule

end ClassForge
