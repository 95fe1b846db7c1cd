import ClassForge.Proofs.Schedule.Arrangement

/-!
# How a build runs

Validated steps run in turn: a step runs once everything that it reads has been
produced by steps before it, and nothing that it produces has been produced
already.  A build that ends early does so before any step has run, for want of an
order in the second phase, or in the middle of a step.
-/

namespace ClassForge

namespace Schedule

variable {τ : Type} {steps : List (Step τ)} {phase : Phase}
variable {key : Key} {before sequence : List (Step τ)} {diagnostic : Diagnostic} {step : Step τ}
    {node : Node τ} {remaining : List (Node τ)} {state : BuildState τ}
variable {producer : Step τ} {count : Nat} {done : Array Bool} {after : List (Node τ)}
    {start : BuildState τ} {first second : List (Step τ)}

/-! ## Validation -/

theorem producer?_eq_none : producer? steps key = none ↔ ∀ step ∈ steps, key ∉ step.outputs := by
  simp [producer?]

/-- What validation finds out about producers: no two steps make the same item. -/
def Disjoint (first second : Step τ) : Prop :=
  ∀ key ∈ first.outputs, key ∉ second.outputs

theorem Disjoint.symm {first second : Step τ} (disjoint : Disjoint first second) :
    Disjoint second first :=
  fun key inSecond inFirst => disjoint key inFirst inSecond

instance : Std.Symm (Disjoint : Step τ → Step τ → Prop) :=
  ⟨fun _ _ => Disjoint.symm⟩

/-- The outputs of a step pass when none of them has been entered and none stands twice. -/
theorem checkOutputs_eq_ok {entered keys : List Key} :
    checkOutputs before step entered keys = .ok () ↔
      (∀ key ∈ keys, producer? before key = none ∧ key ∉ entered) ∧ keys.Nodup := by
  induction keys generalizing entered with
  | nil => simp [checkOutputs]
  | cons key keys ih =>
      rw [checkOutputs, List.forall_mem_cons, List.nodup_cons]
      cases found : producer? before key with
      | some first => simp
      | none =>
          by_cases again : key ∈ entered
          · simp [again]
          · rw [if_neg (by simpa using again), ih]
            constructor
            · rintro ⟨fresh, once⟩
              refine ⟨⟨⟨rfl, again⟩, fun other member => ?_⟩, fun member => ?_, once⟩
              · exact ⟨(fresh other member).1, fun entered => (fresh other member).2 (List.mem_cons_of_mem _ entered)⟩
              · exact (fresh key member).2 List.mem_cons_self
            · rintro ⟨⟨-, fresh⟩, apart, once⟩
              refine ⟨fun other member => ⟨(fresh other member).1, ?_⟩, once⟩
              rw [List.mem_cons, not_or]
              exact ⟨fun same => apart (same ▸ member), (fresh other member).2⟩

/-- Producers pass when no key is added twice, by one step or by two. -/
theorem checkProducers_eq_ok :
    checkProducers before steps = .ok () ↔
      (∀ step ∈ steps, step.outputs.Nodup) ∧ steps.Pairwise Disjoint ∧
        ∀ first ∈ before, ∀ second ∈ steps, Disjoint first second := by
  induction steps generalizing before with
  | nil => simp [checkProducers]
  | cons step steps ih =>
      have own : checkOutputs before step [] step.outputs = .ok () ↔
          step.outputs.Nodup ∧ ∀ first ∈ before, Disjoint first step := by
        simp only [checkOutputs_eq_ok, producer?_eq_none, List.not_mem_nil, not_false_eq_true,
          and_true, and_comm (b := step.outputs.Nodup)]
        exact and_congr_right fun _ =>
          ⟨fun fresh first member key made added => fresh key added first member made,
            fun apart key added first member made => apart first member key made added⟩
      rw [checkProducers, bind_eq_ok, List.forall_mem_cons, List.pairwise_cons]
      constructor
      · rintro ⟨⟨⟩, passes, others⟩
        obtain ⟨once, fresh⟩ := own.mp passes
        obtain ⟨onceLater, later, apart⟩ := ih.mp others
        refine ⟨⟨once, onceLater⟩, ⟨apart step (by simp), later⟩, fun first member => ?_⟩
        exact List.forall_mem_cons.mpr ⟨fresh first member, apart first (by simp [member])⟩
      · rintro ⟨⟨once, onceLater⟩, ⟨ahead, later⟩, apart⟩
        refine ⟨(), own.mpr ⟨once, fun first member => apart first member step (by simp)⟩,
          ih.mpr ⟨onceLater, later, ?_⟩⟩
        simp only [List.forall_mem_append, List.mem_singleton, forall_eq]
        exact ⟨fun first member second isLater => apart first member second (by simp [isLater]),
          ahead⟩

/-- Every input of a validated step is made by some step of the same or an earlier
phase. -/
def Produced (steps : List (Step τ)) (step : Step τ) : Prop :=
  ∀ key ∈ step.inputs, ∃ producer ∈ steps, key ∈ producer.outputs ∧
    producer.phase.number ≤ step.phase.number

theorem checkInputs_eq_ok (checked : checkInputs steps .empty = .ok ()) :
    ∀ step ∈ steps, Produced steps step := by
  intro step member key input
  have available := forM_eq_ok.mp (forM_eq_ok.mp checked step member) key input
  split at available
  · rename_i holds
    simp only [isAvailable, KeyTable.contains, KeyTable.get?_empty, Option.isSome_none,
      Bool.false_or, Option.any_eq_true, decide_eq_true_eq] at holds
    obtain ⟨producer, found, inTime⟩ := holds
    refine ⟨producer, List.mem_of_find?_eq_some found, ?_, inTime⟩
    simpa using List.find?_some found
  · cases available

/-- What validation establishes of steps that start from nothing. -/
structure Valid (steps : List (Step τ)) : Prop where
  once : ∀ step ∈ steps, step.outputs.Nodup
  disjoint : steps.Pairwise Disjoint
  produced : ∀ step ∈ steps, Produced steps step

/-- Accepted lists are valid. -/
theorem valid_of_validate (validated : validate steps .empty = .ok ()) : Valid steps := by
  unfold validate at validated
  obtain ⟨⟨⟩, producers, inputs⟩ := bind_eq_ok.mp validated
  obtain ⟨once, disjoint, -⟩ := checkProducers_eq_ok.mp producers
  exact ⟨once, disjoint, checkInputs_eq_ok inputs⟩

theorem checkOutputs_error {entered keys : List Key}
    (refused : checkOutputs before step entered keys = .error diagnostic) :
    ∃ key first, diagnostic = .duplicateOutput key first step.label := by
  induction keys generalizing entered with
  | nil => cases refused
  | cons key keys ih =>
      rw [checkOutputs] at refused
      split at refused
      · cases refused
        exact ⟨_, _, rfl⟩
      · split at refused
        · cases refused
          exact ⟨_, _, rfl⟩
        · exact ih refused

/-- A key with two entries is the only fault of outputs. -/
theorem checkProducers_error (refused : checkProducers before steps = .error diagnostic) :
    ∃ key first second, diagnostic = .duplicateOutput key first second := by
  induction steps generalizing before with
  | nil => cases refused
  | cons step steps ih =>
      rw [checkProducers, bind_eq_error] at refused
      rcases refused with own | ⟨⟨⟩, -, others⟩
      · obtain ⟨key, first, isDuplicate⟩ := checkOutputs_error own
        exact ⟨key, first, _, isDuplicate⟩
      · exact ih others

/-- What steps that start from nothing are refused for: an item with two producers, or
an input that cannot be made in time. -/
theorem validate_error (refused : validate steps .empty = .error diagnostic) :
    (∃ key first second, diagnostic = .duplicateOutput key first second) ∨
      ∃ step ∈ steps, ∃ key ∈ step.inputs, diagnostic = .unproducible key step.label ∧
        isAvailable steps .empty step.phase key = false := by
  unfold validate at refused
  rcases bind_eq_error.mp refused with producers | ⟨⟨⟩, -, inputs⟩
  · exact .inl (checkProducers_error producers)
  · obtain ⟨step, isStep, ofStep⟩ := exists_of_forM_eq_error inputs
    obtain ⟨key, isInput, found⟩ := exists_of_forM_eq_error ofStep
    split at found
    · cases found
    · rename_i unavailable
      cases found
      exact .inr ⟨step, isStep, key, isInput, rfl, by simpa using unavailable⟩

/-- Of two validated steps that make the same item, one is the other. -/
theorem Valid.eq_of_mem_outputs (valid : Valid steps) {first second : Step τ}
    (inFirst : key ∈ first.outputs) (inSecond : key ∈ second.outputs) (isFirst : first ∈ steps)
    (isSecond : second ∈ steps) : first = second := by
  by_contra different
  exact valid.disjoint.forall isFirst isSecond different key inFirst inSecond

/-! ## Order -/

/-- A phase has an order when no step is stuck. -/
theorem order_eq_ok :
    order steps phase = .ok sequence ↔
      (arranged steps phase).2 = [] ∧ (arranged steps phase).1.map Node.step = sequence := by
  rw [order_eq_arranged]
  obtain ⟨order, stuck⟩ := arranged steps phase
  cases stuck with
  | nil => simp
  | cons node stuck => simp

/-- The only fault of ordering is a cycle. -/
theorem order_error (refused : order steps phase = .error diagnostic) :
    ∃ labels, diagnostic = .cycle phase.number labels := by
  rw [order_eq_arranged] at refused
  split at refused <;> cases refused
  exact ⟨_, rfl⟩

/-- The steps of a phase run once each. -/
theorem order_perm (ordered : order steps phase = .ok sequence) :
    sequence.Perm (steps.filter fun step => step.phase = phase) := by
  obtain ⟨none, rfl⟩ := order_eq_ok.mp ordered
  have all : ((arranged steps phase).1 ++ (arranged steps phase).2).Perm (nodes steps phase) :=
    arranged_perm
  rw [none, List.append_nil] at all
  exact nodes_map_step ▸ all.map Node.step

/-- A node comes after a node of its phase that makes what it reads. -/
theorem arranged_ready {before : List (Node τ)}
    (split : (arranged steps phase).1 = before ++ node :: after) (input : key ∈ node.step.inputs)
    (member : producer ∈ steps) (ofPhase : producer.phase = phase)
    (output : key ∈ producer.outputs) : ∃ prior ∈ before, key ∈ prior.step.outputs := by
  have inNodes : ∀ other ∈ before ++ node :: after, other ∈ nodes steps phase := by
    intro other present
    rw [← split] at present
    exact arranged_perm.subset (List.mem_append_left _ present)
  obtain ⟨position, found⟩ := exists_position? member ofPhase output
  have needed : position ∈ node.needs := by
    rw [(mem_nodes.mp (inNodes node (by simp))).2.2]
    exact List.mem_filterMap.mpr ⟨key, input, found⟩
  rcases arrange_ready split position needed with started | ⟨prior, present, rfl⟩
  · simp [Array.getD_eq_getD_getElem?, Array.getElem?_replicate] at started
    split at started <;> simp at started
  · obtain ⟨made, atPosition, -, output⟩ := position?_eq_some found
    have same := (mem_nodes.mp (inNodes prior (by simp [present]))).1
    rw [atPosition] at same
    cases same
    exact ⟨prior, present, output⟩

/-- A step comes after the steps of its phase that make what it reads. -/
theorem order_ready {after : List (Step τ)} (ordered : order steps phase = .ok sequence)
    (split : sequence = before ++ step :: after) (input : key ∈ step.inputs)
    (member : producer ∈ steps) (ofPhase : producer.phase = phase)
    (output : key ∈ producer.outputs) : ∃ earlier ∈ before, key ∈ earlier.outputs := by
  obtain ⟨none, rfl⟩ := order_eq_ok.mp ordered
  obtain ⟨first, rest, whole, rfl, tail⟩ := List.map_eq_append_iff.mp split
  obtain ⟨node, last, rfl, rfl, -⟩ := List.map_eq_cons_iff.mp tail
  obtain ⟨prior, present, made⟩ := arranged_ready whole input member ofPhase output
  exact ⟨prior.step, List.mem_map_of_mem present, made⟩

/-- A node that is never arranged reads what another such node makes. -/
theorem arranged_stuck (stuck : node ∈ (arranged steps phase).2) :
    ∃ awaited ∈ (arranged steps phase).2, ∃ key ∈ node.step.inputs,
      key ∈ awaited.step.outputs := by
  obtain ⟨-, -, needs⟩ :=
    mem_nodes.mp (arranged_perm.subset (List.mem_append_right _ stuck))
  have inBounds : ∀ node ∈ sortedNodes steps phase,
      node.position < (Array.replicate steps.length false).size := by
    intro other member
    have inNodes := sortedNodes_perm.subset member
    rw [Array.size_replicate]
    exact (List.getElem?_eq_some_iff.mp (mem_nodes.mp inNodes).1).1
  obtain ⟨position, needed, apart⟩ := arrange_stuck inBounds (Nat.le_refl _) stuck
  rw [needs] at needed
  obtain ⟨key, input, found⟩ := List.mem_filterMap.mp needed
  obtain ⟨producer, atProducer, ofPhase, output⟩ := position?_eq_some found
  have awaited : (⟨producer, position,
      producer.inputs.filterMap (position? (members steps phase))⟩ : Node τ) ∈
        nodes steps phase :=
    mem_nodes.mpr ⟨atProducer, ofPhase, rfl⟩
  rcases List.mem_append.mp (arranged_perm.mem_iff.mpr awaited) with early | late
  · exact (apart _ early rfl).elim
  · exact ⟨_, late, key, input, output⟩

/-- Steps that can be ranked by what they read can be ordered. -/
theorem order_of_ranked (rank : Step τ → Nat)
    (descends : ∀ step ∈ steps, step.phase = phase → ∀ key ∈ step.inputs,
      ∀ producer ∈ steps, producer.phase = phase → key ∈ producer.outputs →
        rank producer < rank step) :
    ∃ sequence, order steps phase = .ok sequence := by
  refine ⟨_, order_eq_ok.mpr ⟨?_, rfl⟩⟩
  have isMember : ∀ node ∈ (arranged steps phase).2,
      node.step ∈ steps ∧ node.step.phase = phase := by
    intro node stuck
    obtain ⟨atPosition, ofPhase, -⟩ :=
      mem_nodes.mp (arranged_perm.subset (List.mem_append_right _ stuck))
    exact ⟨List.mem_of_getElem? atPosition, ofPhase⟩
  -- A stuck step waits for another one of lower rank, so none is the first.
  have unstuck : ∀ bound, ∀ node ∈ (arranged steps phase).2, rank node.step = bound → False := by
    intro bound
    induction bound using Nat.strongRecOn with
    | _ bound ih =>
        intro node stuck isRank
        obtain ⟨awaited, late, key, input, output⟩ := arranged_stuck stuck
        have lower : rank awaited.step < rank node.step :=
          descends _ (isMember node stuck).1 (isMember node stuck).2 key input _
            (isMember awaited late).1 (isMember awaited late).2 output
        exact ih _ (isRank ▸ lower) _ late rfl
  cases found : (arranged steps phase).2 with
  | nil => rfl
  | cons node stuck => exact (unstuck _ node (by simp [found]) rfl).elim

/-! ## Running -/

/-- It is the turn of a step once what it reads has been made. -/
structure InTurn (steps done : List (Step τ)) (step : Step τ) : Prop where
  member : step ∈ steps
  past : ∀ earlier ∈ done, earlier ∈ steps
  ready : ∀ key ∈ step.inputs, ∃ earlier ∈ done, key ∈ earlier.outputs
  fresh : ∀ key ∈ step.outputs, ∀ earlier ∈ done, key ∉ earlier.outputs

/-- The states that a build passes through, with the steps that it has done. -/
inductive Runs (steps : List (Step τ)) (start : BuildState τ) :
    List (Step τ) → BuildState τ → Prop where
  | start : Runs steps start [] start
  | step {done : List (Step τ)} {state after : BuildState τ} {step : Step τ} :
      Runs steps start done state →
      InTurn steps done step →
      (runStep step).run state = .ok () after →
      Runs steps start (done ++ [step]) after

/-- How a build that starts from nothing can end. -/
inductive Ends (steps : List (Step τ)) (start : BuildState τ) :
    EStateM.Result Diagnostic (BuildState τ) Unit → Prop where
  /-- The steps are refused before any of them runs. -/
  | invalid {diagnostic : Diagnostic} :
      validate steps .empty = .error diagnostic →
      Ends steps start (.error diagnostic start)
  /-- There is no order to run the first phase in. -/
  | stuck {diagnostic : Diagnostic} :
      Valid steps →
      order steps .declare = .error diagnostic →
      Ends steps start (.error diagnostic start)
  /-- There is no order to run the second phase in. -/
  | stuckLate {diagnostic : Diagnostic} {sequence : List (Step τ)} {state : BuildState τ} :
      Valid steps →
      order steps .declare = .ok sequence →
      order steps .complete = .error diagnostic →
      Ends steps start (.error diagnostic state)
  /-- A step fails. -/
  | failed {diagnostic : Diagnostic} {done : List (Step τ)} {state after : BuildState τ}
      {step : Step τ} :
      Valid steps →
      Runs steps start done state →
      InTurn steps done step →
      (runStep step).run state = .error diagnostic after →
      Ends steps start (.error diagnostic after)
  /-- Every step has run. -/
  | finished {done : List (Step τ)} {state : BuildState τ} :
      Valid steps →
      Runs steps start done state →
      done.Perm steps →
      Ends steps start (.ok () state)

theorem run_runPhase :
    (runPhase steps phase).run state =
      match order steps phase with
      | .ok sequence => (sequence.forM runStep).run state
      | .error diagnostic => .error diagnostic state := by
  unfold runPhase
  cases order steps phase <;> rfl

theorem run_schedule :
    (schedule steps).run state =
      match validate steps state.resolution with
      | .ok () =>
          (match (runPhase steps .declare).run state with
          | .ok () middle => (runPhase steps .complete).run middle
          | .error diagnostic after => .error diagnostic after)
      | .error diagnostic => .error diagnostic state := by
  simp only [schedule, EStateM.run_bind, EStateM.run_get]
  cases validate steps state.resolution with
  | error diagnostic => rfl
  | ok =>
      show (runPhase steps .declare >>= fun _ => runPhase steps .complete >>= fun _ =>
        pure ()).run state = _
      rw [EStateM.run_bind]
      cases (runPhase steps .declare).run state with
      | error => rfl
      | ok value middle =>
          simp only [EStateM.run_bind]
          cases (runPhase steps .complete).run middle <;> rfl

/-- A step ends as its action does, unless the action leaves out an output. -/
theorem run_runStep :
    (runStep step).run state =
      match step.action.run state with
      | .ok () after =>
          match step.outputs.find? fun key => !after.resolution.contains key with
          | some key => .error (.missingOutput step.label key) after
          | none => .ok () after
      | .error diagnostic after => .error diagnostic after := by
  unfold runStep
  rw [EStateM.run_bind]
  cases step.action.run state with
  | error diagnostic after => rfl
  | ok value after =>
      simp only [EStateM.run_bind, EStateM.run_get]
      cases step.outputs.find? fun key => !after.resolution.contains key <;> rfl

/-- Running some steps in turn gets through them, or stops at one that fails. -/
theorem runs_forM {done rest : List (Step τ)} (runs : Runs steps start done state)
    (inTurn : ∀ before step after, rest = before ++ step :: after →
      InTurn steps (done ++ before) step) : match (rest.forM runStep).run state with
    | .ok () after => Runs steps start (done ++ rest) after
    | .error diagnostic after => ∃ before step waiting middle, rest = before ++ step :: waiting ∧
        Runs steps start (done ++ before) middle ∧
        (runStep step).run middle = .error diagnostic after := by
  induction rest generalizing done state with
  | nil => simpa using runs
  | cons step rest ih =>
      have turn : InTurn steps done step := by simpa using inTurn [] step rest rfl
      have unfolded : ((step :: rest).forM runStep).run state =
          (runStep step >>= fun _ => rest.forM runStep).run state := rfl
      rw [unfolded, EStateM.run_bind]
      cases first : (runStep step).run state with
      | error diagnostic after => exact ⟨[], step, rest, state, rfl, by simpa using runs, first⟩
      | ok value middle =>
          have later := ih (runs.step turn first) (by
            intro before next after split
            rw [List.append_assoc]
            exact inTurn (step :: before) next after (by rw [split]; rfl))
          dsimp only
          cases ran : (rest.forM runStep).run middle with
          | ok _ after =>
              rw [ran] at later
              simpa [List.append_assoc] using later
          | error diagnostic after =>
              rw [ran] at later
              obtain ⟨before, next, waiting, last, split, soFar, fails⟩ := later
              refine ⟨step :: before, next, waiting, last, by rw [split]; rfl, ?_, fails⟩
              simpa [List.append_assoc] using soFar

/-- Validated steps in an order of the first and then the second phase have their
turn one after the other. -/
theorem Valid.inTurn (valid : Valid steps) {after : List (Step τ)}
    (declares : order steps .declare = .ok first)
    (split : (first ++ second) = before ++ step :: after)
    (completes : second = [] ∨ order steps .complete = .ok second) : InTurn steps before step := by
  have firstPerm := order_perm declares
  have inFirst : ∀ other, other ∈ first ↔ other ∈ steps ∧ other.phase = .declare := by
    intro other
    rw [firstPerm.mem_iff]
    simp
  have inSecond : ∀ other ∈ second, other ∈ steps ∧ other.phase = .complete := by
    intro other present
    rcases completes with rfl | ordered
    · cases present
    · simpa using (order_perm ordered).subset present
  have inSteps : ∀ other ∈ first ++ second, other ∈ steps := by
    intro other present
    rcases List.mem_append.mp present with early | late
    · exact ((inFirst other).mp early).1
    · exact (inSecond other late).1
  have disjoint : (first ++ second).Pairwise Disjoint := by
    have kept : ∀ phase, (steps.filter fun step => step.phase = phase).Pairwise Disjoint :=
      fun phase => valid.disjoint.sublist List.filter_sublist
    rw [List.pairwise_append]
    refine ⟨(firstPerm.pairwise_iff Disjoint.symm).mpr (kept _), ?_, ?_⟩
    · rcases completes with rfl | ordered
      · exact .nil
      · exact ((order_perm ordered).pairwise_iff Disjoint.symm).mpr (kept _)
    · intro early isEarly late isLate key inEarly inLate
      obtain ⟨isStep, ofPhase⟩ := (inFirst early).mp isEarly
      obtain ⟨isOther, otherPhase⟩ := inSecond late isLate
      have same := valid.eq_of_mem_outputs inEarly inLate isStep isOther
      rw [same, otherPhase] at ofPhase
      cases ofPhase
  rw [split] at disjoint inSteps
  refine ⟨inSteps step (by simp), fun earlier present => inSteps earlier (by simp [present]),
    ?_, ?_⟩
  · intro key input
    obtain ⟨producer, isStep, output, inTime⟩ := valid.produced step (inSteps step (by simp)) key
      input
    have ofSecond : ∀ middle, before = first ++ middle → second = middle ++ step :: after →
        ∃ earlier ∈ before, key ∈ earlier.outputs := by
      rintro middle rfl late
      rcases completes with rfl | ordered
      · simp at late
      · cases ofPhase : producer.phase with
        | declare => exact ⟨producer, by simp [(inFirst producer).mpr ⟨isStep, ofPhase⟩], output⟩
        | complete =>
            obtain ⟨earlier, present, made⟩ := order_ready ordered late input isStep ofPhase output
            exact ⟨earlier, by simp [present], made⟩
    rcases List.append_eq_append_iff.mp split with ⟨middle, early, late⟩ | ⟨middle, early, late⟩
    · exact ofSecond middle early late
    · cases middle with
      | nil => exact ofSecond [] (by simpa using early.symm) (by simpa using late.symm)
      | cons head middle =>
          obtain ⟨rfl, -⟩ := List.cons.inj late
          have isEarly : step ∈ first := by
            rw [early]
            simp
          have ofPhase : producer.phase = .declare := by
            rw [((inFirst step).mp isEarly).2] at inTime
            cases isPhase : producer.phase with
            | declare => rfl
            | complete => simp [isPhase, Phase.number] at inTime
          exact order_ready declares early input isStep ofPhase output
  · intro key made earlier present inEarlier
    have apart := (List.pairwise_append.mp disjoint).2.2 earlier present step (by simp)
    exact apart key inEarlier made

/-- The two phases together run every step. -/
theorem perm_of_phases (declares : order steps .declare = .ok first)
    (completes : order steps .complete = .ok second) : (first ++ second).Perm steps := by
  refine ((order_perm declares).append (order_perm completes)).trans ?_
  have others : (steps.filter fun step => step.phase = .complete) =
      steps.filter fun step => !decide (step.phase = .declare) := by
    refine List.filter_congr fun step _ => ?_
    cases step.phase <;> rfl
  rw [others]
  exact List.filter_append_perm _ _

/-- A build that starts from nothing ends in one of the listed ways. -/
theorem schedule_ends (empty : start.resolution = .empty) :
    Ends steps start ((schedule steps).run start) := by
  rw [run_schedule, empty]
  cases validated : validate steps .empty with
  | error diagnostic => exact .invalid validated
  | ok =>
      have valid := valid_of_validate validated
      rw [run_runPhase]
      cases declares : order steps .declare with
      | error diagnostic => exact .stuck valid declares
      | ok first =>
          have turns : ∀ before step after, first = before ++ step :: after →
              InTurn steps ([] ++ before) step := by
            intro before step after split
            exact valid.inTurn declares (by rw [List.append_nil]; exact split) (.inl rfl)
          have declared := runs_forM (Runs.start : Runs steps start [] start) turns
          dsimp only
          cases ran : (first.forM runStep).run start with
          | error diagnostic after =>
              rw [ran] at declared
              obtain ⟨before, step, waiting, middle, split, runs, fails⟩ := declared
              exact .failed valid runs (turns before step waiting split) fails
          | ok value middle =>
              rw [ran, List.nil_append] at declared
              dsimp only
              rw [run_runPhase]
              cases completes : order steps .complete with
              | error diagnostic => exact .stuckLate valid declares completes
              | ok second =>
                  have turns : ∀ before step after, second = before ++ step :: after →
                      InTurn steps (first ++ before) step := by
                    intro before step after split
                    have whole : first ++ second = (first ++ before) ++ step :: after := by
                      rw [split, List.append_assoc]
                    exact valid.inTurn declares whole (.inr completes)
                  have completed := runs_forM declared turns
                  dsimp only
                  cases ran : (second.forM runStep).run middle with
                  | error diagnostic after =>
                      rw [ran] at completed
                      obtain ⟨before, step, waiting, middle, split, runs, fails⟩ := completed
                      exact .failed valid runs (turns before step waiting split) fails
                  | ok value final =>
                      rw [ran] at completed
                      exact .finished valid completed (perm_of_phases declares completes)

end Schedule

/-! ## Primitive actions -/

namespace Build

variable {τ α : Type} {state : BuildState τ}

theorem run_resolve {read : Resolution → Except Diagnostic α} :
    (Build.resolve read).run state =
      match read state.resolution with
      | .ok value => .ok value state
      | .error diagnostic => .error diagnostic state := by
  simp only [Build.resolve, EStateM.run_bind, EStateM.run_get]
  cases read state.resolution <;> rfl

theorem run_request {action : τ → Except ImageError (α × τ)} :
    (Build.request action).run state =
      match action state.target with
      | .ok (value, target) => .ok value { state with target }
      | .error error => .error (.target error) state := by
  simp only [Build.request, EStateM.run_bind, EStateM.run_get]
  cases action state.target <;> rfl

theorem run_record {key : Key} {resolved : Resolved} :
    (Build.record key resolved).run state =
      match state.resolution.insert key resolved with
      | .ok resolution => .ok () { state with resolution }
      | .error diagnostic => .error diagnostic state := by
  simp only [Build.record, EStateM.run_bind, EStateM.run_get]
  cases state.resolution.insert key resolved <;> rfl

end Build

end ClassForge
