import ClassForge.Proofs.Build.Tasks

/-!
# Builds of accepted programs

At every moment of a build the resolution holds exactly the outputs of the steps that
have run, each with a handle of its kind.  These keys form a closed set, so a step
whose turn it is finds everything that it looks up, and everything that it adds is
new.  A build therefore stops before its first request, or because the target refuses
something, or for an argument that no instruction can name.
-/

namespace ClassForge

variable {program : Program} {tailCalls : Bool} {diagnostic : Diagnostic}
variable {step : Step Image} {task : Task}

/-- Some code of a program has more arguments than an instruction can name. -/
def Program.Crowded (program : Program) : Prop :=
  ∃ task ∈ program.tasks, maxArgs < task.argumentCount

/-- The state that a build starts from. -/
def BuildState.initial (image : Image) : BuildState Image where
  target := image
  resolution := .empty

open Schedule

theorem Program.mem_steps :
    step ∈ program.steps tailCalls ↔ ∃ task ∈ program.tasks, task.step tailCalls = step :=
  List.mem_map

/-- A step of a program lists the keys that it adds once each. -/
theorem Program.nodup_outputs : ∀ step ∈ program.steps tailCalls, step.outputs.Nodup := by
  intro step isStep
  obtain ⟨task, -, rfl⟩ := Program.mem_steps.mp isStep
  exact nodup_eraseDups _

@[simp]
theorem Task.mem_step_inputs {key : Key} :
    key ∈ (task.step tailCalls).inputs ↔ key ∈ task.inputs :=
  List.mem_eraseDups

@[simp]
theorem Task.mem_step_outputs {key : Key} :
    key ∈ (task.step tailCalls).outputs ↔ key ∈ task.outputs :=
  List.mem_eraseDups

/-- A step ensures what its action does when that adds every output. -/
theorem Build.Ensures.runStep {permits : Diagnostic → Prop} {state : BuildState Image}
    {post : Unit → BuildState Image → Prop}
    (acts : Build.Ensures permits state step.action fun value after =>
      step.outputs.find? (fun key => !after.resolution.contains key) = none ∧ post value after) :
    Build.Ensures permits state (Schedule.runStep step) post := by
  unfold Build.Ensures at acts ⊢
  rw [Schedule.run_runStep]
  cases ran : step.action.run state with
  | error diagnostic after =>
      rw [ran] at acts
      exact acts
  | ok value after =>
      rw [ran] at acts
      obtain ⟨complete, promised⟩ := acts
      simp only [complete]
      exact promised

section

variable {module : Module} {image : Image} {context : TypeContext} {program : Program}
variable {tailCalls : Bool} {done : List (Step Image)} {state : BuildState Image}
variable {target : Image} {options : CompileOptions} {diagnostic : Diagnostic}
variable {sequence : List (Step Image)}

/-- What holds of the state of a build after some steps. -/
structure Schedule.Consistent (done : List (Step Image)) (state : BuildState Image) : Prop where
  present : ∀ key, (state.resolution.get? key).isSome = true ↔
    ∃ step ∈ done, key ∈ step.outputs
  fitting : state.resolution.Fitting
  ready : ∀ step ∈ done, ∀ key ∈ step.inputs, ∃ earlier ∈ done, key ∈ earlier.outputs

/-- The keys of what has been made are closed. -/
theorem Schedule.Consistent.closed (consistent : Consistent done state)
    (valid : Valid (program.steps tailCalls))
    (past : ∀ step ∈ done, step ∈ program.steps tailCalls) :
    program.Closed fun key => (state.resolution.get? key).isSome = true := by
  intro task isTask key isOutput present input isInput
  obtain ⟨step, isDone, made⟩ := (consistent.present key).mp present
  have same : step = task.step tailCalls :=
    valid.eq_of_mem_outputs made (Task.mem_step_outputs.mpr isOutput) (past step isDone)
      (Program.mem_steps.mpr ⟨task, isTask, rfl⟩)
  subst same
  exact (consistent.present input).mpr
    (consistent.ready _ isDone input (Task.mem_step_inputs.mpr isInput))

theorem Schedule.Consistent.supplies (consistent : Consistent done state) (key : Key)
    (present : (state.resolution.get? key).isSome = true) :
    state.resolution.Supplies (fun _ => False) key := by
  refine consistent.fitting.supplies fun absent => ?_
  rw [absent] at present
  cases present

/-- A step whose turn it is leaves a consistent state, or fails in an excused way. -/
theorem Module.Accepted.runStep_ensures (accepted : module.Accepted image context program)
    (built : image.Built) (valid : Valid (program.steps tailCalls))
    (consistent : Consistent done state) (turn : InTurn (program.steps tailCalls) done step) :
    Build.Ensures (Diagnostic.Excused (fun _ => False) program.Crowded) state (runStep step)
      fun _ after => Consistent (done ++ [step]) after := by
  obtain ⟨task, isTask, rfl⟩ := Program.mem_steps.mp turn.member
  have fresh : ∀ key ∈ task.outputs, (state.resolution.get? key).isSome ≠ true := by
    intro key isOutput present
    obtain ⟨earlier, isDone, made⟩ := (consistent.present key).mp present
    exact turn.fresh key (Task.mem_step_outputs.mpr isOutput) earlier isDone made
  have inputs : ∀ input ∈ task.inputs, (state.resolution.get? input).isSome = true :=
    fun input isInput => (consistent.present input).mpr
      (turn.ready input (Task.mem_step_inputs.mpr isInput))
  have acts := accepted.action_ensures built (consistent.closed valid turn.past) consistent.supplies
    isTask inputs (fun many => (⟨task, isTask, many⟩ : program.Crowded)) tailCalls
  have acts : Build.Ensures (Diagnostic.Excused (fun _ => False) program.Crowded) state
      (task.step tailCalls).action
      fun _ after => state.resolution.Adds after.resolution task.outputs := by
    refine acts.permit fun diagnostic permitted => ?_
    rcases permitted with excused | ⟨key, isOutput, present, -⟩
    · exact excused
    · exact (fresh key isOutput present).elim
  refine (acts.imp fun _ after adds => ?_).runStep
  have made : ∀ key ∈ task.outputs, ∃ resolved, after.resolution.get? key = some resolved ∧
      resolved.Fits key := by
    intro key isOutput
    simpa [isOutput] using adds key
  have kept : ∀ key, key ∉ task.outputs → after.resolution.get? key = state.resolution.get? key := by
    intro key notOutput
    simpa [notOutput] using adds key
  have complete : (task.step tailCalls).outputs.find? (fun key => !after.resolution.contains key) =
      none := by
    refine List.find?_eq_none.mpr fun key isOutput => ?_
    obtain ⟨resolved, found, -⟩ := made key (Task.mem_step_outputs.mp isOutput)
    simp [KeyTable.contains, found]
  have advanced : Consistent (done ++ [task.step tailCalls]) after := by
    refine ⟨fun key => ?_, fun key resolved found => ?_, fun step isDone key isInput => ?_⟩
    · by_cases isOutput : key ∈ task.outputs
      · obtain ⟨resolved, found, -⟩ := made key isOutput
        refine iff_of_true (by simp [found]) ⟨task.step tailCalls, by simp, ?_⟩
        exact Task.mem_step_outputs.mpr isOutput
      · rw [kept key isOutput, consistent.present key]
        constructor
        · rintro ⟨step, isDone, made⟩
          exact ⟨step, by simp [isDone], made⟩
        · rintro ⟨step, isDone, made⟩
          rcases List.mem_append.mp isDone with early | late
          · exact ⟨step, early, made⟩
          · rw [List.mem_singleton.mp late, Task.mem_step_outputs] at made
            exact (isOutput made).elim
    · by_cases isOutput : key ∈ task.outputs
      · obtain ⟨other, isOther, fits⟩ := made key isOutput
        rw [isOther] at found
        cases found
        exact fits
      · rw [kept key isOutput] at found
        exact consistent.fitting key resolved found
    · have earlier : ∃ earlier ∈ done, key ∈ earlier.outputs := by
        rcases List.mem_append.mp isDone with early | late
        · exact consistent.ready step early key isInput
        · rw [List.mem_singleton.mp late] at isInput
          exact turn.ready key isInput
      obtain ⟨earlier, isEarlier, made⟩ := earlier
      exact ⟨earlier, by simp [isEarlier], made⟩
  exact ⟨complete, advanced⟩

/-- Every state that a build passes through is consistent. -/
theorem Module.Accepted.consistent (accepted : module.Accepted image context program)
    (built : image.Built) (valid : Valid (program.steps tailCalls))
    (runs : Runs (program.steps tailCalls) (.initial target) done state) :
    Consistent done state := by
  induction runs with
  | start =>
      refine ⟨fun key => ?_, ?_, by simp⟩
      · simp [BuildState.initial]
      · intro key resolved found
        simp [BuildState.initial] at found
  | step _ turn ran ih =>
      have ensures := accepted.runStep_ensures built valid ih turn
      unfold Build.Ensures at ensures
      rw [ran] at ensures
      exact ensures

/-! ## The second phase -/

/-- A type is completed after declared types that it was declared after. -/
theorem Program.complete_inputs {name : Name} {supertypes : List Name}
    (isTask : .complete name supertypes ∈ program.tasks) :
    supertypes = [] ∨ ∃ attrs base interfaces,
      .declareType name attrs base interfaces ∈ program.tasks ∧
        ∀ above ∈ supertypes,
          Key.type above ∈ (Task.declareType name attrs base interfaces).inputs := by
  obtain ⟨core, isCore, isPlanned⟩ := Program.exists_plans isTask
  cases isPlanned with
  | completion =>
      refine .inr ⟨core.attrs, core.base, core.interfaces,
        CoreClass.mem_program_tasks isCore .type, ?_⟩
      intro above isAbove
      obtain ⟨type, isType, isDeclared⟩ := List.mem_filterMap.mp isAbove
      obtain rfl := Ty.eq_declared isDeclared
      exact mem_typeKeys.mpr ⟨_, isType, above, by simp [Ty.mentions], rfl⟩
  | closure _ _ isTask =>
      cases isTask
      exact .inl rfl

theorem Task.exists_of_phase (late : (task.step tailCalls).phase = .complete) :
    ∃ name supertypes, task = .complete name supertypes := by
  cases task with
  | complete name supertypes => exact ⟨name, supertypes, rfl⟩
  | _ => cases late

/-- The place where a type is declared in an order of the first phase. -/
def declarationIndex (sequence : List (Step Image)) (name : Name) : Nat :=
  sequence.findIdx fun step => step.outputs.contains (.type name)

/-- In an order of the first phase, a type comes after what it is declared with. -/
theorem declarationIndex_lt (valid : Valid (program.steps tailCalls))
    (ordered : order (program.steps tailCalls) .declare = .ok sequence) {name above : Name}
    {attrs : TypeAttrs} {base : Option SourceTy} {interfaces : List SourceTy}
    (isTask : .declareType name attrs base interfaces ∈ program.tasks)
    (isInput : Key.type above ∈ (Task.declareType name attrs base interfaces).inputs) :
    declarationIndex sequence above < declarationIndex sequence name := by
  have isStep := Program.mem_steps.mpr
    (⟨_, isTask, rfl⟩ : ∃ task ∈ program.tasks, task.step tailCalls =
      (Task.declareType name attrs base interfaces).step tailCalls)
  have inSequence := (order_perm ordered).mem_iff.mpr
    (List.mem_filter.mpr ⟨isStep, decide_eq_true rfl⟩)
  obtain ⟨before, after, rfl⟩ := List.append_of_mem inSequence
  have turn : InTurn (program.steps tailCalls) before _ :=
    valid.inTurn ordered (List.append_nil _) (.inl rfl)
  have early : declarationIndex before above < before.length := by
    obtain ⟨earlier, isEarlier, made⟩ := turn.ready _ (Task.mem_step_inputs.mpr isInput)
    exact List.findIdx_lt_length_of_exists ⟨earlier, isEarlier, by simpa using made⟩
  have late : declarationIndex before name = before.length := by
    refine List.findIdx_eq_length_of_false fun earlier isEarlier => ?_
    have unmade := turn.fresh (.type name) (by simp [Task.outputs]) earlier isEarlier
    simpa using unmade
  unfold declarationIndex at early late ⊢
  rw [List.findIdx_append, List.findIdx_append, if_pos early, late, if_neg (Nat.lt_irrefl _)]
  omega

/-- The position at which the type that a step completes is declared. -/
def completionIndex (sequence : List (Step Image)) (step : Step Image) : Nat :=
  match step.outputs with
  | [.completed name] => declarationIndex sequence name
  | _ => 0

/-- Once the first phase of a program has an order, so has the second. -/
theorem Program.exists_order (valid : Valid (program.steps tailCalls))
    (ordered : order (program.steps tailCalls) .declare = .ok sequence) :
    ∃ second, order (program.steps tailCalls) .complete = .ok second := by
  refine order_of_ranked (completionIndex sequence) ?_
  intro step isStep late key isInput producer isProducer samePhase made
  obtain ⟨task, isTask, rfl⟩ := Program.mem_steps.mp isStep
  obtain ⟨name, supertypes, rfl⟩ := Task.exists_of_phase late
  obtain ⟨other, isOther, rfl⟩ := Program.mem_steps.mp isProducer
  obtain ⟨above, _, rfl⟩ := Task.exists_of_phase samePhase
  obtain rfl := List.mem_singleton.mp (Task.mem_step_outputs.mp made)
  have isAbove : above ∈ supertypes := by
    simpa [Task.inputs] using isInput
  rcases Program.complete_inputs isTask with rfl | ⟨attrs, base, interfaces, isDeclaration, inputs⟩
  · cases isAbove
  · exact declarationIndex_lt valid ordered isDeclaration (inputs above isAbove)

/-! ## The end of a build -/

theorem Program.build_eq :
    program.build options target =
      match (schedule (program.steps options.tailCalls)).run (.initial target) with
      | .ok () state => (.ok (.ofResolution options.name state.resolution), state.target)
      | .error diagnostic state => (.error diagnostic, state.target) :=
  rfl

/-- A program whose steps are refused leaves the image alone. -/
theorem Program.build_of_invalid
    (refused : validate (program.steps options.tailCalls) .empty = .error diagnostic) :
    program.build options target = (.error diagnostic, target) := by
  have ran : (schedule (program.steps options.tailCalls)).run (.initial target) =
      .error diagnostic (.initial target) := by
    rw [run_schedule]
    simp only [BuildState.initial, refused]
  rw [Program.build_eq, ran]
  rfl

/-- A build of an accepted program fails before its first request, or with a fault that
is excused. -/
theorem Module.Accepted.build_error (accepted : module.Accepted image context program)
    (built : image.Built) {after : Image}
    (failed : program.build options target = (.error diagnostic, after)) :
    (after = target ∧
      (validate (program.steps options.tailCalls) .empty = .error diagnostic ∨
        order (program.steps options.tailCalls) .declare = .error diagnostic)) ∨
      diagnostic.Excused (fun _ => False) program.Crowded := by
  have ends : Ends (program.steps options.tailCalls) (.initial target) _ := schedule_ends rfl
  rw [Program.build_eq] at failed
  generalize (schedule (program.steps options.tailCalls)).run (.initial target) = result
    at ends failed
  cases ends with
  | invalid refused =>
      cases failed
      exact .inl ⟨rfl, .inl refused⟩
  | stuck _ refused =>
      cases failed
      exact .inl ⟨rfl, .inr refused⟩
  | stuckLate valid declares refused =>
      obtain ⟨second, completes⟩ := Program.exists_order valid declares
      rw [completes] at refused
      cases refused
  | failed valid runs turn fails =>
      cases failed
      have ensures := accepted.runStep_ensures built valid (accepted.consistent built valid runs) turn
      unfold Build.Ensures at ensures
      rw [fails] at ensures
      exact .inr ensures
  | finished => cases failed

/-- The faults that a build of an accepted program can end with. -/
theorem Module.Accepted.build_faults (accepted : module.Accepted image context program)
    (built : image.Built) (failed : (program.build options target).1 = .error diagnostic) :
    diagnostic.Excused (fun _ => False) program.Crowded ∨
      (∃ key first second, diagnostic = .duplicateOutput key first second) ∨
      (∃ step ∈ program.steps options.tailCalls, ∃ key ∈ step.inputs,
        diagnostic = .unproducible key step.label ∧
          isAvailable (program.steps options.tailCalls) .empty step.phase key = false) ∨
      ∃ number labels, diagnostic = .cycle number labels := by
  rcases accepted.build_error built (Prod.ext failed rfl) with ⟨-, invalid | stuck⟩ | excused
  · exact .inr ((validate_error invalid).imp_right .inl)
  · obtain ⟨labels, rfl⟩ := order_error stuck
    exact .inr (.inr (.inr ⟨_, labels, rfl⟩))
  · exact .inl excused

end

theorem Module.compile_of_check {module : Module} {image : Image}
    (checked : module.check image = .ok program) (options : CompileOptions) :
    module.compile options image = program.build options image := by
  unfold Module.compile
  rw [checked]

/-- Rejection comes before the first write: a module that is refused for a fault in its
declarations, its types, what it refers to or how it can be scheduled leaves the image as
it was. -/
theorem Module.rejected_before_writing {module : Module} {image after : Image} (built : image.Built)
    {options : CompileOptions} {diagnostic : Diagnostic}
    (failed : module.compile options image = (.error diagnostic, after))
    (category : diagnostic.category ∈
      [Category.declaration, .type, .resolution, .scheduling]) : after = image := by
  cases checked : module.check image with
  | error other =>
      unfold Module.compile at failed
      rw [checked] at failed
      cases failed
      rfl
  | ok program =>
      rw [Module.compile_of_check checked] at failed
      obtain ⟨context, accepted⟩ := Module.accepted_of_check checked
      rcases accepted.build_error built failed with ⟨unchanged, -⟩ | excused
      · exact unchanged
      · cases excused with
        | target | argument => simp [Diagnostic.category] at category
        | unresolved missing => exact missing.elim

/-- A class with a field of a type that nothing declares. -/
def Module.dangling : Module where
  classes := [
    { name := "Holder"
      attrs := .publicClass
      base := none
      interfaces := []
      fields := [{ name := "item", type := .declared "Item", attrs := .publicInstance }]
      methods := []
      ctors := []
      properties := [] }]

theorem Module.dangling_rejected_before_writing :
    Image.library.Built ∧ ∃ diagnostic,
      (Module.dangling.compile {} .library).1 = .error diagnostic ∧
      diagnostic.category = .resolution ∧
      (Module.dangling.compile {} .library).2 = .library := by
  have refused : (match (Module.dangling.compile {} .library).1 with
      | .error diagnostic => diagnostic.category == .resolution
      | .ok _ => false) = true := by
    decide +kernel
  refine ⟨.library, ?_⟩
  cases failed : (Module.dangling.compile {} .library).1 with
  | ok => simp [failed] at refused
  | error diagnostic =>
      rw [failed] at refused
      have category : diagnostic.category = .resolution := eq_of_beq refused
      refine ⟨diagnostic, rfl, category, ?_⟩
      exact Module.rejected_before_writing .library (Prod.ext failed rfl) (by simp [category])

/-! ## Storage in generated code -/

/-- Generating the code of some member of a program ends with a fault. -/
inductive Program.CodeFault (program : Program) (lowering : LowerContext) :
    Diagnostic → Prop where
  | method {key : MethodKey} {source : MethodSource} {diagnostic : Diagnostic} :
      .defineMethod lowering.host key source ∈ program.tasks →
      source.code lowering = .error diagnostic →
      CodeFault program lowering diagnostic
  | ctor {key : CtorKey} {source : CtorSource} {diagnostic : Diagnostic} :
      .defineCtor lowering.host key source ∈ program.tasks →
      source.code lowering = .error diagnostic →
      CodeFault program lowering diagnostic

/-- A fault of the generator itself: a variable without storage, or an internal one. -/
inductive Diagnostic.OfGenerator : Diagnostic → Prop where
  | unbound (name : Name) : OfGenerator (.unboundVariable name)
  | internal (text : String) : OfGenerator (.internal text)

theorem Diagnostic.Excused.not_ofGenerator {missing : Key → Prop} {crowded : Prop}
    (excused : diagnostic.Excused missing crowded) (room : ¬ crowded) :
    ¬ diagnostic.OfGenerator := by
  intro ofGenerator
  cases excused with
  | target | unresolved => cases ofGenerator
  | argument tooMany => exact room tooMany

/-- Whatever has been built and whatever the image is, generating code for an accepted
program fails only because something is missing or is refused. -/
theorem Module.Accepted.codeFault_excused {module : Module} {image : Image}
    {context : TypeContext} (accepted : module.Accepted image context program)
    (built : image.Built) {lowering : LowerContext} (fitting : lowering.resolution.Fitting)
    (fault : program.CodeFault lowering diagnostic) :
    diagnostic.Excused (fun _ => True) program.Crowded := by
  have closed : program.Closed fun _ => True := fun _ _ _ _ _ _ _ => trivial
  have supplies : ∀ key, True → lowering.resolution.Supplies (fun _ => True) key :=
    fun key _ => fitting.supplies fun _ => trivial
  cases fault with
  | method isTask failed =>
      have yields := accepted.defineMethod_yields built closed supplies isTask (fun _ _ => trivial)
        fun many => (⟨_, isTask, many⟩ : program.Crowded)
      rwa [failed] at yields
  | ctor isTask failed =>
      have yields := accepted.defineCtor_yields built closed supplies isTask (fun _ _ => trivial)
        fun many => (⟨_, isTask, many⟩ : program.Crowded)
      rwa [failed] at yields

/-- The checker, the analysis of uses and the generator agree on storage.  At every place
in the code of an accepted module, what was added to storage is in a cell just when its
scope says that it is captured, variables are found with the types that the checker saw,
and what crosses a boundary is in cells where the boundary is called.  So, with arguments
that instructions can name, generating code ends neither with a variable without storage
nor with an internal fault, and no compilation does. -/
theorem Module.storage_agrees {module : Module} {image : Image} {symbols : Symbols}
    {program : Program} (built : image.Built) (collected : Symbols.ofModule module = .ok symbols)
    (checked : TypeContext.checkModule { symbols, image } module = .ok program) :
    (∀ lowering bounds outer site,
      module.Generates { symbols, image } lowering bounds outer site →
        Allocates bounds outer site.env ∧ site.Stored lowering) ∧
    ((∀ task ∈ program.tasks, task.argumentCount ≤ maxArgs) →
      (∀ lowering diagnostic, lowering.resolution.Fitting →
        program.CodeFault lowering diagnostic → ¬ diagnostic.OfGenerator) ∧
      ∀ options diagnostic, (module.compile options image).1 = .error diagnostic →
        ¬ diagnostic.OfGenerator) := by
  have done : module.check image = .ok program := by
    simp only [Module.check, bind_eq_ok]
    exact ⟨symbols, collected, checked⟩
  obtain ⟨context, accepted⟩ := Module.accepted_of_check done
  refine ⟨fun lowering bounds outer site generated => ?_, fun room => ?_⟩
  · exact ⟨generated.invariant.2.1, generated.stored⟩
  · have uncrowded : ¬ program.Crowded := by
      rintro ⟨task, isTask, many⟩
      exact Nat.not_lt.mpr (room task isTask) many
    refine ⟨fun lowering diagnostic fitting fault => ?_, fun options diagnostic failed => ?_⟩
    · exact (accepted.codeFault_excused built fitting fault).not_ofGenerator uncrowded
    · rw [Module.compile_of_check done] at failed
      rcases accepted.build_faults built failed with excused | ⟨_, _, _, rfl⟩ |
        ⟨_, -, _, -, rfl, -⟩ | ⟨_, _, rfl⟩
      · exact excused.not_ofGenerator uncrowded
      all_goals
        intro ofGenerator
        cases ofGenerator

theorem Module.counter_storage_agrees :
    ∃ symbols program, Image.library.Built ∧ Symbols.ofModule Module.counter = .ok symbols ∧
      TypeContext.checkModule { symbols, image := .library } Module.counter = .ok program ∧
      ∀ options diagnostic, (Module.counter.compile options .library).1 = .error diagnostic →
        ¬ diagnostic.OfGenerator := by
  obtain ⟨program, done⟩ := exists_ok_of_isOk Module.counter_isOk
  have room : (Module.counter.check .library).toOption.all (fun program =>
      program.tasks.all fun task => decide (task.argumentCount ≤ maxArgs)) = true := by
    decide +kernel
  rw [done] at room
  obtain ⟨symbols, collected, checked⟩ := bind_eq_ok.mp done
  refine ⟨symbols, program, .library, collected, checked, ?_⟩
  refine ((Module.storage_agrees .library collected checked).2 fun task isTask => ?_).2
  exact of_decide_eq_true (List.all_eq_true.mp room task isTask)

end ClassForge
