import ClassForge.Proofs.Simulation.SimulatedNodes

/-!
# Branches that simulate

The code of a node that chooses what to evaluate goes where the condition or the selector says.  A
`while` goes back to its first instruction after each turn.
-/

namespace ClassForge

open Machine
variable {datum : Datum} {data : List Datum} {context : LowerContext} {env : Scope Location}
variable {bindings : Scope Binding} {before after : Emitter} {post : Config → Prop}

/-- A choice between two evaluations. -/
theorem Evaluation.run_choice_eq_some {test yes no : Evaluation Datum} {later : List Datum} :
    (do if ← liftM (← test).truth? then yes else no : Evaluation Datum).run data =
        some (datum, later) ↔
      ∃ decision holds middle, test.run data = some (decision, middle) ∧
        decision.truth? = some holds ∧ (if holds then yes else no).run middle = some (datum, later) := by
  constructor
  · intro evaluated
    obtain ⟨decision, middle, tested, decided⟩ := run_bind_eq_some.mp evaluated
    obtain ⟨holds, _, decides, chosen⟩ := run_bind_eq_some.mp decided
    obtain ⟨isDecided, rfl⟩ := run_lift_eq_some.mp decides
    exact ⟨decision, holds, _, tested, isDecided, chosen⟩
  · rintro ⟨decision, holds, middle, tested, isDecided, chosen⟩
    refine run_bind_eq_some.mpr ⟨decision, middle, tested, ?_⟩
    exact run_bind_eq_some.mpr ⟨holds, middle, run_lift_eq_some.mpr ⟨isDecided, rfl⟩, chosen⟩

namespace Core

variable {linkage : Linkage} {limit : Nat} {types : Scope SourceTy}
variable {test body yes no : Core} {tests acts accepts rejects : Scope Location → Evaluation Datum}

/-- A condition goes on if it holds, else to a label. -/
theorem Simulates.branch {seat : Seat} {now : Situation} {stack : List Value} {label : Label}
    {target : Nat}
    {accept reject : Evaluation Datum} (simulates : test.Simulates linkage limit types tests)
    (isTruth : test.type = .bool)
    (ready : now.Ready linkage context seat types env bindings before)
    (written : (test.lower context bindings false).Writes before () after)
    (placed : after.PlacedIn now.frame.body)
    (isInstr : now.frame.body.instrs[after.position]? = some (.branchFalse label))
    (isTarget : now.frame.body.target? label = some target)
    (evaluated : (do if ← liftM (← tests env).truth? then accept else reject : Evaluation Datum).run
      now.memory.data = some (datum, data))
    (rest : ∀ (holds : Bool) later between, now.Resumes linkage later between →
      (if holds then accept else reject).run between = some (datum, data) →
        Arrives linkage.image limit
          (later.config seat (if holds then after.position + 1 else target) stack) post) :
    Arrives linkage.image limit (now.config seat before.position stack) post := by
  obtain ⟨decision, holds, between, tested, decides, chosen⟩ :=
    Evaluation.run_choice_eq_some.mp evaluated
  refine simulates.test isTruth ready written placed tested decides fun later resumes => ?_
  refine Seat.arrives_branchFalse (resumes.body ▸ isInstr) (resumes.body ▸ isTarget) ?_
  rw [Value.isTruthy_ofBool]
  exact rest holds later between resumes chosen

theorem simulates_when (isTruth : test.type = .bool) (noValue : body.type = .void)
    (testSimulates : test.Simulates linkage limit types tests)
    (bodySimulates : body.Simulates linkage limit types acts) :
    (when test body).Simulates linkage limit types fun env => do
      if ← liftM (← tests env).truth? then acts env else return .nothing := by
  intro context seat tail env bindings before after now datum data stack post ready written placed
    evaluated falls ends
  have written := Lower.writes_label_bind.mp written
  obtain ⟨_, first, writtenTest, written⟩ := Lower.writes_bind.mp written
  have written := Lower.writes_emit_bind.mp written
  obtain ⟨_, last, writtenBody, marks⟩ := Lower.writes_bind.mp written
  obtain ⟨isOpen, rfl⟩ := Lower.writes_mark.mp marks
  have placedBody := placed.of_precedes (Lower.Adds.mark _ _ _ _ marks)
  have placedTest := placedBody.of_precedes (body.lower_adds _ _ _ _ _ writtenBody)
  have isReady : now.Ready linkage context seat types env bindings before.withLabel :=
    ready.mono (Nat.le_refl _)
  change Arrives _ _ (now.config seat before.withLabel.position stack) post
  refine testSimulates.branch isTruth isReady writtenTest placedTest.before_emit placedTest.last
    (placed.target isOpen) evaluated fun holds later between resumes chosen => ?_
  cases holds with
  | true =>
      rw [if_pos rfl, ← Emitter.position_emit]
      exact bodySimulates.next isReady resumes (test.lower_adds _ _ _ _ _ writtenTest).locals
        writtenBody placedBody chosen falls ends
  | false =>
      obtain ⟨rfl, rfl⟩ := Evaluation.run_pure_eq_some.mp chosen
      exact falls later [] resumes (.nothing (congrArg Ty.isVoid noValue))

theorem simulates_cond (isTruth : test.type = .bool) (same : no.type = yes.type)
    (testSimulates : test.Simulates linkage limit types tests)
    (yesSimulates : yes.Simulates linkage limit types accepts)
    (noSimulates : no.Simulates linkage limit types rejects) :
    (cond test yes no).Simulates linkage limit types (fun env => do
      if ← liftM (← tests env).truth? then accepts env else rejects env) := by
  intro context seat tail env bindings before after now datum data stack post ready written placed
    evaluated falls ends
  have written := Lower.writes_label_bind.mp written
  obtain ⟨_, first, writtenTest, written⟩ := Lower.writes_bind.mp written
  have written := Lower.writes_label_bind.mp written
  have written := Lower.writes_emit_bind.mp written
  obtain ⟨_, second, writtenYes, written⟩ := Lower.writes_bind.mp written
  have written := Lower.writes_emit_bind.mp written
  obtain ⟨_, _, marksOtherwise, written⟩ := Lower.writes_bind.mp written
  obtain ⟨isOtherwiseOpen, rfl⟩ := Lower.writes_mark.mp marksOtherwise
  obtain ⟨_, last, writtenNo, marks⟩ := Lower.writes_bind.mp written
  obtain ⟨isOpen, rfl⟩ := Lower.writes_mark.mp marks
  have placedNo := placed.of_precedes (Lower.Adds.mark _ _ _ _ marks)
  have placedMark := placedNo.of_precedes (no.lower_adds _ _ _ _ _ writtenNo)
  have placedExit := placedMark.of_precedes (Lower.Adds.mark _ _ _ _ marksOtherwise)
  have placedTest := placedExit.before_emit.of_precedes (yes.lower_adds _ _ _ _ _ writtenYes)
  have isReady : now.Ready linkage context seat types env bindings before.withLabel :=
    ready.mono (Nat.le_refl _)
  have growsTest := (test.lower_adds _ _ _ _ _ writtenTest).locals
  have growsYes := (yes.lower_adds _ _ _ _ _ writtenYes).locals
  change Arrives _ _ (now.config seat before.withLabel.position stack) post
  refine testSimulates.branch isTruth isReady writtenTest
    (placedTest.before_emit.of_precedes first.precedes_withLabel) placedTest.last
    (placedMark.target isOtherwiseOpen) evaluated fun holds later between resumes chosen => ?_
  cases holds with
  | true =>
      rw [if_pos rfl, ← Emitter.position_withLabel first, ← Emitter.position_emit]
      refine yesSimulates.next isReady resumes growsTest writtenYes placedExit.before_emit chosen
        (fun final values further pushed => ?_) ends
      refine Seat.arrives_branch (further.body ▸ placedExit.last)
        (further.body ▸ placed.target isOpen) ?_
      exact falls final values further pushed
  | false =>
      rw [if_neg Bool.false_ne_true, ← Emitter.position_withMark _ ⟨first.labels.size⟩]
      refine noSimulates.next isReady resumes (growsTest.trans growsYes) writtenNo placedNo chosen
        (fun final values further pushed => falls final values further (same ▸ pushed))
        fun isTail value memory isEnd => ends isTail value memory (same ▸ isEnd)

/-- The next turn of a `while` starts where the first one started. -/
theorem simulates_while {again : Scope Location → Evaluation Datum} (isTruth : test.type = .bool)
    (testSimulates : test.Simulates linkage limit types tests)
    (bodySimulates : body.Simulates linkage limit types acts)
    (simulates : («while» test body).Simulates linkage limit types again) :
    («while» test body).Simulates linkage limit types fun env => do
      if ← liftM (← tests env).truth? then
        discard <| acts env
        again env
      else
        return .nothing := by
  intro context seat tail env bindings before after now datum data stack post ready written placed
    evaluated falls ends
  have whole := written
  have written := Lower.writes_label_bind.mp written
  have written := Lower.writes_label_bind.mp written
  obtain ⟨_, _, marksTop, written⟩ := Lower.writes_bind.mp written
  obtain ⟨isTopOpen, rfl⟩ := Lower.writes_mark.mp marksTop
  obtain ⟨_, first, writtenTest, written⟩ := Lower.writes_bind.mp written
  have written := Lower.writes_emit_bind.mp written
  obtain ⟨_, second, writtenBody, written⟩ := Lower.writes_bind.mp written
  obtain ⟨_, last, drops, written⟩ := Lower.writes_bind.mp written
  have marks := Lower.writes_emit_bind.mp written
  obtain ⟨isOpen, rfl⟩ := Lower.writes_mark.mp marks
  have placedExit := placed.of_precedes (Lower.Adds.mark _ _ _ _ marks)
  have placedBody := placedExit.before_emit.of_precedes (Lower.Adds.popValue _ _ _ _ drops)
  have placedTest := placedBody.of_precedes (body.lower_adds _ _ _ _ _ writtenBody)
  have placedTop := placedTest.before_emit.of_precedes (test.lower_adds _ _ _ _ _ writtenTest)
  have isReady : now.Ready linkage context seat types env bindings
      (before.withLabel.withLabel.withMark ⟨before.labels.size⟩) :=
    ready.mono (Nat.le_refl _)
  change Arrives _ _ (now.config seat
    (before.withLabel.withLabel.withMark ⟨before.labels.size⟩).position stack) post
  refine testSimulates.branch isTruth isReady writtenTest placedTest.before_emit placedTest.last
    (placed.target isOpen) evaluated fun holds later between resumes chosen => ?_
  cases holds with
  | true =>
      obtain ⟨_, middle, discarded, repeated⟩ := Evaluation.run_bind_eq_some.mp chosen
      obtain ⟨_, acted⟩ := Evaluation.run_discard_eq_some.mp discarded
      have isLater : later.Ready linkage context seat types env bindings
          (first.emit (.branchFalse ⟨before.withLabel.labels.size⟩)) :=
        isReady.resume resumes (test.lower_adds _ _ _ _ _ writtenTest).locals
      rw [if_pos rfl, ← Emitter.position_emit]
      refine bodySimulates.dropped isLater writtenBody drops (resumes.body ▸ placedExit.before_emit)
        (resumes.data ▸ acted) fun final further => ?_
      have total := resumes.trans further
      refine Seat.arrives_branch (total.body ▸ placedExit.last)
        (total.body ▸ placedTop.target isTopOpen) ?_
      change Arrives _ _ (final.config seat before.position stack) post
      exact simulates.next ready total (Nat.le_refl _) whole placed repeated falls ends
  | false =>
      obtain ⟨rfl, rfl⟩ := Evaluation.run_pure_eq_some.mp chosen
      exact falls later [] resumes (.nothing rfl)

end Core

/-! ## Jump tables -/

section Arms

variable {α : Type} {label : UInt32} {arms : List (List UInt32 × α)} {default : α}

theorem selectArm_cons (label : UInt32) (arm : List UInt32 × α) (arms : List (List UInt32 × α))
    (default : α) : selectArm label (arm :: arms) default =
      if arm.1.contains label then arm.2 else selectArm label arms default := by
  unfold selectArm
  rw [List.find?_cons]
  split
  · next isArm => rw [if_pos isArm]; rfl
  · next isOther => rw [if_neg (Bool.eq_false_iff.mp isOther)]

/-- No arm has the label. -/
theorem selectArm_of_forall (none : ∀ arm ∈ arms, label ∉ arm.1) :
    selectArm label arms default = default := by
  have isNone : arms.find? (fun arm => arm.1.contains label) = .none :=
    List.find?_eq_none.mpr fun arm isArm isLabel => none arm isArm (List.contains_iff_mem.mp isLabel)
  rw [selectArm, isNone]
  rfl

/-- The jump table goes to the arm with the label. -/
theorem getElem?_jumpTable {default : Label} {arms : List (List UInt32 × Label)} {largest : Nat}
    (within : label.toNat ≤ largest) :
    (jumpTable default arms largest)[label.toNat]? = some (selectArm label arms default) := by
  unfold jumpTable selectArm
  rw [List.getElem?_map, List.getElem?_range (Nat.lt_succ_of_le within)]
  have same : (fun arm : List UInt32 × Label => arm.1.any fun other => other.toNat == label.toNat) =
      fun arm => arm.1.contains label := by
    funext arm
    rw [Bool.eq_iff_iff, List.any_eq_true, List.contains_iff_mem]
    constructor
    · rintro ⟨other, isOther, same⟩
      exact UInt32.toNat_inj.mp (beq_iff_eq.mp same) ▸ isOther
    · exact fun isLabel => ⟨label, isLabel, beq_self_eq_true _⟩
  dsimp only [Option.map_some]
  rw [same]
  cases arms.find? fun arm => arm.1.contains label <;> rfl

theorem Lower.writes_labels {γ : Type} {items : List α} {view : α → γ}
    {targets : List (γ × Label)}
    (written : (items.mapM fun item => do
      let label ← Lower.label
      return (view item, label)).Writes before targets after) :
    targets.map (·.1) = items.map view ∧ after.position = before.position ∧
      after.locals = before.locals := by
  induction items generalizing targets before with
  | nil =>
      obtain ⟨rfl, rfl⟩ := writes_pure.mp written
      exact ⟨rfl, rfl, rfl⟩
  | cons item items ih =>
      simp only [List.mapM_cons, bind_assoc, pure_bind] at written
      have written := writes_label_bind.mp written
      obtain ⟨rest, last, writtenRest, done⟩ := writes_bind.mp written
      obtain ⟨rfl, rfl⟩ := writes_pure.mp done
      obtain ⟨keys, position, locals⟩ := ih writtenRest
      exact ⟨congrArg _ keys, position, locals⟩

end Arms

namespace Core

section Switch

variable {linkage : Linkage} {limit : Nat} {types : Scope SourceTy} {type : SourceTy}
variable {eval : Expr → Scope Location → Evaluation Datum} {arms : List (List UInt32 × Expr)}
variable {cores : List (List UInt32 × Core)}

/-- The code of an arm of a `switch` simulates it. -/
structure SimulatesArm (linkage : Linkage) (limit : Nat) (types : Scope SourceTy) (type : SourceTy)
    (eval : Expr → Scope Location → Evaluation Datum) (arm : List UInt32 × Expr)
    (core : List UInt32 × Core) : Prop where
  labels : core.1 = arm.1
  typed : core.2.type = type
  simulates : core.2.Simulates linkage limit types (eval arm.2)

/-- The jump table goes to the selected arm, or to what comes after the arms. -/
theorem exists_arrives_lowerArms {seat : Seat} {now : Situation} {stack : List Value}
    {label : UInt32}
    {default : Expr} {targets : List (List UInt32 × Label)} {stop elsewhere : Label} {tail : Bool}
    {other exit : Nat}
    (simulate : List.Forall₂ (SimulatesArm linkage limit types type eval) arms cores)
    (keys : targets.map (·.1) = cores.map (·.1))
    (ready : now.Ready linkage context seat types env bindings before)
    (written : (lowerArms context cores (targets.map (·.2)) stop bindings tail).Writes before ()
      after)
    (placed : after.PlacedIn now.frame.body) (isExit : now.frame.body.target? stop = some exit)
    (isOther : now.frame.body.target? elsewhere = some other)
    (evaluated : (eval (selectArm label arms default) env).run now.memory.data = some (datum, data))
    (falls : ∀ later values, now.Resumes linkage later data →
      Pushed linkage later.memory type datum values →
        Arrives linkage.image limit (later.config seat exit (values ++ stack)) post)
    (ends : tail = true → ∀ value memory, now.Ends linkage type datum data value memory →
      Arrives linkage.image limit ⟨.deliver value, seat.levels, seat.room, memory.store⟩ post)
    (rest : (eval default env).run now.memory.data = some (datum, data) →
      Arrives linkage.image limit (now.config seat other stack) post) :
    ∃ target, now.frame.body.target? (selectArm label targets elsewhere) = some target ∧
      Arrives linkage.image limit (now.config seat target stack) post := by
  induction simulate generalizing before targets with
  | nil =>
      obtain rfl := List.map_eq_nil_iff.mp keys
      exact ⟨other, isOther, rest evaluated⟩
  | @cons arm core arms cores first others ih =>
      cases targets with
      | nil => cases keys
      | cons entry targets =>
          obtain ⟨isKey, keys⟩ := List.cons.inj keys
          obtain ⟨_, _, marks, written⟩ := Lower.writes_bind.mp written
          obtain ⟨isOpen, rfl⟩ := Lower.writes_mark.mp marks
          obtain ⟨_, last, writtenArm, written⟩ := Lower.writes_bind.mp written
          have writtenRest := Lower.writes_emit_bind.mp written
          have adds : (lowerArms context cores (targets.map (·.2)) stop bindings tail).Adds :=
            lowerArms_adds _ _ _ _
          have placedExit := placed.of_precedes (adds _ _ _ writtenRest)
          have placedArm := placedExit.before_emit
          have placedMark := placedArm.of_precedes (core.2.lower_adds _ _ _ _ _ writtenArm)
          rw [selectArm_cons, first.labels.symm.trans isKey.symm] at evaluated
          rw [selectArm_cons]
          split at evaluated
          · next isArm =>
              rw [if_pos isArm]
              refine ⟨before.position, placedMark.target isOpen, ?_⟩
              rw [← Emitter.position_withMark before entry.2]
              refine first.simulates (ready.mono (Nat.le_refl _)) writtenArm placedArm evaluated
                (fun later values resumes pushed => ?_)
                fun isTail value memory isEnd => ends isTail value memory (first.typed ▸ isEnd)
              refine Seat.arrives_branch (resumes.body ▸ placedExit.last) (resumes.body ▸ isExit) ?_
              exact falls later values resumes (first.typed ▸ pushed)
          · next notArm =>
              rw [if_neg notArm]
              have isReady : now.Ready linkage context seat types env bindings
                  (last.emit (.branch stop)) :=
                ready.mono (core.2.lower_adds _ _ _ _ _ writtenArm).locals
              exact ih keys isReady writtenRest evaluated

theorem simulates_switch {selector default : Core} {expr : Expr}
    {selects : Scope Location → Evaluation Datum} (isValue : selector.type.isVoid = false)
    (selectorSimulates : selector.Simulates linkage limit types selects)
    (simulate : List.Forall₂ (SimulatesArm linkage limit types default.type eval) arms cores)
    (defaultSimulates : default.Simulates linkage limit types (eval expr)) :
    (switch selector cores default).Simulates linkage limit types (fun env => do
      let value ← liftM (← selects env).number?
      eval (selectArm value.toUInt32 arms expr) env) := by
  intro context seat tail env bindings before after now datum data stack post ready written placed
    evaluated falls ends
  obtain ⟨selected, between, evaluatedSelector, chosen⟩ := Evaluation.run_bind_eq_some.mp evaluated
  obtain ⟨number, middle, decides, evaluatedArm⟩ := Evaluation.run_bind_eq_some.mp chosen
  obtain ⟨isNumber, rfl⟩ := Evaluation.run_lift_eq_some.mp decides
  obtain ⟨_, first, writtenSelector, written⟩ := Lower.writes_bind.mp written
  have growsSelector := (selector.lower_adds _ _ _ _ _ writtenSelector).locals
  have isListed : ∀ arm ∈ arms, ∀ label ∈ arm.1,
      label.toNat ∈ cores.flatMap fun core => core.1.map UInt32.toNat := by
    intro arm isArm label isLabel
    obtain ⟨core, isCore, related⟩ := exists_related_right simulate isArm
    exact List.mem_flatMap.mpr ⟨core, isCore, List.mem_map_of_mem (related.labels ▸ isLabel)⟩
  -- What is left to show once the selector is there.
  have further : first.PlacedIn now.frame.body → (∀ later, now.Resumes linkage later middle →
      Arrives linkage.image limit
        (later.config seat first.position (.int32 number :: stack)) post) →
      Arrives linkage.image limit (now.config seat before.position stack) post := by
    intro isPlaced rest
    refine selectorSimulates.operand isValue ready writtenSelector isPlaced evaluatedSelector
      fun later value resumes represents => ?_
    cases selected <;> cases isNumber
    generalize selector.type = type at represents
    cases represents
    exact rest later resumes
  split at written
  · next isEmpty =>
      -- There are no labels, so nothing is selected.
      have written := Lower.writes_emit_bind.mp written
      have isPlaced := placed.of_precedes (default.lower_adds _ _ _ _ _ written)
      rw [selectArm_of_forall fun arm isArm isLabel => by
        have isMember := isListed arm isArm _ isLabel
        rw [List.max?_eq_none_iff.mp isEmpty] at isMember
        cases isMember] at evaluatedArm
      refine further isPlaced.before_emit fun later resumes => ?_
      refine Seat.arrives_pop (resumes.body ▸ isPlaced.last) ?_
      rw [← Emitter.position_emit]
      exact defaultSimulates.next ready resumes growsSelector written placed evaluatedArm falls ends
  · next largest isLargest =>
      have atMost := (List.max?_eq_some_iff.mp isLargest).2
      have written := Lower.writes_label_bind.mp written
      have written := Lower.writes_label_bind.mp written
      obtain ⟨targets, second, areLabels, written⟩ := Lower.writes_bind.mp written
      obtain ⟨keys, position, locals⟩ := Lower.writes_labels areLabels
      have written := Lower.writes_emit_bind.mp written
      have written := Lower.writes_emit_bind.mp written
      obtain ⟨_, third, writtenArms, written⟩ := Lower.writes_bind.mp written
      obtain ⟨_, _, marksElsewhere, written⟩ := Lower.writes_bind.mp written
      obtain ⟨isElsewhereOpen, rfl⟩ := Lower.writes_mark.mp marksElsewhere
      obtain ⟨_, last, writtenDefault, marks⟩ := Lower.writes_bind.mp written
      obtain ⟨isOpen, rfl⟩ := Lower.writes_mark.mp marks
      have placedDefault := placed.of_precedes (Lower.Adds.mark _ _ _ _ marks)
      have placedMark := placedDefault.of_precedes (default.lower_adds _ _ _ _ _ writtenDefault)
      have placedArms := placedMark.of_precedes (Lower.Adds.mark _ _ _ _ marksElsewhere)
      have addsArms : (lowerArms context cores (targets.map (·.2)) ⟨first.withLabel.labels.size⟩
          bindings tail).Adds := lowerArms_adds _ _ _ _
      have precedesArms := addsArms _ _ _ writtenArms
      have placedBranch := placedArms.of_precedes precedesArms
      have growsLabels : before.locals.size ≤ second.locals.size := locals ▸ growsSelector
      have precedesLabels := first.precedes_withLabel.trans
        (first.withLabel.precedes_withLabel.trans ((Lower.Adds.mapM fun _ =>
          Lower.Adds.label.bind fun _ => .pure _) _ _ _ areLabels))
      -- The default is where the table and the arms lead that do not fit.
      have defaults : ∀ later, now.Resumes linkage later middle →
          (eval expr env).run middle = some (datum, data) →
            Arrives linkage.image limit (later.config seat third.position stack) post := by
        intro later resumes evaluatedDefault
        rw [← Emitter.position_withMark third ⟨first.labels.size⟩]
        exact defaultSimulates.next ready resumes (growsLabels.trans precedesArms.locals)
          writtenDefault placedDefault evaluatedDefault falls ends
      refine further (placedBranch.before_emit.before_emit.of_precedes precedesLabels)
        fun later resumes => ?_
      change Arrives _ _ (later.config seat first.withLabel.withLabel.position _) post
      rw [← position]
      have isOther := placedMark.target isElsewhereOpen
      rcases Nat.lt_or_ge largest number.toUInt32.toNat with beyond | within
      · rw [selectArm_of_forall fun arm isArm isLabel =>
          absurd (atMost _ (isListed arm isArm _ isLabel)) (Nat.not_le.mpr beyond)] at evaluatedArm
        have notListed : (jumpTable ⟨first.labels.size⟩ targets largest)[number.toUInt32.toNat]? =
            none := List.getElem?_eq_none (by simpa [jumpTable] using Nat.succ_le_of_lt beyond)
        refine Seat.arrives_switch_beyond (resumes.body ▸ placedBranch.before_emit.last) notListed ?_
        rw [← Emitter.position_emit]
        refine Seat.arrives_branch (resumes.body ▸ placedBranch.last) (resumes.body ▸ isOther) ?_
        exact defaults later resumes evaluatedArm
      · have isReady : later.Ready linkage context seat types env bindings
            ((second.emit (.switch (jumpTable ⟨first.labels.size⟩ targets largest))).emit
              (.branch ⟨first.labels.size⟩)) := ready.resume resumes growsLabels
        obtain ⟨target, isTarget, arrives⟩ := exists_arrives_lowerArms simulate keys isReady
          writtenArms (resumes.body ▸ placedArms)
          (resumes.body ▸ placed.target isOpen) (resumes.body ▸ isOther) (resumes.data ▸ evaluatedArm)
          (fun final values further => falls final values (resumes.trans further))
          (fun isTail value memory isEnd => ends isTail value memory (resumes.toLeads.ends isEnd))
          fun evaluatedDefault => defaults later resumes (resumes.data ▸ evaluatedDefault)
        exact Seat.arrives_switch (resumes.body ▸ placedBranch.before_emit.last)
          (getElem?_jumpTable within) isTarget arrives

end Switch

end Core

end ClassForge
