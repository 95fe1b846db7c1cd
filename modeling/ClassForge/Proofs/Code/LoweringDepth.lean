import ClassForge.Proofs.Code.CallEffects

/-!
# Generating code leaves the value of an expression

The code of an expression raises the depth of the evaluation stack by the number of values
that its type stands for, whatever the depth is, and whatever comes before and after: one for
a value, none for `Void`.  This holds for every node of a checked tree that fits, by induction
over the tree.
-/

namespace ClassForge

variable {arms : List (List UInt32 × Core)}

/-! ## Parts -/

namespace Core

theorem sizeOf_lt_of_mem_parts {core part : Core} (isPart : part ∈ core.parts) :
    sizeOf part < sizeOf core := by
  have inList : ∀ {items : List Core}, part ∈ items → sizeOf part < sizeOf items :=
    fun present => List.sizeOf_lt_of_mem present
  have inClauses : ∀ {α : Type} [SizeOf α] {clauses : List (α × Core)},
      part ∈ clauses.map (·.2) → sizeOf part < sizeOf clauses :=
    fun present => sizeOf_lt_of_mem_map_snd present
  cases core <;>
    simp only [parts, inPlace, List.mem_append, List.mem_cons, List.not_mem_nil, or_false]
      at isPart
  case seq | logic | apply | member =>
    have := inList isPart
    simp only [seq.sizeOf_spec, logic.sizeOf_spec, apply.sizeOf_spec, member.sizeOf_spec]
    omega
  case invoke =>
    rcases isPart.imp_right inList with rfl | smaller
    all_goals simp only [invoke.sizeOf_spec]; omega
  case letPar | letSeq | letRec | loop | pin =>
    rcases isPart.imp_left inClauses with smaller | rfl
    all_goals
      simp only [letPar.sizeOf_spec, letSeq.sizeOf_spec, letRec.sizeOf_spec, loop.sizeOf_spec,
        pin.sizeOf_spec]
      omega
  case tryCatch =>
    rcases isPart.imp_right inClauses with rfl | smaller
    all_goals simp only [tryCatch.sizeOf_spec]; omega
  case switch | tryFinally =>
    rcases isPart.imp_left (Or.imp_right inClauses) with (rfl | smaller) | rfl
    all_goals simp only [switch.sizeOf_spec, tryFinally.sizeOf_spec]; omega
  all_goals
    rcases isPart with rfl | rfl | rfl <;>
      simp only [set.sizeOf_spec, lambda.sizeOf_spec, when.sizeOf_spec, while.sizeOf_spec,
        cond.sizeOf_spec] <;> omega

/-- What holds of a checked expression if it holds of its parts holds of all of them. -/
theorem partInduction {motive : Core → Prop}
    (step : ∀ core, (∀ part ∈ core.parts, motive part) → motive core) (core : Core) :
    motive core :=
  step core fun part _ => partInduction step part
termination_by core
decreasing_by exact sizeOf_lt_of_mem_parts ‹_›

/-- The code of an expression raises the depth of the stack by what its type stands for.  In
tail position it may end the frame instead, if it starts on an empty stack and the value is
the result of the frame. -/
def Raises (context : LowerContext) (result : Nat) (core : Core) : Prop :=
  ∀ (known : List (Label × Nat)) (env : Scope Binding) (before : Nat) (tail : Bool),
    (tail = true → before = 0 ∧ core.type.weight = result) →
    Lower.Shifts context.image result known (core.lower context env tail) before
      (before + core.type.weight) fun _ => True

variable {context : LowerContext} {env : Scope Binding} {result before : Nat}
variable {known : List (Label × Nat)} {core : Core}

/-- The code of an expression pushes a value. -/
def Pushes (context : LowerContext) (result : Nat) (core : Core) : Prop :=
  ∀ {known : List (Label × Nat)} {env : Scope Binding} {before : Nat},
    Lower.Shifts context.image result known (core.lower context env false) before (before + 1)
      fun _ => True

theorem Raises.pushes (raises : core.Raises context result) (isValue : core.type.isVoid = false) :
    core.Pushes context result := by
  intro known env before
  have shifts := raises known env before false nofun
  rwa [Ty.weight_eq_one isValue] at shifts

/-- An expression that is not in tail position. -/
theorem Raises.inner (raises : core.Raises context result) :
    Lower.Shifts context.image result known (core.lower context env false) before
      (before + core.type.weight) fun _ => True :=
  raises known env before false nofun

end Core

/-! ## Lists of parts -/

namespace Lower.Shifts

variable {α β γ : Type} {image : Image} {result before after : Nat} {known : List (Label × Nat)}

theorem mapM {items : List α} {action : α → Lower β}
    (each : ∀ item ∈ items,
      Shifts image result known (action item) before before fun _ => True) :
    Shifts image result known (items.mapM action) before before fun _ => True := by
  induction items with
  | nil => exact .pure trivial
  | cons item items ih =>
      rw [List.mapM_cons]
      refine (each item List.mem_cons_self).andThen fun _ => ?_
      exact (ih (List.forall_mem_cons.mp each).2).andThen
        fun _ => .pure trivial

/-- New labels, one for each item, can be kept for any depth. -/
theorem labels {items : List α} {view : α → γ} {next : List (γ × Label) → Lower β}
    {post : β → Prop} (depth : Nat)
    (goesOn : ∀ targets : List (γ × Label),
      Shifts image result (targets.map (fun target => (target.2, depth)) ++ known)
        (next targets) before after post) :
    Shifts image result known
      ((items.mapM fun item => do
        let label ← Lower.label
        return (view item, label)) >>= next) before after post := by
  induction items generalizing known next with
  | nil => exact goesOn []
  | cons item items ih =>
      simp only [List.mapM_cons, bind_assoc, pure_bind]
      refine label depth fun first => ?_
      refine @ih _ (fun targets => next ((view item, first) :: targets)) fun targets => ?_
      refine (goesOn ((view item, first) :: targets)).mono fun entry isEntry => ?_
      simp only [List.map_cons, List.cons_append, List.mem_cons, List.mem_append] at isEntry ⊢
      tauto

end Lower.Shifts

namespace Core

open Lower

variable {context : LowerContext} {env : Scope Binding} {result before after : Nat}
variable {known : List (Label × Nat)}
variable {clauses : List (Binder × Core)}
variable {items : List Core}

theorem lowerAll_shifts (each : ∀ item ∈ items, item.Pushes context result) :
    Shifts context.image result known (lowerAll context items env) before
      (before + items.length) fun _ => True := by
  induction items generalizing before with
  | nil => exact .pure trivial
  | cons item items ih =>
      refine (each item List.mem_cons_self).andThen fun _ => ?_
      have rest := @ih (before + 1) (List.forall_mem_cons.mp each).2
      rwa [Nat.add_assoc, Nat.add_comm 1] at rest

theorem lowerSeq_shifts {tail : Bool} (each : ∀ item ∈ items, item.Raises context result)
    (ends : tail = true → before = 0 ∧ (lastType items).weight = result) :
    Shifts context.image result known (lowerSeq context items env tail) before
      (before + (lastType items).weight) fun _ => True := by
  induction items with
  | nil => exact .pure trivial
  | cons item items ih =>
      cases items with
      | nil => exact each item List.mem_cons_self known env before tail ends
      | cons next items =>
          refine (each item List.mem_cons_self).inner.andThen fun _ => ?_
          refine Shifts.popValue.andThen fun _ => ?_
          exact ih (List.forall_mem_cons.mp each).2 ends

/-- The value so far stays on the stack while the exit is taken. -/
theorem lowerLogic_shifts {connective : Connective} {stop : Label} (nonempty : items ≠ [])
    (each : ∀ item ∈ items, item.Pushes context result) (isKnown : (stop, before + 1) ∈ known) :
    Shifts context.image result known (lowerLogic context items connective stop env) before
      (before + 1) fun _ => True := by
  induction items with
  | nil => exact (nonempty rfl).elim
  | cons item items ih =>
      have first : Shifts context.image result known (item.lower context env false) before
          (before + 1) fun _ => True := each item List.mem_cons_self
      cases items with
      | nil => exact first
      | cons next items =>
          have exits : Shifts context.image result known (Lower.emit (connective.exit stop))
              (before + 2) (before + 1) fun _ => True := by
            cases connective with
            | and => exact .branchFalse isKnown
            | or => exact .branchTrue isKnown
          refine first.andThen fun _ => Shifts.andThen (?_ : Shifts context.image result known _
            (before + 1) before fun _ => True) fun _ => ih (by simp)
              (List.forall_mem_cons.mp each).2
          exact (Shifts.step rfl).andThen fun _ => exits.andThen fun _ =>
            (Shifts.step rfl).andThen fun _ => .pure trivial

/-- Every arm starts where its label is, and goes on where all arms do. -/
theorem lowerArms_shifts {labels : List Label} {stop : Label} {type : SourceTy} {tail : Bool}
    (each : ∀ arm ∈ arms.map (·.2), arm.Raises context result ∧ arm.type = type)
    (ends : tail = true → before = 0 ∧ type.weight = result)
    (areKnown : ∀ label ∈ labels, (label, before) ∈ known)
    (isKnown : (stop, before + type.weight) ∈ known) :
    Shifts context.image result known (lowerArms context arms labels stop env tail) before
      before fun _ => True := by
  induction arms generalizing labels with
  | nil => exact .pure trivial
  | cons arm arms ih =>
      obtain ⟨values, arm⟩ := arm
      cases labels with
      | nil => exact .pure trivial
      | cons label labels =>
          obtain ⟨raises, rfl⟩ := each arm List.mem_cons_self
          refine (Shifts.mark (areKnown label List.mem_cons_self)).andThen fun _ => ?_
          refine (raises known env before tail ends).andThen fun _ => ?_
          refine (Shifts.branch before isKnown).andThen fun _ => ?_
          exact ih (List.forall_mem_cons.mp each).2
            (List.forall_mem_cons.mp areKnown).2

section

variable (each : ∀ init ∈ clauses.map (·.2), init.Pushes context result)
include each

theorem lowerNamed_shifts :
    Shifts context.image result known (lowerNamed context clauses env) before before
      fun _ => True := by
  induction clauses with
  | nil => exact .pure trivial
  | cons clause clauses ih =>
      obtain ⟨binder, init⟩ := clause
      refine (each init List.mem_cons_self).andThen fun _ => ?_
      refine LowerContext.bindTop_shifts.andThen fun _ => ?_
      exact (ih (List.forall_mem_cons.mp each).2).andThen
          fun _ => .pure trivial

theorem lowerClauses_shifts :
    Shifts context.image result known (lowerClauses context clauses env) before before
      fun _ => True := by
  induction clauses generalizing env with
  | nil => exact .pure trivial
  | cons clause clauses ih =>
      obtain ⟨binder, init⟩ := clause
      refine (each init List.mem_cons_self).andThen fun _ => ?_
      refine LowerContext.bindTop_shifts.andThen fun _ => ?_
      exact ih (List.forall_mem_cons.mp each).2

theorem lowerStores_shifts :
    Shifts context.image result known (lowerStores context clauses env) before before
      fun _ => True := by
  induction clauses with
  | nil => exact .pure trivial
  | cons clause clauses ih =>
      obtain ⟨binder, init⟩ := clause
      refine (Shifts.lift fun _ _ => trivial).andThen fun binding => ?_
      refine (LowerContext.store_shifts fun _ => each init List.mem_cons_self).andThen fun _ => ?_
      exact ih (List.forall_mem_cons.mp each).2

end

/-- There is a slot for each variable of a loop. -/
theorem lowerTemps_shifts {vars : List (Binder × Core)}
    (each : ∀ init ∈ vars.map (·.2), init.Pushes context result) :
    Shifts context.image result known (lowerTemps context vars env) before before
      fun slots => slots.length = vars.length := by
  induction vars with
  | nil => exact .pure rfl
  | cons var vars ih =>
      obtain ⟨binder, init⟩ := var
      refine (each init List.mem_cons_self).andThen fun _ => ?_
      refine LowerContext.storeTop_shifts.andThen fun _ => ?_
      refine (ih (List.forall_mem_cons.mp each).2).bind
          fun slots count => .pure ?_
      rw [List.length_cons, List.length_cons, count]

end Core

/-! ## Nodes -/

theorem Literal.depthAfter?_code (image : Image) (value : Literal) (depth : Nat) :
    Instr.depthAfter? image value.code depth = some (depth + 1) := by
  cases value <;>
    simp [code, Instr.depthAfter?, Instr.effect?, Instr.targets, Instr.fallsThrough]

theorem mem_jumpTable {otherwise label : Label} {arms : List (List UInt32 × Label)} {largest : Nat}
    (member : label ∈ jumpTable otherwise arms largest) :
    label = otherwise ∨ label ∈ arms.map (·.2) := by
  obtain ⟨value, -, rfl⟩ := List.mem_map.mp member
  split
  · rename_i found
    exact .inr (List.mem_map_of_mem (List.mem_of_find?_eq_some found))
  · exact .inl rfl

namespace Core

open Lower

variable {context : LowerContext} {returns : MethodKey → SourceTy → Prop} {result : Nat}
variable {test : Core}

theorem operands_subset (core : Core) : core.operands ⊆ core.parts := by
  intro part isOperand
  cases core <;> simp_all [operands, parts, inPlace]

theorem branches_subset (core : Core) : core.branches ⊆ core.parts := by
  intro part isBranch
  cases core <;> simp_all [branches, parts, inPlace]

/-! ### Branches -/

theorem when_raises {body : Core} (pushes : test.Pushes context result)
    (raises : body.Raises context result) (noValue : body.type.isVoid = true) :
    (when test body).Raises context result := by
  intro known env before tail ends
  have isNone : body.type.weight = 0 := if_pos noValue
  change Shifts _ _ _ _ before (before + body.type.weight) _
  rw [isNone, lower]
  refine Shifts.label before fun stop => ?_
  refine pushes.andThen fun _ => (Shifts.branchFalse List.mem_cons_self).andThen fun _ => ?_
  have shifts := raises ((stop, before) :: known) env before tail ends
  rw [isNone] at shifts
  exact shifts.andThen fun _ => .mark List.mem_cons_self

theorem cond_raises {yes no : Core} (pushes : test.Pushes context result)
    (raisesYes : yes.Raises context result) (raisesNo : no.Raises context result)
    (same : no.type = yes.type) : (cond test yes no).Raises context result := by
  intro known env before tail ends
  rw [lower]
  refine Shifts.label (before + yes.type.weight) fun stop => ?_
  refine pushes.andThen fun _ => ?_
  refine Shifts.label before fun otherwise => ?_
  refine (Shifts.branchFalse List.mem_cons_self).andThen fun _ => ?_
  refine (raisesYes _ env before tail ends).andThen fun _ => ?_
  refine (Shifts.branch before (by simp)).andThen fun _ => ?_
  refine (Shifts.mark List.mem_cons_self).andThen fun _ => ?_
  have shifts := raisesNo ((otherwise, before) :: (stop, before + yes.type.weight) :: known)
    env before tail
  rw [same] at shifts
  exact (shifts ends).andThen fun _ => .mark (by simp)

theorem while_raises {body : Core} (pushes : test.Pushes context result)
    (raises : body.Raises context result) : (.while test body : Core).Raises context result := by
  intro known env before tail ends
  rw [lower]
  refine Shifts.label before fun top => Shifts.label before fun stop => ?_
  refine (Shifts.mark (by simp)).andThen fun _ => ?_
  refine pushes.andThen fun _ => (Shifts.branchFalse List.mem_cons_self).andThen fun _ => ?_
  refine raises.inner.andThen fun _ => Shifts.popValue.andThen fun _ => ?_
  exact (Shifts.branch before (by simp)).andThen fun _ => .mark List.mem_cons_self

/-- Every way out of the jump table leads to an arm or to the default, on the same stack. -/
theorem switch_raises {selector default : Core} (pushes : selector.Pushes context result)
    (each : ∀ arm ∈ arms.map (·.2), arm.Raises context result ∧ arm.type = default.type)
    (raises : default.Raises context result) :
    (switch selector arms default).Raises context result := by
  intro known env before tail ends
  rw [lower]
  refine pushes.andThen fun _ => ?_
  split
  · exact (Shifts.step rfl).andThen fun _ => raises _ env before tail ends
  · refine Shifts.label before fun otherwise => ?_
    refine Shifts.label (before + default.type.weight) fun stop => ?_
    refine Shifts.labels before fun targets => ?_
    have areKnown : ∀ label ∈ targets.map (·.2), (label, before) ∈
        targets.map (fun target => (target.2, before)) ++
          (stop, before + default.type.weight) :: (otherwise, before) :: known := by
      intro label isLabel
      obtain ⟨target, isTarget, rfl⟩ := List.mem_map.mp isLabel
      exact List.mem_append_left _ (List.mem_map_of_mem isTarget)
    have stops : (stop, before + default.type.weight) ∈
        targets.map (fun target => (target.2, before)) ++
          (stop, before + default.type.weight) :: (otherwise, before) :: known :=
      List.mem_append_right _ List.mem_cons_self
    refine (Shifts.switch fun label isTarget => ?_).andThen fun _ => ?_
    · rcases mem_jumpTable isTarget with rfl | isArm
      · simp
      · exact areKnown label isArm
    refine (Shifts.branch before (by simp)).andThen fun _ => ?_
    refine (lowerArms_shifts each ends areKnown stops).andThen fun _ => ?_
    refine (Shifts.mark (by simp)).andThen fun _ => ?_
    exact (raises _ env before tail ends).andThen fun _ => .mark stops

/-! ### All nodes -/

/-- The code of an expression raises the depth of the stack by what its type stands for, if
every node in it fits. -/
theorem raises (sound : context.Sound returns) (core : Core)
    (fits : ∀ node ∈ core.preorder, node.Fits returns)
    (blocks : ∀ node ∈ core.preorder, ∀ block ∈ node.block? context.host,
      returns block.key block.ret) : core.Raises context result := by
  induction core using partInduction with
  | step core ih =>
      have own : ∀ part ∈ core.parts, part.Raises context result := fun part isPart =>
        ih part isPart (fun node isNode => fits node (mem_preorder_of_mem_parts isPart isNode))
          fun node isNode => blocks node (mem_preorder_of_mem_parts isPart isNode)
      obtain ⟨values, same, leaves⟩ := fits core core.mem_preorder_self
      have pushes : ∀ part ∈ core.operands, part.Pushes context result := fun part isOperand =>
        (own part (core.operands_subset isOperand)).pushes (values part isOperand)
      have ownBlock := blocks core core.mem_preorder_self
      clear ih fits blocks
      intro known env before tail ends
      cases core with
      | literal value =>
          have isOne : (literal value).type.weight = 1 := Ty.weight_eq_one leaves
          rw [isOne]
          exact .emitAll (value.depthAfter?_code _ _)
      | var name type =>
          have isOne : (var name type).type.weight = 1 := Ty.weight_eq_one leaves
          rw [isOne]
          exact (Shifts.lift fun _ _ => trivial).andThen fun _ => LowerContext.fetch_shifts
      | set name value =>
          refine (Shifts.lift fun _ _ => trivial).andThen fun _ => ?_
          exact LowerContext.store_shifts fun _ => pushes value List.mem_cons_self
      | seq items => exact lowerSeq_shifts own ends
      | logic connective items =>
          rw [lower]
          split
          · exact .step rfl
          · rename_i nonempty
            refine Shifts.label (before + 1) fun stop => ?_
            refine (lowerLogic_shifts (by simpa [Core.operands] using nonempty) pushes List.mem_cons_self).andThen
              fun _ => .mark List.mem_cons_self
      | when test body =>
          exact when_raises (pushes test List.mem_cons_self) (own body (by simp [parts, inPlace]))
            leaves _ _ _ _ ends
      | cond test yes no =>
          exact cond_raises (pushes test List.mem_cons_self) (own yes (by simp [parts, inPlace]))
            (own no (by simp [parts, inPlace])) (same no List.mem_cons_self) _ _ _ _ ends
      | «while» test body =>
          exact while_raises (pushes test List.mem_cons_self)
            (own body (by simp [parts, inPlace])) _ _ _ _ ends
      | switch selector arms default =>
          have each : ∀ arm ∈ arms.map (·.2), arm.Raises context result ∧
              arm.type = default.type := fun arm isArm =>
            ⟨own arm (branches_subset (switch selector arms default) isArm), same arm isArm⟩
          exact switch_raises (pushes selector List.mem_cons_self) each
            (own default (by simp [parts, inPlace])) _ _ _ _ ends
      | letPar clauses body =>
          refine (lowerNamed_shifts pushes).andThen fun bindings => ?_
          exact own body (by simp [parts]) _ _ _ _ ends
      | letSeq clauses body =>
          refine (lowerClauses_shifts pushes).andThen fun inner => ?_
          exact own body (by simp [parts]) _ _ _ _ ends
      | letRec clauses body =>
          refine (Shifts.mapM fun clause _ => ?_).andThen fun bindings => ?_
          · exact LowerContext.bindFresh_shifts.andThen fun _ => .pure trivial
          refine (lowerStores_shifts pushes).andThen fun _ => ?_
          exact own body (by simp [parts]) _ _ _ _ ends
      | loop id function vars ret captures body =>
          refine (lowerTemps_shifts pushes).bind fun slots count => ?_
          exact LowerContext.lowerLoopCall_shifts sound leaves.1 leaves.2.1 (by simpa using count) ends
      | lambda id params captures body =>
          have isOne : (lambda id params captures body).type.weight = 1 :=
            Ty.weight_eq_one (Ty.isVoid_delegate _ _)
          rw [isOne]
          exact LowerContext.lowerClosure_shifts sound
      | invoke type function args =>
          obtain ⟨params, signature, free, count⟩ := leaves
          refine (pushes function List.mem_cons_self).andThen fun _ => ?_
          refine (lowerAll_shifts (List.forall_mem_cons.mp pushes).2).andThen fun _ => ?_
          refine (LowerContext.delegateInvoke_shifts sound signature free).bind fun _ calls => ?_
          rw [Nat.add_assoc, ← count, Nat.add_comm 1]
          exact .emitCall calls ends
      | apply type action operands =>
          refine (lowerAll_shifts pushes).andThen fun _ => ?_
          exact LowerContext.lowerAction_shifts sound leaves
      | member type use operands =>
          exact LowerContext.lowerMember_shifts sound leaves (lowerAll_shifts pushes) ends
      | tryCatch id captures body catches =>
          exact LowerContext.lowerBlockCall_shifts sound rfl (ownBlock _ rfl) rfl
            fun _ => .pure trivial
      | tryFinally id captures body catches final =>
          exact LowerContext.lowerBlockCall_shifts sound rfl (ownBlock _ rfl) rfl
            fun _ => .pure trivial
      | pin id captures arrays body =>
          refine LowerContext.lowerBlockCall_shifts sound rfl (ownBlock _ rfl) rfl fun depth => ?_
          rw [lowerArrays_eq_lowerAll, List.length_map, ← List.length_map (·.2)]
          exact lowerAll_shifts pushes

end Core

end ClassForge
