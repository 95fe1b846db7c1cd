import ClassForge.Proofs.Code.StackEffects

/-!
# Generating code that keeps the stack balanced

`Lower.Shifts` says of an action that generates code how it changes the depth of the
evaluation stack, and `Lower.Returns` that the code ends with a return.  The rules here go
along with the ways in which such actions are put together.
-/

namespace ClassForge

/-! ## Actions that generate code -/

variable {α β : Type} {image : Image} {result : Nat} {known : List (Label × Nat)}
variable {before middle after : Nat}

theorem Lower.ofEmit_eq_ok {action : Emit α} {value : α} {emitter extended : Emitter} :
    (Lower.ofEmit action).run emitter = .ok (value, extended) ↔
      action.run emitter = .ok value extended := by
  unfold Lower.ofEmit
  cases ran : action.run emitter <;> simp [StateT.run, ran]

/-- The code that an action adds changes the depth of the stack from `before` to `after`:
if the depths so far agree with the code, and some labels are known to stand for positions
of certain depths, then there are depths for the new code that agree with it. -/
def Lower.Shifts (image : Image) (result : Nat) (known : List (Label × Nat)) (action : Lower α)
    (before after : Nat) (post : α → Prop) : Prop :=
  ∀ emitter ledger value extended, emitter.Balanced image result ledger →
    (∀ entry ∈ known, emitter.Reaches ledger entry.1 entry.2) →
    ledger.depth emitter.position = before → action.run emitter = .ok (value, extended) →
    post value ∧ ∃ later, emitter.Continues ledger extended later ∧
      extended.Balanced image result later ∧ later.depth extended.position = after

namespace Lower.Shifts

variable {action : Lower α} {post : α → Prop} {operands : Nat}
variable {instr : Instr} {method : MethodHandle}

theorem pure {value : α} {post : α → Prop} (holds : post value) :
    Shifts image result known (pure value) before before post := by
  intro emitter ledger other extended balanced _ isDepth ran
  cases ran
  exact ⟨holds, ledger, .refl _ _, balanced, isDepth⟩

theorem bind {action : Lower α} {next : α → Lower β} {between : α → Prop} {post : β → Prop}
    (first : Shifts image result known action before middle between)
    (second : ∀ value, between value → Shifts image result known (next value) middle after post) :
    Shifts image result known (action >>= next) before after post := by
  intro emitter ledger value extended balanced areKnown isDepth ran
  rw [StateT.run_bind] at ran
  obtain ⟨⟨early, partly⟩, ranFirst, ranSecond⟩ := bind_eq_ok.mp ran
  obtain ⟨holds, mid, continues, partlyBalanced, isMiddle⟩ :=
    first emitter ledger early partly balanced areKnown isDepth ranFirst
  obtain ⟨done, later, further, extendedBalanced, isAfter⟩ :=
    second early holds partly mid value extended partlyBalanced
      (fun entry isEntry => continues.reaches (areKnown entry isEntry)) isMiddle ranSecond
  exact ⟨done, later, continues.trans further, extendedBalanced, isAfter⟩

/-- One action after another, the first without a result of interest. -/
theorem andThen {next : α → Lower β} {between : α → Prop} {post : β → Prop}
    (first : Shifts image result known action before middle between)
    (second : ∀ value, Shifts image result known (next value) middle after post) :
    Shifts image result known (action >>= next) before after post :=
  first.bind fun value _ => second value

theorem imp {weaker : α → Prop} (shifts : Shifts image result known action before after post)
    (implies : ∀ value, post value → weaker value) :
    Shifts image result known action before after weaker := by
  intro emitter ledger value extended balanced areKnown isDepth ran
  obtain ⟨holds, rest⟩ := shifts emitter ledger value extended balanced areKnown isDepth ran
  exact ⟨implies value holds, rest⟩

/-- What holds with fewer labels known holds with more. -/
theorem mono {more : List (Label × Nat)}
    (shifts : Shifts image result known action before after post) (subset : known ⊆ more) :
    Shifts image result more action before after post :=
  fun emitter ledger value extended balanced areKnown =>
    shifts emitter ledger value extended balanced fun entry isEntry =>
      areKnown entry (subset isEntry)

theorem lift {outcome : Except Diagnostic α} (holds : ∀ value, outcome = .ok value → post value) :
    Shifts image result known (liftM outcome) before before post := by
  intro emitter ledger value extended balanced _ isDepth ran
  cases outcome with
  | error diagnostic => cases ran
  | ok other =>
      cases ran
      exact ⟨holds _ rfl, ledger, .refl _ _, balanced, isDepth⟩

theorem throw {diagnostic : Diagnostic} {post : α → Prop} :
    Shifts image result known (throw diagnostic : Lower α) before after post := by
  intro emitter ledger value extended _ _ _ ran
  cases ran

theorem ofImage {outcome : Except ImageError α} {post : α → Prop}
    (holds : ∀ value, outcome = .ok value → post value) :
    Shifts image result known (Lower.ofImage outcome) before before post := by
  cases outcome with
  | error error => exact throw
  | ok value => exact pure (holds value rfl)

/-! ### Instructions -/

/-- An instruction takes what is there, its targets are known at the depth that it leaves, and so is
what comes next, unless control does not go on. -/
theorem instruction (effect : StackEffect) (isEffect : instr.effect? image = some effect)
    (enough : effect.takes ≤ before)
    (targets : ∀ label ∈ instr.targets, (label, instr.targetDepth (before - effect.takes)) ∈ known)
    (left : instr.fallsThrough = true → before - effect.takes + effect.gives = after)
    (returns : instr = .ret → before = result)
    (ends : instr.isTailCall = true → effect.takes = before ∧ effect.gives = result) :
    Shifts image result known (Lower.emit instr) before after fun _ => True := by
  intro emitter ledger _ extended balanced areKnown isDepth ran
  cases ran
  have continues := emitter.continues_emit ledger instr after
  refine ⟨trivial, _, continues, balanced.emit ?_, emitter.depth_noted ledger instr after⟩
  have same := (continues.depth _ (Nat.le_refl _)).trans isDepth
  refine ⟨effect, isEffect, same ▸ enough, fun goesOn => ?_, fun label isTarget => ?_,
    same ▸ returns, same ▸ ends⟩
  · rw [same, left goesOn]
    exact Function.update_self ..
  · rw [same]
    exact areKnown _ (targets label isTarget)

/-- An instruction after which control goes on. -/
theorem emit (effect : StackEffect) (isEffect : instr.effect? image = some effect)
    (enough : effect.takes ≤ before) (left : before - effect.takes + effect.gives = after)
    (targets : ∀ label ∈ instr.targets, (label, instr.targetDepth (before - effect.takes)) ∈ known)
    (goesOn : instr.fallsThrough = true) :
    Shifts image result known (Lower.emit instr) before after fun _ => True := by
  refine instruction effect isEffect enough targets (fun _ => left) ?_ fun isTail => ?_
  · rintro rfl
    cases goesOn
  · rw [Instr.isTailCall_of_fallsThrough goesOn] at isTail
    cases isTail

/-- An instruction without targets, by its effect. -/
theorem step (ends : Instr.depthAfter? image [instr] before = some after) :
    Shifts image result known (Lower.emit instr) before after fun _ => True := by
  obtain ⟨effect, isEffect, ends⟩ := Option.bind_eq_some_iff.mp ends
  split at ends
  · rename_i allowed
    obtain ⟨enough, noTargets, goesOn⟩ := allowed
    exact emit effect isEffect enough (Option.some.inj ends) (by simp [noTargets]) goesOn
  · cases ends

/-- A conditional branch takes the condition, whether or not it is taken. -/
theorem branchFalse {label : Label} (isKnown : (label, before) ∈ known) :
    Shifts image result known (Lower.emit (.branchFalse label)) (before + 1) before
      fun _ => True :=
  emit ⟨1, 0⟩ rfl (Nat.le_add_left 1 _) rfl (by simpa [Instr.targets, Instr.targetDepth]) rfl

theorem branchTrue {label : Label} (isKnown : (label, before) ∈ known) :
    Shifts image result known (Lower.emit (.branchTrue label)) (before + 1) before
      fun _ => True :=
  emit ⟨1, 0⟩ rfl (Nat.le_add_left 1 _) rfl (by simpa [Instr.targets, Instr.targetDepth]) rfl

theorem switch {labels : List Label} (areKnown : ∀ label ∈ labels, (label, before) ∈ known) :
    Shifts image result known (Lower.emit (.switch labels)) (before + 1) before fun _ => True :=
  emit ⟨1, 0⟩ rfl (Nat.le_add_left 1 _) rfl (by simpa [Instr.targets, Instr.targetDepth]) rfl

/-- What comes after a branch is reached in other ways. -/
theorem branch {label : Label} (after : Nat) (isKnown : (label, before) ∈ known) :
    Shifts image result known (Lower.emit (.branch label)) before after fun _ => True :=
  instruction ⟨0, 0⟩ rfl (Nat.zero_le _) (by simpa [Instr.targets, Instr.targetDepth]) nofun nofun
    nofun

/-- What comes after a return is reached in other ways. -/
theorem ret : Shifts image result known (Lower.emit .ret) result after fun _ => True :=
  instruction ⟨0, 0⟩ rfl (Nat.zero_le _) (by simp [Instr.targets]) nofun (fun _ => rfl) nofun

/-- Code without branches. -/
theorem emitAll {instrs : List Instr}
    (ends : Instr.depthAfter? image instrs before = some after) :
    Shifts image result known (Lower.emitAll instrs) before after fun _ => True := by
  induction instrs generalizing before with
  | nil =>
      cases ends
      exact .pure trivial
  | cons instr instrs ih =>
      obtain ⟨effect, isEffect, ends⟩ := Option.bind_eq_some_iff.mp ends
      split at ends
      · rename_i allowed
        obtain ⟨enough, noTargets, goesOn⟩ := allowed
        exact (emit effect isEffect enough rfl (by simp [noTargets]) goesOn).andThen
          fun _ => ih ends
      · cases ends

theorem popValue {type : SourceTy} :
    Shifts image result known (Lower.popValue type) (before + type.weight) before
      fun _ => True := by
  unfold Lower.popValue Ty.weight
  split
  · exact .pure trivial
  · exact step rfl

/-- An instruction that takes operands and leaves results, when its effect is known. -/
theorem operate {operands results : Nat} (isEffect : instr.effect? image = some ⟨operands, results⟩)
    (noTargets : instr.targets = []) (goesOn : instr.fallsThrough = true) :
    Shifts image result known (Lower.emit instr) (before + operands) (before + results)
      fun _ => True :=
  emit ⟨operands, results⟩ isEffect (Nat.le_add_left _ _)
    (congrArg (· + results) (Nat.add_sub_cancel ..)) (by simp [noTargets]) goesOn

theorem newObject {ctor : CtorHandle} (constructs : image.Constructs operands ctor) :
    Shifts image result known (Lower.emit (.newObject ctor)) (before + operands) (before + 1)
      fun _ => True := by
  obtain ⟨info, isCtor, rfl⟩ := constructs
  refine operate ?_ rfl rfl
  simp [Instr.effect?, isCtor]

/-- The constructor of the base is called on the receiver, and leaves nothing. -/
theorem callCtor {ctor : CtorHandle} (constructs : image.Constructs operands ctor) :
    Shifts image result known (Lower.emit (.callCtor ctor)) (before + (operands + 1)) before
      fun _ => True := by
  obtain ⟨info, isCtor, rfl⟩ := constructs
  refine @operate _ _ _ _ _ _ 0 ?_ rfl rfl
  simp [Instr.effect?, isCtor]

theorem call {operands gives : Nat} (calls : image.Calls operands gives method) :
    Shifts image result known (Lower.emit (.call method false)) (before + operands)
      (before + gives) fun _ => True := by
  obtain ⟨info, isMethod, rfl, rfl⟩ := calls
  refine operate ?_ rfl rfl
  simp [Instr.effect?, isMethod]

/-- A call takes its operands and leaves its result, in tail position as the result of the
whole body. -/
theorem emitCall {isVirtual tail : Bool} {gives : Nat} (calls : image.Calls operands gives method)
    (ends : tail = true → before = 0 ∧ gives = result) :
    Shifts image result known (Lower.emitCall method isVirtual tail) (before + operands)
      (before + gives) fun _ => True := by
  obtain ⟨info, isMethod, takes, leaves⟩ := calls
  have isEffect : ∀ tail, (if isVirtual then Instr.callVirtual method tail
      else .call method tail).effect? image = some ⟨operands, gives⟩ := by
    intro tail
    cases isVirtual <;> simp [Instr.effect?, isMethod, takes, leaves]
  unfold Lower.emitCall
  cases tail with
  | false =>
      refine (operate (isEffect false) ?_ ?_).andThen fun _ => .pure trivial <;>
        cases isVirtual <;> rfl
  | true =>
      obtain ⟨rfl, gives⟩ := ends rfl
      have jump : Shifts image result known
          (Lower.emit (if isVirtual then .callVirtual method true else .call method true))
          (0 + operands) result fun _ => True := by
        refine instruction _ (isEffect true) (Nat.le_add_left _ _) ?_ ?_ ?_ ?_
        · cases isVirtual <;> simp [Instr.targets]
        · cases isVirtual <;> nofun
        · cases isVirtual <;> nofun
        · exact fun _ => ⟨(Nat.zero_add _).symm, gives⟩
      exact jump.andThen fun _ => ret

theorem forM {items : List α} {action : α → Lower Unit}
    (each : ∀ item ∈ items,
      Shifts image result known (action item) before before fun _ => True) :
    Shifts image result known (items.forM action) before before fun _ => True := by
  induction items with
  | nil => exact .pure trivial
  | cons item items ih =>
      refine (each item List.mem_cons_self).andThen fun _ => ?_
      exact ih (List.forall_mem_cons.mp each).2

/-- Items that push one value each. -/
theorem forM_push {items : List α} {action : α → Lower Unit}
    (each : ∀ item ∈ items, ∀ depth,
      Shifts image result known (action item) depth (depth + 1) fun _ => True) :
    Shifts image result known (items.forM action) before (before + items.length)
      fun _ => True := by
  induction items generalizing before with
  | nil => exact .pure trivial
  | cons item items ih =>
      refine (each item List.mem_cons_self before).andThen fun _ => ?_
      have rest := @ih (before + 1) (List.forall_mem_cons.mp each).2
      rwa [show before + 1 + items.length = before + (item :: items).length by simp; omega] at rest

/-! ### Labels -/

/-- A new label can be kept for any depth. -/
theorem label {next : Label → Lower β} {post : β → Prop} (depth : Nat)
    (goesOn : ∀ label, Shifts image result ((label, depth) :: known) (next label) before after
      post) :
    Shifts image result known (Lower.label >>= next) before after post := by
  intro emitter ledger value extended balanced areKnown isDepth ran
  have ran : (next ⟨emitter.labels.size⟩).run emitter.withLabel = .ok (value, extended) := ran
  have continues := emitter.continues_withLabel ledger depth
  have areKept : ∀ entry ∈ (⟨emitter.labels.size⟩, depth) :: known,
      emitter.withLabel.Reaches (emitter.keeping ledger depth) entry.1 entry.2 := by
    intro entry isEntry
    rcases List.mem_cons.mp isEntry with rfl | isKnown
    · exact emitter.reaches_withLabel ledger depth
    · exact continues.reaches (areKnown entry isKnown)
  obtain ⟨holds, later, further, rest⟩ :=
    goesOn _ _ _ value extended (balanced.withLabel depth) areKept isDepth ran
  exact ⟨holds, later, continues.trans further, rest⟩

/-- A label is put at a position of the depth that it was kept for. -/
theorem mark {label : Label} (isKnown : (label, before) ∈ known) :
    Shifts image result known (Lower.mark label) before before fun _ => True := by
  intro emitter ledger _ extended balanced areKnown isDepth ran
  obtain ⟨isOpen, rfl⟩ := Emitter.markLabel_eq_ok.mp (Lower.ofEmit_eq_ok.mp ran)
  exact ⟨trivial, ledger, emitter.continues_withMark ledger label, balanced.withMark
    (isDepth.trans (areKnown _ isKnown).2.symm), isDepth⟩

/-! ### Locals and blocks -/

/-- Operations that leave the code alone. -/
theorem declareLocal {type : RunTy} {pinned : Bool} :
    Shifts image result known (Lower.ofEmit (Emitter.declareLocal type pinned)) before before
      fun _ => True := by
  intro emitter ledger slot extended balanced _ isDepth ran
  have ran := Lower.ofEmit_eq_ok.mp ran
  unfold Emitter.declareLocal at ran
  rw [Emitter.bind_eq_ok] at ran
  obtain ⟨_, _, ⟨⟩, ran⟩ := ran
  split at ran
  · cases ran
    have continues : emitter.Continues ledger
        { emitter with locals := emitter.locals.push ⟨type, pinned⟩ } ledger :=
      ⟨Nat.le_refl _, Nat.le_refl _, fun _ _ => rfl, fun _ _ => rfl⟩
    exact ⟨trivial, ledger, continues, ⟨balanced.entry, balanced.flows, balanced.marked,
      balanced.regions, fun region isRegion =>
        continues.balancedRegion (balanced.pending region isRegion)⟩, isDepth⟩
  · cases ran

/-- The label behind a region is kept for an empty stack. -/
theorem beginTry :
    Shifts image result known (discard (modifyGet Emitter.beginTry)) before before
      fun _ => True := by
  intro emitter ledger _ extended balanced _ isDepth ran
  cases ran
  have labelled := emitter.continues_withLabel ledger 0
  have continues : emitter.Continues ledger (Emitter.beginTry emitter).2
      (emitter.keeping ledger 0) :=
    ⟨labelled.position, labelled.labels, labelled.depth, labelled.label⟩
  have after := balanced.withLabel 0
  refine ⟨trivial, _, continues,
    ⟨after.entry, after.flows, after.marked, after.regions, fun region isRegion => ?_⟩, isDepth⟩
  rcases List.mem_cons.mp isRegion with rfl | isOuter
  · exact ⟨emitter.reaches_withLabel ledger 0, nofun, nofun⟩
  · exact continues.balancedRegion (balanced.pending region isOuter)

/-- A handler starts with what it is entered with. -/
theorem beginCatch {type : RunTy} :
    Shifts image result known (Lower.ofEmit (Emitter.beginCatch type)) before 1
      fun _ => True := by
  intro emitter ledger _ extended balanced _ _ ran
  obtain ⟨closed, middle, isClosed, rfl⟩ := Emitter.beginCatch_eq_ok (Lower.ofEmit_eq_ok.mp ran)
  obtain ⟨after, continues, isDepth, isInnermost, -⟩ := balanced.closeBlock isClosed 1
  exact ⟨trivial, _, continues.trans (middle.continues_withHandler _ _ _),
    after.withHandler isInnermost isDepth, isDepth⟩

theorem beginFinally :
    Shifts image result known (Lower.ofEmit Emitter.beginFinally) before 0 fun _ => True := by
  intro emitter ledger _ extended balanced _ _ ran
  obtain ⟨closed, middle, isClosed, rfl⟩ := Emitter.beginFinally_eq_ok (Lower.ofEmit_eq_ok.mp ran)
  obtain ⟨after, continues, isDepth, isInnermost, -⟩ := balanced.closeBlock isClosed 0
  exact ⟨trivial, _, continues.trans (middle.continues_withHandler _ _ _),
    after.withHandler isInnermost isDepth, isDepth⟩

theorem endTry :
    Shifts image result known (Lower.ofEmit Emitter.endTry) before 0 fun _ => True := by
  intro emitter ledger _ extended balanced _ _ ran
  obtain ⟨closed, middle, isClosed, rfl⟩ := Emitter.endTry_eq_ok (Lower.ofEmit_eq_ok.mp ran)
  obtain ⟨after, continues, isDepth, isInnermost, -⟩ := balanced.closeBlock isClosed 0
  exact ⟨trivial, _, continues.trans (middle.continues_withRegion _ _),
    after.withRegion isInnermost isDepth, isDepth⟩

theorem optionForM {item : Option α} {action : α → Lower Unit}
    (each : ∀ value ∈ item,
      Shifts image result known (action value) before before fun _ => True) :
    Shifts image result known (item.forM action) before before fun _ => True := by
  cases item with
  | none => exact .pure trivial
  | some value => exact each value rfl

end Lower.Shifts

/-! ## Whole bodies -/

/-- The code ends with a return, and what is in it starts before the return. -/
structure Emitter.Ended (emitter : Emitter) : Prop where
  last : emitter.instrs.back? = some .ret
  labels : ∀ index position : Nat, emitter.labels[index]? = some (some position) →
    position < emitter.position
  handlers : ∀ region ∈ emitter.regions, ∀ handler ∈ region.handlers,
    handler.start < emitter.position

/-- The code that an action adds ends with a return, and there are depths that agree
with it. -/
def Lower.Returns (image : Image) (result : Nat) (action : Lower Unit) (before : Nat) : Prop :=
  ∀ emitter ledger extended, emitter.Balanced image result ledger →
    ledger.depth emitter.position = before → action.run emitter = .ok ((), extended) →
    extended.Ended ∧ ∃ later, extended.Balanced image result later

namespace Lower

theorem Shifts.returns {action : Lower α} {next : α → Lower Unit} {post : α → Prop}
    (first : Shifts image result [] action before middle post)
    (second : ∀ value, post value → Returns image result (next value) middle) :
    Returns image result (action >>= next) before := by
  intro emitter ledger extended balanced isDepth ran
  rw [StateT.run_bind] at ran
  obtain ⟨⟨value, partly⟩, ranFirst, ranSecond⟩ := bind_eq_ok.mp ran
  obtain ⟨holds, mid, -, partlyBalanced, isMiddle⟩ :=
    first emitter ledger value partly balanced nofun isDepth ranFirst
  exact second value holds partly mid extended partlyBalanced isMiddle ranSecond

theorem Returns.ret : Returns image result (Lower.emit .ret) result := by
  intro emitter ledger extended balanced isDepth ran
  have shifts : Shifts image result [] (Lower.emit .ret) result result fun _ => True := .ret
  obtain ⟨-, later, -, after, -⟩ := shifts emitter ledger () extended balanced nofun isDepth ran
  cases ran
  refine ⟨⟨?_, fun index position isMarked => ?_, fun region isRegion handler isHandler => ?_⟩,
    later, after⟩
  · simp [Emitter.emit]
  · rw [Emitter.position_emit]
    exact Nat.lt_succ_of_le (balanced.marked index position isMarked).1
  · rw [Emitter.position_emit]
    exact Nat.lt_succ_of_le (balanced.regions region isRegion handler isHandler).1

/-- A body whose code returns has depths that agree with it. -/
theorem Returns.balanced {action : Lower Unit} {body : Body}
    (returns : Returns image result action 0)
    (assembled : Lower.assemble action = .ok body) :
    ∃ depth, body.Balanced image result depth := by
  obtain ⟨⟨⟨⟩, emitter⟩, ran, finished⟩ := bind_eq_ok.mp assembled
  have start : Emitter.Balanced image result {} ⟨fun _ => 0, fun _ => 0⟩ :=
    ⟨rfl, by simp, by simp, by simp, by simp⟩
  obtain ⟨ended, ledger, balanced⟩ := returns {} _ emitter start rfl ran
  dsimp only at finished
  split at finished
  · rename_i found isBody
    cases finished
    obtain ⟨labels, areLabels, rfl⟩ := Emitter.finish_eq_ok isBody
    have inside : 0 < emitter.instrs.size := by
      have last := ended.last
      rw [Array.back?_eq_getElem?] at last
      obtain ⟨within, -⟩ := Array.getElem?_eq_some_iff.mp last
      omega
    refine ⟨ledger.depth, ⟨inside, balanced.entry⟩, ?_, ?_, ?_⟩
    · intro position instr isInstr
      refine (balanced.flows position instr isInstr).mono rfl rfl fun label depth reaches => ?_
      obtain ⟨target, isTarget, isMarked⟩ := areLabels label.index reaches.1
      exact ⟨target, isTarget, ended.labels _ _ isMarked,
        (balanced.marked _ _ isMarked).2.trans reaches.2⟩
    · intro position instr isInstr goesOn
      obtain ⟨within, isInstr⟩ := Array.getElem?_eq_some_iff.mp isInstr
      by_contra outside
      have last := ended.last
      rw [Array.back?_eq_getElem?, show emitter.instrs.size - 1 = position by
        dsimp only at within outside; omega, Array.getElem?_eq_getElem within] at last
      cases isInstr.symm.trans (Option.some.inj last)
      cases goesOn
    · exact fun region isRegion handler isHandler =>
        ⟨ended.handlers region isRegion handler isHandler,
          (balanced.regions region isRegion handler isHandler).2⟩
  · cases finished

end Lower

end ClassForge
