import ClassForge.Proofs.Code.WrittenCode
import ClassForge.Proofs.Image.PlatformObjects

/-!
# Labels of generated code

Code hands out labels and gives each of them a position once.  `Lower.Places labels` says of an
action that it does so: where these labels have no position yet, they and all labels that the action
hands out have one after it, and no other label gets one.  The code of an expression places its own
labels, so a body is finished whenever its code was generated.  The only refusals of the target are
then of members that it does not have, and of locals when there are too many.
-/

namespace ClassForge

/-- A fault that is no refusal of the target, or the refusal of one local too many. -/
def Diagnostic.SparesTarget (diagnostic : Diagnostic) : Prop :=
  ∀ error, diagnostic = .target error → error = .tooManyLocals

theorem Diagnostic.IsOwn.sparesTarget {diagnostic : Diagnostic} (own : diagnostic.IsOwn) :
    diagnostic.SparesTarget :=
  fun error isTarget => (own error isTarget).elim

/-! ## Emitters -/

namespace Emitter

/-- Some different labels have been handed out and have no position. -/
structure Awaits (emitter : Emitter) (labels : List Label) : Prop where
  distinct : labels.Nodup
  unplaced : ∀ label ∈ labels, emitter.labels[label.index]? = some none

/-- What was handed out has a position now, and so have some labels from before; the others are as
they were. -/
structure Placed (labels : List Label) (before after : Emitter) : Prop where
  grows : before.labels.size ≤ after.labels.size
  kept : ∀ label : Label, label.index < before.labels.size → label ∉ labels →
    after.labels[label.index]? = before.labels[label.index]?
  marked : ∀ label ∈ labels, ∃ position, after.labels[label.index]? = some (some position)
  fresh : ∀ index, before.labels.size ≤ index → index < after.labels.size →
    ∃ position, after.labels[index]? = some (some position)
  pending : after.pending = before.pending

variable {before middle after emitter : Emitter} {labels others : List Label}

theorem Awaits.lt (awaits : emitter.Awaits labels) {label : Label} (isLabel : label ∈ labels) :
    label.index < emitter.labels.size :=
  (Array.getElem?_eq_some_iff.mp (awaits.unplaced label isLabel)).1

theorem Awaits.perm (awaits : emitter.Awaits labels) (perm : labels.Perm others) :
    emitter.Awaits others where
  distinct := perm.nodup_iff.mp awaits.distinct
  unplaced label isLabel := awaits.unplaced label (perm.mem_iff.mpr isLabel)

theorem Placed.perm (placed : Placed labels before after) (perm : labels.Perm others) :
    Placed others before after where
  grows := placed.grows
  kept label isOld notOther := placed.kept label isOld fun isLabel => notOther (perm.mem_iff.mp isLabel)
  marked label isOther := placed.marked label (perm.mem_iff.mpr isOther)
  fresh := placed.fresh
  pending := placed.pending

/-- An emitter with the labels of another one has nothing to place. -/
theorem Placed.of_eq (same : after.labels = before.labels) (pending : after.pending = before.pending) :
    Placed [] before after where
  grows := by rw [same]
  kept _ _ _ := by rw [same]
  marked := nofun
  fresh index isNew isThere := by
    rw [same] at isThere
    omega
  pending := pending

/-- The first of two actions leaves the labels of the second alone. -/
theorem Awaits.after_first (awaits : before.Awaits (labels ++ others))
    (placed : Placed labels before middle) : middle.Awaits others := by
  obtain ⟨-, distinct, apart⟩ := List.nodup_append.mp awaits.distinct
  refine ⟨distinct, fun label isOther => ?_⟩
  have isThere : label ∈ labels ++ others := List.mem_append_right _ isOther
  rw [placed.kept label (awaits.lt isThere) fun isLabel => apart _ isLabel _ isOther rfl]
  exact awaits.unplaced label isThere

theorem Awaits.of_append (awaits : before.Awaits (labels ++ others)) : before.Awaits labels :=
  ⟨(List.nodup_append.mp awaits.distinct).1, fun label isLabel =>
    awaits.unplaced label (List.mem_append_left _ isLabel)⟩

theorem Placed.trans (awaits : before.Awaits (labels ++ others))
    (first : Placed labels before middle) (second : Placed others middle after) :
    Placed (labels ++ others) before after := by
  obtain ⟨-, -, apart⟩ := List.nodup_append.mp awaits.distinct
  have keeps : ∀ label : Label, label.index < middle.labels.size → label ∉ others →
      after.labels[label.index]? = middle.labels[label.index]? := second.kept
  refine ⟨first.grows.trans second.grows, fun label isOld notListed => ?_, fun label isListed => ?_,
    fun index isNew isThere => ?_, second.pending.trans first.pending⟩
  · rw [List.mem_append, not_or] at notListed
    rw [keeps label (isOld.trans_le first.grows) notListed.2, first.kept label isOld notListed.1]
  · rcases List.mem_append.mp isListed with isLabel | isOther
    · have isOld := (awaits.lt isListed).trans_le first.grows
      rw [keeps label isOld fun isOther => apart _ isLabel _ isOther rfl]
      exact first.marked label isLabel
    · exact second.marked label isOther
  · rcases Nat.lt_or_ge index middle.labels.size with early | late
    · have unlisted : (⟨index⟩ : Label) ∉ others := fun isOther =>
        Nat.not_lt.mpr isNew (awaits.lt (List.mem_append_right _ isOther))
      rw [keeps ⟨index⟩ early unlisted]
      exact first.fresh index isNew early
    · exact second.fresh index late isThere

/-- When all labels have a position and no block is open, a body is finished. -/
theorem Placed.finish (placed : Placed [] {} after) : ∃ body, after.finish = .ok body := by
  have all : ∀ entry ∈ after.labels.toList.zipIdx,
      ∃ position index, entry = (some position, index) := by
    rintro ⟨entry, index⟩ isEntry
    obtain ⟨isThere, isHere⟩ := List.mem_zipIdx' isEntry
    obtain ⟨position, isPosition⟩ := placed.fresh index (Nat.zero_le _) isThere
    refine ⟨position, index, ?_⟩
    rw [Array.getElem?_eq_getElem isThere, Option.some.injEq] at isPosition
    rw [isHere, Array.getElem_toList, isPosition]
  obtain ⟨positions, arePositions⟩ : ∃ positions,
      labelPositions after.labels.toList = .ok positions := by
    unfold labelPositions
    generalize after.labels.toList.zipIdx = entries at all
    induction entries with
    | nil => exact ⟨[], rfl⟩
    | cons entry entries ih =>
        obtain ⟨⟨position, index, rfl⟩, others⟩ := List.forall_mem_cons.mp all
        obtain ⟨positions, done⟩ := ih others
        exact ⟨position :: positions, by rw [List.mapM_cons, done]; rfl⟩
  have done : after.finish = .ok
      { instrs := after.instrs, labels := positions.toArray, locals := after.locals,
        regions := after.regions } := by
    unfold Emitter.finish
    rw [placed.pending, arePositions]
    rfl
  exact ⟨_, done⟩

end Emitter

/-! ## Actions -/

namespace Lower

/-- An action gives some labels and all that it hands out a position, and is refused only for want
of locals. -/
def Places (labels : List Label) {α : Type} (action : Lower α) : Prop :=
  ∀ before : Emitter, before.Awaits labels →
    Yields Diagnostic.SparesTarget (action.run before) fun result =>
      Emitter.Placed labels before result.2

namespace Places

variable {α β : Type} {labels others : List Label}

theorem perm {action : Lower α} (places : Places labels action) (perm : labels.Perm others) :
    Places others action :=
  fun before awaits => (places before (awaits.perm perm.symm)).imp fun _ placed =>
    placed.perm perm

theorem bind {action : Lower α} {next : α → Lower β} (first : Places labels action)
    (second : ∀ value, Places others (next value)) : Places (labels ++ others) (action >>= next) := by
  intro before awaits
  rw [StateT.run_bind]
  refine ((first before awaits.of_append).imp fun result placed => ?_).bind fun result places =>
    places
  exact (second result.1 result.2 (awaits.after_first placed)).imp fun _ last => placed.trans awaits last

/-- An action that places labels goes on after one that places its own. -/
theorem after {action : Lower α} {next : α → Lower β} (first : Places [] action)
    (second : ∀ value, Places labels (next value)) : Places labels (action >>= next) :=
  first.bind second

theorem pure (value : α) : Places [] (Pure.pure value : Lower α) :=
  fun _ _ => .of_eq rfl rfl

theorem throw {diagnostic : Diagnostic} (own : diagnostic.SparesTarget) :
    Places labels (MonadExcept.throw diagnostic : Lower α) :=
  fun _ _ => own

theorem lift {outcome : Except Diagnostic α}
    (spares : Yields Diagnostic.SparesTarget outcome fun _ => True) :
    Places [] (liftM outcome : Lower α) := by
  intro before _
  cases outcome with
  | error diagnostic => exact spares
  | ok value => exact .of_eq rfl rfl

theorem emit (instr : Instr) : Places [] (Lower.emit instr) :=
  fun _ _ => .of_eq rfl rfl

theorem newLocal (type : RunTy) : Places [] (ofEmit (Emitter.declareLocal type false)) := by
  intro before _
  rw [run_declareLocal]
  split
  · exact .of_eq rfl rfl
  · rintro _ ⟨⟩
    rfl

/-- A mark places its label. -/
theorem mark (label : Label) : Places [label] (Lower.mark label) := by
  intro before awaits
  have isOpen := awaits.unplaced label List.mem_cons_self
  rw [run_mark, isOpen]
  have size : (before.withMark label).labels.size = before.labels.size := by simp [Emitter.withMark]
  refine ⟨size.ge, fun other _ notListed => ?_, fun other isListed => ?_, fun index isNew isThere => ?_,
    rfl⟩
  · refine Array.getElem?_setIfInBounds_ne fun same => notListed ?_
    exact List.mem_singleton.mpr (congrArg Label.mk same).symm
  · obtain rfl := List.mem_singleton.mp isListed
    exact ⟨before.position, Array.getElem?_setIfInBounds_self_of_lt (awaits.lt isListed)⟩
  · exact absurd (size ▸ isThere) (Nat.not_lt.mpr isNew)

/-- Code that places a label too may be given a new one. -/
theorem label {next : Label → Lower β} (places : ∀ label, Places (label :: labels) (next label)) :
    Places labels (Lower.label >>= next) := by
  intro before awaits
  have ran : (Lower.label >>= next).run before =
      (next ⟨before.labels.size⟩).run before.withLabel := rfl
  have size : before.withLabel.labels.size = before.labels.size + 1 := by simp [Emitter.withLabel]
  have isNew : (⟨before.labels.size⟩ : Label) ∉ labels := fun isLabel =>
    Nat.lt_irrefl _ (awaits.lt isLabel)
  have opened : before.withLabel.Awaits (⟨before.labels.size⟩ :: labels) := by
    refine ⟨List.nodup_cons.mpr ⟨isNew, awaits.distinct⟩, fun label isListed => ?_⟩
    rcases List.mem_cons.mp isListed with rfl | isLabel
    · exact Array.getElem?_push_size
    · exact Image.getElem?_push_of_eq_some (awaits.unplaced label isLabel)
  rw [ran]
  refine (places _ _ opened).imp fun result placed => ?_
  have grows := placed.grows
  refine ⟨by omega, fun label isOld notListed => ?_, fun label isLabel => ?_,
    fun index isNew isThere => ?_, placed.pending⟩
  · have different : label ≠ ⟨before.labels.size⟩ := by
      rintro rfl
      exact Nat.lt_irrefl _ isOld
    rw [placed.kept label (by omega) (by simp [different, notListed]),
      Array.getElem?_eq_getElem isOld]
    exact Array.getElem?_push_lt isOld
  · exact placed.marked label (List.mem_cons_of_mem _ isLabel)
  · rcases Nat.eq_or_lt_of_le isNew with rfl | later
    · exact placed.marked _ List.mem_cons_self
    · exact placed.fresh index (by omega) isThere

/-- Code that places a label for each member of a list may be given new ones. -/
theorem labelEach {γ : Type} {items : List (γ × Core)} {next : List (γ × Label) → Lower β}
    (places : ∀ targets, targets.length = items.length →
      Places (targets.map (·.2) ++ labels) (next targets)) :
    Places labels ((items.mapM fun item => do
      let label ← Lower.label
      return (item.1, label)) >>= next) := by
  induction items generalizing labels next with
  | nil =>
      rw [List.mapM_nil, pure_bind]
      exact places [] rfl
  | cons item items ih =>
      simp only [List.mapM_cons, bind_assoc, pure_bind]
      refine label fun label => ih fun targets count => ?_
      exact (places ((item.1, label) :: targets) (congrArg (· + 1) count)).perm List.perm_middle.symm

end Places

end Lower

/-! ## Members that are there -/

namespace PlatformMember

/-- The platform has a member, whatever handles stand for the types that it is asked for with. -/
def Found (context : LowerContext) : PlatformMember → Prop
  | .method owner name isInstance params => ∀ type types, context.runTy owner = .ok type →
      context.runTys params = .ok types →
        ∃ handle, context.image.resolveMethod type name isInstance types = .ok handle
  | .ctor owner params => ∀ type types, context.runTy owner = .ok type →
      context.runTys params = .ok types → ∃ handle, context.image.resolveCtor type types = .ok handle
  | .field owner name => ∀ type, context.runTy owner = .ok type →
      ∃ handle, context.image.resolveField type name = .ok handle

end PlatformMember

namespace Lower

namespace Places

variable {context : LowerContext}

/-- What goes on with a result may rely on where it comes from. -/
theorem liftThen {α β : Type} {labels : List Label} {outcome : Except Diagnostic α}
    {next : α → Lower β} (spares : Yields Diagnostic.SparesTarget outcome fun _ => True)
    (places : ∀ value, outcome = .ok value → Places labels (next value)) :
    Places labels (liftM outcome >>= next) := by
  cases isOutcome : outcome with
  | error diagnostic =>
      rw [isOutcome] at spares
      exact fun _ _ => spares
  | ok value => exact places value isOutcome

theorem ofImage {α : Type} {result : Except ImageError α} (found : ∃ value, result = .ok value) :
    Places [] (Lower.ofImage result) := by
  obtain ⟨value, rfl⟩ := found
  exact pure value

theorem runTy_spares (context : LowerContext) (type : SourceTy) :
    Yields Diagnostic.SparesTarget (context.runTy type) fun _ => True :=
  (Resolution.runTy_isOwn type).permit fun _ own => own.sparesTarget

theorem runTys_spares (context : LowerContext) (types : List SourceTy) :
    Yields Diagnostic.SparesTarget (context.runTys types) fun _ => True :=
  (Resolution.runTys_isOwn types).permit fun _ own => own.sparesTarget

/-- The type of the cells of a variable stands for that of all cells. -/
theorem runTy_cell {content : SourceTy} {type : RunTy}
    (isType : context.runTy (.cell content) = .ok type) :
    ∃ inner, type = .generic Platform.cell [inner] := by
  obtain ⟨args, areArgs, ⟨⟩⟩ := bind_eq_ok.mp isType
  cases Ty.resolveList_eq_ok.mp areArgs with
  | cons isInner none =>
      cases none
      exact ⟨_, rfl⟩

/-- Placing its own labels is handed on, if what is asked for is there. -/
theorem sequential (built : context.image.Built) :
    Lower.Sequential context (PlatformMember.Found context) (Places []) where
  pure := pure
  bind first second := first.bind second
  lift outcome := lift (outcome.permit fun _ own => own.sparesTarget)
  throw own := throw own.sparesTarget
  emit := emit
  newLocal := newLocal
  method {owner _ _ params} found :=
    liftThen (runTy_spares context owner) fun _ isType =>
      liftThen (runTys_spares context params) fun _ areTypes => ofImage (found _ _ isType areTypes)
  ctor {owner params} found :=
    liftThen (runTy_spares context owner) fun _ isType =>
      liftThen (runTys_spares context params) fun _ areTypes => ofImage (found _ _ isType areTypes)
  field {owner _} found :=
    liftThen (runTy_spares context owner) fun _ isType => ofImage (found _ isType)
  cellField content := by
    intro type isType
    obtain ⟨inner, rfl⟩ := runTy_cell isType
    obtain ⟨cell, isCell⟩ := built.exists_cell
    have isField : (("Value", .object), 0) ∈ Library.cell.fields.zipIdx := by simp [Library.cell]
    exact built.exists_field_generic isCell rfl isField
  cellCtor content filled := by
    intro type types isType areTypes
    obtain ⟨inner, rfl⟩ := runTy_cell isType
    obtain ⟨cell, isCell⟩ := built.exists_cell
    have count := (Ty.resolveList_eq_ok.mp areTypes).length_eq
    cases filled with
    | false =>
        have isCtor : ⟨[], .cellCtorEmpty⟩ ∈ Library.cell.ctors := by simp [Library.cell]
        exact built.exists_ctor_generic isCell rfl isCtor count
    | true =>
        have isCtor : ⟨[.object], .cellCtor⟩ ∈ Library.cell.ctors := by simp [Library.cell]
        exact built.exists_ctor_generic isCell rfl isCtor count

end Places

end Lower

/-! ## Expressions -/

namespace Core

open Lower

variable {context : LowerContext}

/-- The code of the arms of a `switch` places their labels. -/
theorem lowerArms_places {arms : List (List UInt32 × Core)} {labels : List Label} {stop : Label}
    {env : Scope Binding} {tail : Bool} (count : labels.length = arms.length)
    (each : ∀ arm ∈ arms.map (·.2), ∀ env tail, Places [] (arm.lower context env tail)) :
    Places labels (lowerArms context arms labels stop env tail) := by
  induction arms generalizing labels with
  | nil =>
      obtain rfl := List.length_eq_zero_iff.mp count
      exact .pure _
  | cons arm arms ih =>
      obtain ⟨values, arm⟩ := arm
      obtain ⟨label, labels, rfl⟩ := List.exists_cons_of_length_eq_add_one count
      have here : Places [] (arm.lower context env tail) := each arm List.mem_cons_self env tail
      refine (Places.mark label).bind fun _ => here.after fun _ => (Places.emit _).after fun _ => ?_
      exact ih (Nat.succ.inj count) (List.forall_mem_cons.mp each).2

/-- The code of an expression places its own labels, if the members are there that its nodes ask
for. -/
theorem lower_places (built : context.image.Built) (core : Core)
    (asks : ∀ node ∈ core.preorder, ∀ member ∈ node.platformMembers, member.Found context)
    (env : Scope Binding) (tail : Bool) : Places [] (core.lower context env tail) := by
  have handsOn := Places.sequential built
  refine handsOn.lower (fun core isLabelled each env tail => ?_) core asks env tail
  have operands : ∀ part ∈ core.operands, ∀ env, Places [] (part.lower context env false) :=
    fun part isOperand env => each part (core.operands_subset isOperand) env false
  cases core with
  | logic connective items =>
      unfold Core.lower
      split
      · exact .emit _
      · exact .label fun stop => (handsOn.lowerLogic operands).after fun _ => .mark stop
  | when test body =>
      have isBody : body ∈ (Core.when test body).parts := by simp [Core.parts, Core.inPlace]
      exact .label fun stop => (operands test List.mem_cons_self env).after fun _ =>
        (Places.emit _).after fun _ => (each body isBody env tail).after fun _ => .mark stop
  | cond test yes no =>
      have isYes : yes ∈ (Core.cond test yes no).parts := by simp [Core.parts, Core.inPlace]
      have isNo : no ∈ (Core.cond test yes no).parts := by simp [Core.parts, Core.inPlace]
      exact .label fun stop => (operands test List.mem_cons_self env).after fun _ =>
        .label fun otherwise => (Places.emit _).after fun _ => (each yes isYes env tail).after fun _ =>
          (Places.emit _).after fun _ => (Places.mark otherwise).bind fun _ =>
            (each no isNo env tail).after fun _ => .mark stop
  | «while» test body =>
      have isBody : body ∈ (Core.while test body).parts := by simp [Core.parts, Core.inPlace]
      refine .label fun top => .label fun stop => Places.perm ?_ (List.Perm.swap stop top [])
      exact (Places.mark top).bind fun _ => (operands test List.mem_cons_self env).after fun _ =>
        (Places.emit _).after fun _ => (each body isBody env false).after fun _ =>
          (handsOn.popValue _).after fun _ => (Places.emit _).after fun _ => .mark stop
  | switch selector arms default =>
      have isDefault : default ∈ (Core.switch selector arms default).parts := by
        simp [Core.parts, Core.inPlace]
      unfold Core.lower
      refine (operands selector List.mem_cons_self env).after fun _ => ?_
      split
      · exact (Places.emit _).after fun _ => each default isDefault env tail
      · refine .label fun otherwise => .label fun stop => .labelEach fun targets count => ?_
        refine Places.perm ?_ ((List.Perm.swap stop otherwise []).append_left _)
        refine (Places.emit _).after fun _ => (Places.emit _).after fun _ =>
          (lowerArms_places ((List.length_map _).trans count) fun arm isArm => each arm ?_).bind fun _ =>
            (Places.mark otherwise).bind fun _ => (each default isDefault env tail).after fun _ =>
              .mark stop
        exact branches_subset (Core.switch selector arms default) isArm
  | _ => cases isLabelled

end Core

/-! ## Bodies -/

namespace Lower

/-- The body of code that places its labels is finished. -/
theorem Places.assemble {action : Lower Unit} (places : Places [] action) :
    Yields Diagnostic.SparesTarget (assemble action) fun _ => True := by
  refine (places {} ⟨List.nodup_nil, nofun⟩).bind fun result placed => ?_
  obtain ⟨body, finished⟩ := placed.finish
  obtain ⟨⟨⟩, emitter⟩ := result
  dsimp only at finished ⊢
  rw [finished]
  trivial

end Lower

section Bodies

open Lower

variable {context : LowerContext} (built : context.image.Built)
include built

/-- Generating the code of a method spares the target. -/
theorem Routine.code_spares {routine : Routine}
    (asks : ∀ node ∈ routine.body.preorder, ∀ member ∈ node.platformMembers, member.Found context) :
    Yields Diagnostic.SparesTarget (routine.code context) fun _ => True :=
  Places.assemble <| ((Places.sequential built).bindParams _ _ _).after fun _ =>
    (Places.sequential built).lowerResult (routine.body.lower_places built asks _) _

/-- Generating the code of a constructor spares the target. -/
theorem CtorRoutine.code_spares {routine : CtorRoutine}
    (base : ∀ callee ∈ routine.base, callee.ctorKey? = none → callee.platformCtor.Found context)
    (asks : ∀ root ∈ routine.roots, ∀ node ∈ root.preorder, ∀ member ∈ node.platformMembers,
      member.Found context) :
    Yields Diagnostic.SparesTarget (routine.code context) fun _ => True := by
  have handsOn := Places.sequential built
  have lowers : ∀ root ∈ routine.roots, ∀ env tail, Places [] (root.lower context env tail) :=
    fun root isRoot => root.lower_places built (asks root isRoot)
  refine Places.assemble <| (handsOn.bindParams _ _ _).after fun env => Places.after ?_ fun _ =>
    handsOn.lowerResult (lowers _ (by simp [CtorRoutine.roots]) env) _
  cases isBase : routine.base with
  | none => exact .pure _
  | some callee =>
      exact (handsOn.calleeCtor (base callee isBase)).after fun _ => (Places.emit _).after fun _ =>
        (handsOn.lowerAll fun arg isArg env =>
          lowers arg (by simp [CtorRoutine.roots, isArg]) env false).after fun _ => .emit _

/-- Generating the code that fills the object behind a function spares the target. -/
theorem Closure.ctorCode_spares (closure : Closure)
    (object : (PlatformMember.ctor .object []).Found context) :
    Yields Diagnostic.SparesTarget (closure.ctorCode context) fun _ => True :=
  have handsOn := Places.sequential built
  Places.assemble <| (handsOn.ctor object).after fun _ => (handsOn.emitAll _).after fun _ =>
    (handsOn.storeCells closure _ _).after fun _ => .emit _

/-- Generating the code of a function spares the target. -/
theorem Closure.invokeCode_spares {closure : Closure}
    (asks : ∀ node ∈ closure.body.preorder, ∀ member ∈ node.platformMembers, member.Found context) :
    Yields Diagnostic.SparesTarget (closure.invokeCode context) fun _ => True :=
  have handsOn := Places.sequential built
  Places.assemble <| (handsOn.lift (context.bindFields_isOwn closure _ _)).after fun _ =>
    (handsOn.bindParams _ _ _).after fun _ =>
      handsOn.lowerResult (closure.body.lower_places built asks _) _

end Bodies

end ClassForge
