import ClassForge.Proofs.Code.ComposedCode

/-!
# What generating code writes

An action that generates code leads from one emitter to another one.  `Lower.Writes` says from
which to which, and takes actions apart that are put together.  Code is only ever added: what an
emitter has written, the labels that it has placed and the slots that it has handed out stay, so
they are those of the finished body.
-/

namespace ClassForge

namespace Lower

variable {α β : Type} {before after : Emitter} {value : α}
variable {done : Unit}
variable {result : β} {outcome : Except Diagnostic α} {instr : Instr}

/-- An action gives a value and leads from one emitter to another one. -/
def Writes (action : Lower α) (before : Emitter) (value : α) (after : Emitter) : Prop :=
  action.run before = .ok (value, after)

theorem writes_bind {action : Lower α} {next : α → Lower β} :
    (action >>= next).Writes before result after ↔
      ∃ value middle, action.Writes before value middle ∧ (next value).Writes middle result after := by
  unfold Writes
  rw [StateT.run_bind, bind_eq_ok]
  exact Prod.exists

theorem writes_pure {result : α} :
    (pure result : Lower α).Writes before value after ↔ value = result ∧ after = before := by
  constructor
  · rintro ⟨⟩
    exact ⟨rfl, rfl⟩
  · rintro ⟨rfl, rfl⟩
    rfl

theorem writes_lift :
    (liftM outcome : Lower α).Writes before value after ↔ outcome = .ok value ∧ after = before := by
  cases outcome with
  | error diagnostic => exact iff_of_false nofun nofun
  | ok result =>
      constructor
      · rintro ⟨⟩
        exact ⟨rfl, rfl⟩
      · rintro ⟨⟨⟩, rfl⟩
        rfl

theorem writes_ofImage {outcome : Except ImageError α} :
    (ofImage outcome).Writes before value after ↔ outcome = .ok value ∧ after = before := by
  cases outcome with
  | error error => exact iff_of_false nofun nofun
  | ok result =>
      exact writes_pure.trans (by simp [eq_comm])

theorem writes_throw {diagnostic : Diagnostic} :
    ¬ (throw diagnostic : Lower α).Writes before value after :=
  nofun

theorem writes_emit : (emit instr).Writes before done after ↔ after = before.emit instr := by
  constructor
  · rintro ⟨⟩
    rfl
  · rintro rfl
    rfl

/-- First an instruction, then the rest. -/
theorem writes_emit_bind {next : Unit → Lower β} :
    (emit instr >>= next).Writes before result after ↔
      (next ()).Writes (before.emit instr) result after := by
  rw [writes_bind]
  constructor
  · rintro ⟨_, middle, early, late⟩
    obtain rfl := writes_emit.mp early
    exact late
  · intro late
    exact ⟨(), _, writes_emit.mpr rfl, late⟩

theorem writes_emitAll_nil : (emitAll []).Writes before done after ↔ after = before :=
  writes_pure.trans (and_iff_right rfl)

theorem writes_emitAll_cons {instrs : List Instr} :
    (emitAll (instr :: instrs)).Writes before done after ↔
      (emitAll instrs).Writes (before.emit instr) done after :=
  writes_emit_bind

/-- First something that writes nothing, then the rest. -/
theorem writes_lift_bind {next : α → Lower β} :
    (liftM outcome >>= next).Writes before result after ↔
      ∃ value, outcome = .ok value ∧ (next value).Writes before result after := by
  rw [writes_bind]
  constructor
  · rintro ⟨value, middle, early, late⟩
    obtain ⟨found, rfl⟩ := writes_lift.mp early
    exact ⟨value, found, late⟩
  · rintro ⟨value, found, late⟩
    exact ⟨value, before, writes_lift.mpr ⟨found, rfl⟩, late⟩

theorem writes_label {label : Label} :
    Lower.label.Writes before label after ↔
      label = ⟨before.labels.size⟩ ∧ after = before.withLabel := by
  constructor
  · rintro ⟨⟩
    exact ⟨rfl, rfl⟩
  · rintro ⟨rfl, rfl⟩
    rfl

theorem writes_label_bind {next : Label → Lower β} :
    (Lower.label >>= next).Writes before result after ↔
      (next ⟨before.labels.size⟩).Writes before.withLabel result after := by
  rw [writes_bind]
  constructor
  · rintro ⟨label, middle, early, late⟩
    obtain ⟨rfl, rfl⟩ := writes_label.mp early
    exact late
  · intro late
    exact ⟨_, _, writes_label.mpr ⟨rfl, rfl⟩, late⟩

/-- How an operation of the emitter ends. -/
theorem run_ofEmit (action : Emit α) (emitter : Emitter) :
    (Lower.ofEmit action).run emitter = match action.run emitter with
      | .ok value after => .ok (value, after)
      | .error error _ => .error (.target error) := by
  unfold Lower.ofEmit
  cases ran : action.run emitter <;> simp [StateT.run, ran]

/-- How giving a label a position ends. -/
theorem run_mark (label : Label) (emitter : Emitter) :
    (Lower.mark label).run emitter = match emitter.labels[label.index]? with
      | some none => .ok ((), emitter.withMark label)
      | some (some _) => .error (.target (.labelMarkedTwice label.index))
      | none => .error (.target (.unmarkedLabel label.index)) := by
  rw [Lower.mark, run_ofEmit, Emitter.markLabel, EStateM.run_bind, EStateM.run_get]
  dsimp only
  cases emitter.labels[label.index]? with
  | none => rfl
  | some position? => cases position? <;> rfl

/-- How handing out a local slot ends. -/
theorem run_declareLocal (type : RunTy) (pinned : Bool) (emitter : Emitter) :
    (Lower.ofEmit (Emitter.declareLocal type pinned)).run emitter =
      if emitter.locals.size < Emitter.maxLocals then
        .ok (emitter.locals.size, { emitter with locals := emitter.locals.push ⟨type, pinned⟩ })
      else .error (.target .tooManyLocals) := by
  rw [run_ofEmit, Emitter.declareLocal, EStateM.run_bind, EStateM.run_get]
  dsimp only
  by_cases room : emitter.locals.size < Emitter.maxLocals
  · rw [if_pos room, if_pos room]
    rfl
  · rw [if_neg room, if_neg room]
    rfl

theorem writes_mark {label : Label} :
    (mark label).Writes before done after ↔
      before.labels[label.index]? = some none ∧ after = before.withMark label := by
  unfold Writes
  rw [run_mark]
  cases before.labels[label.index]? with
  | none => simp
  | some position? => cases position? <;> simp [eq_comm]

theorem writes_declareLocal {type : RunTy} {slot : Nat} :
    (ofEmit (Emitter.declareLocal type false)).Writes before slot after ↔
      before.locals.size < Emitter.maxLocals ∧ slot = before.locals.size ∧
        after = { before with locals := before.locals.push ⟨type, false⟩ } := by
  unfold Writes
  rw [run_declareLocal]
  split <;> simp_all [eq_comm]

end Lower

/-! ## Code that is there to stay -/

namespace Emitter

variable {emitter : Emitter}

/-- No local that has been handed out holds arrays in place. -/
def Unpinned (emitter : Emitter) : Prop :=
  ∀ decl ∈ emitter.locals, decl.pinned = false

/-- Later code: what was written, placed and handed out before is still there, and no new local
holds arrays in place. -/
structure Precedes (before after : Emitter) : Prop where
  instrs : ∀ (position : Nat) (instr : Instr), before.instrs[position]? = some instr →
    after.instrs[position]? = some instr
  labels : ∀ index position : Nat, before.labels[index]? = some (some position) →
    after.labels[index]? = some (some position)
  locals : before.locals.size ≤ after.locals.size
  unpinned : before.Unpinned → after.Unpinned

/-- The code of an emitter is part of a finished body. -/
structure PlacedIn (emitter : Emitter) (body : Body) : Prop where
  instrs : ∀ (position : Nat) (instr : Instr), emitter.instrs[position]? = some instr →
    body.instrs[position]? = some instr
  labels : ∀ index position : Nat, emitter.labels[index]? = some (some position) →
    body.labels[index]? = some position
  locals : emitter.locals.size ≤ body.locals.size

variable {before middle after : Emitter} {body : Body}

theorem Precedes.refl (emitter : Emitter) : emitter.Precedes emitter :=
  ⟨fun _ _ => id, fun _ _ => id, Nat.le_refl _, id⟩

theorem Precedes.trans (first : before.Precedes middle) (second : middle.Precedes after) :
    before.Precedes after where
  instrs position instr isInstr := second.instrs _ _ (first.instrs position instr isInstr)
  labels index position isPlaced := second.labels _ _ (first.labels index position isPlaced)
  locals := first.locals.trans second.locals
  unpinned := second.unpinned ∘ first.unpinned

theorem precedes_emit (emitter : Emitter) (instr : Instr) :
    emitter.Precedes (emitter.emit instr) where
  instrs position other found := by
    obtain ⟨within, -⟩ := Array.getElem?_eq_some_iff.mp found
    rwa [emit, Array.getElem?_push_lt within, ← Array.getElem?_eq_getElem within]
  labels _ _ := id
  locals := Nat.le_refl _
  unpinned := id

theorem precedes_withMark {label : Label} (isOpen : emitter.labels[label.index]? = some none) :
    emitter.Precedes (emitter.withMark label) where
  instrs _ _ := id
  labels index position found := by
    have other : label.index ≠ index := by
      rintro rfl
      cases isOpen.symm.trans found
    simpa [withMark, Array.getElem?_setIfInBounds, other] using found
  locals := Nat.le_refl _
  unpinned := id

theorem precedes_withLabel (emitter : Emitter) : emitter.Precedes emitter.withLabel where
  instrs _ _ := id
  labels _ _ := Image.getElem?_push_of_eq_some
  locals := Nat.le_refl _
  unpinned := id

/-- Code of a part is code of the whole. -/
theorem PlacedIn.of_precedes (placed : after.PlacedIn body) (precedes : before.Precedes after) :
    before.PlacedIn body where
  instrs position instr isInstr := placed.instrs _ _ (precedes.instrs position instr isInstr)
  labels index position isPlaced := placed.labels _ _ (precedes.labels index position isPlaced)
  locals := precedes.locals.trans placed.locals

@[simp]
theorem position_withLabel (emitter : Emitter) : emitter.withLabel.position = emitter.position :=
  rfl

@[simp]
theorem position_withMark (emitter : Emitter) (label : Label) :
    (emitter.withMark label).position = emitter.position :=
  rfl

/-- The instruction that was written last. -/
theorem PlacedIn.last {instr : Instr} (placed : (emitter.emit instr).PlacedIn body) :
    body.instrs[emitter.position]? = some instr :=
  placed.instrs _ _ (by simp [emit, position])

theorem PlacedIn.before_emit {instr : Instr} (placed : (emitter.emit instr).PlacedIn body) :
    emitter.PlacedIn body :=
  placed.of_precedes (emitter.precedes_emit instr)

/-- A label goes where it was placed. -/
theorem PlacedIn.target {label : Label} (placed : (emitter.withMark label).PlacedIn body)
    (isOpen : emitter.labels[label.index]? = some none) :
    body.target? label = some emitter.position := by
  refine placed.labels _ _ ?_
  simp [withMark, (Array.getElem?_eq_some_iff.mp isOpen).1]

/-- Finished code. -/
theorem placedIn_of_finish (finished : emitter.finish = .ok body) : emitter.PlacedIn body := by
  obtain ⟨labels, arePlaced, rfl⟩ := finish_eq_ok finished
  refine ⟨fun _ _ => id, fun index position isPlaced => ?_, Nat.le_refl _⟩
  obtain ⟨within, -⟩ := Array.getElem?_eq_some_iff.mp isPlaced
  obtain ⟨target, isTarget, same⟩ := arePlaced index within
  cases same.symm.trans isPlaced
  exact isTarget

end Emitter

/-! ## Actions only add code -/

namespace Lower

/-- An action keeps what was written before it. -/
def Adds {α : Type} (action : Lower α) : Prop :=
  ∀ before value after, action.Writes before value after → before.Precedes after

namespace Adds

variable {α β : Type}

theorem pure (value : α) : (pure value : Lower α).Adds := by
  rintro before _ after written
  obtain ⟨-, rfl⟩ := writes_pure.mp written
  exact .refl _

theorem bind {action : Lower α} {next : α → Lower β} (first : action.Adds)
    (second : ∀ value, (next value).Adds) : (action >>= next).Adds := by
  intro before result after written
  obtain ⟨value, middle, early, late⟩ := writes_bind.mp written
  exact (first _ _ _ early).trans (second value _ _ _ late)

theorem lift (outcome : Except Diagnostic α) : (liftM outcome : Lower α).Adds := by
  intro before value after written
  obtain ⟨-, rfl⟩ := writes_lift.mp written
  exact .refl _

theorem ofImage (outcome : Except ImageError α) : (Lower.ofImage outcome).Adds := by
  intro before value after written
  obtain ⟨-, rfl⟩ := writes_ofImage.mp written
  exact .refl _

theorem throw (diagnostic : Diagnostic) : (throw diagnostic : Lower α).Adds :=
  fun _ _ _ written => (writes_throw written).elim

theorem emit (instr : Instr) : (Lower.emit instr).Adds := by
  intro before _ after written
  obtain rfl := writes_emit.mp written
  exact before.precedes_emit instr

theorem forM {γ : Type} {items : List γ} {action : γ → Lower Unit}
    (each : ∀ item, (action item).Adds) : (items.forM action).Adds := by
  induction items with
  | nil => exact pure ()
  | cons item items ih => exact (each item).bind fun _ => ih

theorem mapM {γ : Type} {items : List γ} {action : γ → Lower β}
    (each : ∀ item, (action item).Adds) : (items.mapM action).Adds := by
  induction items with
  | nil => exact pure []
  | cons item items ih =>
      rw [List.mapM_cons]
      exact (each item).bind fun _ => ih.bind fun _ => pure _

theorem emitAll (instrs : List Instr) : (Lower.emitAll instrs).Adds :=
  forM emit

theorem emitCall (method : MethodHandle) (isVirtual tail : Bool) :
    (Lower.emitCall method isVirtual tail).Adds := by
  refine (emit _).bind fun _ => ?_
  split
  · exact emit _
  · exact pure _

theorem popValue (type : SourceTy) : (Lower.popValue type).Adds := by
  unfold Lower.popValue
  split
  · exact pure _
  · exact emit _

theorem label : Lower.label.Adds := by
  intro before value after written
  obtain ⟨-, rfl⟩ := writes_label.mp written
  exact before.precedes_withLabel

theorem mark (label : Label) : (Lower.mark label).Adds := by
  intro before value after written
  obtain ⟨isOpen, rfl⟩ := writes_mark.mp written
  exact Emitter.precedes_withMark isOpen

theorem declareLocal (type : RunTy) : (Lower.ofEmit (Emitter.declareLocal type false)).Adds := by
  intro before value after written
  obtain ⟨-, -, rfl⟩ := writes_declareLocal.mp written
  refine ⟨fun _ _ => id, fun _ _ => id, by simp, fun unpinned decl isDecl => ?_⟩
  rcases Array.mem_push.mp isDecl with old | rfl
  · exact unpinned decl old
  · rfl

/-- Whatever is asked of the platform, adding code is handed on. -/
theorem compositional (context : LowerContext) :
    Lower.Compositional context (fun _ => True) Adds where
  pure := pure
  bind := bind
  lift _ := lift _
  throw _ := throw _
  emit := emit
  label := label
  mark := mark
  newLocal := declareLocal
  method _ := (lift _).bind fun _ => (lift _).bind fun _ => .ofImage _
  ctor _ := (lift _).bind fun _ => (lift _).bind fun _ => .ofImage _
  field _ := (lift _).bind fun _ => .ofImage _
  cellField _ := trivial
  cellCtor _ _ := trivial

end Adds

end Lower

namespace LowerContext

open Lower

variable (context : LowerContext)

theorem platformCtor_adds (owner : SourceTy) (params : List SourceTy) :
    (context.platformCtor owner params).Adds :=
  (Adds.compositional context).ctor trivial

theorem delegateInvoke_adds (delegate : SourceTy) : (context.delegateInvoke delegate).Adds :=
  (Adds.compositional context).delegateInvoke fun _ _ => trivial

theorem storeTop_adds (type : SourceTy) : (context.storeTop type).Adds :=
  (Adds.compositional context).storeTop type

theorem newCell_adds (content : SourceTy) (filled : Bool) : (context.newCell content filled).Adds :=
  (Adds.compositional context).newCell content filled

theorem bindTop_adds (type : SourceTy) (boxed : Bool) : (context.bindTop type boxed).Adds :=
  (Adds.compositional context).bindTop type boxed

theorem bindFresh_adds (type : SourceTy) (boxed : Bool) : (context.bindFresh type boxed).Adds :=
  (Adds.compositional context).bindFresh type boxed

theorem load_adds (place : Place) : place.load.Adds := by
  cases place with
  | argument slot => exact .emit _
  | localSlot slot => exact .emit _
  | receiverField field => exact .emitAll _

theorem fetch_adds (binding : Binding) : (context.fetch binding).Adds :=
  (Adds.compositional context).fetch binding

theorem store_adds (binding : Binding) {value : Lower Unit} (pushes : value.Adds) :
    (context.store binding value).Adds :=
  (Adds.compositional context).store binding pushes

theorem fetchCells_adds (env : Scope Binding) (captures : List Param) :
    (env.fetchCells captures).Adds := by
  refine .forM fun capture => (Adds.lift _).bind fun binding => ?_
  unfold Binding.fetchCell
  split
  · exact load_adds _
  · exact .throw _

theorem lowerAction_adds (action : Action) : (context.lowerAction action).Adds :=
  (Adds.compositional context).lowerAction fun _ _ => trivial

theorem lowerClosure_adds (closure : Closure) (env : Scope Binding) :
    (context.lowerClosure closure env).Adds :=
  (Adds.compositional context).lowerClosure trivial env

end LowerContext

namespace Core

open Lower

variable {context : LowerContext} {env : Scope Binding}

/-- Generating the code of an expression keeps what was written before it. -/
theorem lower_adds (core : Core) (env : Scope Binding) (tail : Bool) :
    (core.lower context env tail).Adds :=
  (Adds.compositional context).lower core (fun _ _ _ _ => trivial) env tail

theorem lowerAll_adds (items : List Core) : (lowerAll context items env).Adds :=
  (Adds.compositional context).lowerAll fun item _ env => item.lower_adds env false

theorem lowerLogic_adds (items : List Core) (connective : Connective) (stop : Label) :
    (lowerLogic context items connective stop env).Adds :=
  (Adds.compositional context).lowerLogic fun item _ env => item.lower_adds env false

theorem lowerArms_adds (arms : List (List UInt32 × Core)) (labels : List Label) (stop : Label)
    (tail : Bool) : (lowerArms context arms labels stop env tail).Adds :=
  (Adds.compositional context).lowerArms fun arm _ env tail => arm.lower_adds env tail

theorem lowerNamed_adds (clauses : List (Binder × Core)) :
    (lowerNamed context clauses env).Adds :=
  (Adds.compositional context).lowerNamed fun init _ env => init.lower_adds env false

theorem lowerClauses_adds (clauses : List (Binder × Core)) :
    (lowerClauses context clauses env).Adds :=
  (Adds.compositional context).lowerClauses fun init _ env => init.lower_adds env false

theorem lowerTemps_adds (vars : List (Binder × Core)) : (lowerTemps context vars env).Adds :=
  (Adds.compositional context).lowerTemps fun init _ env => init.lower_adds env false

end Core

end ClassForge
