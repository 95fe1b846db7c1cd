import ClassForge.Proofs.Code.EmitterCalls
import ClassForge.Proofs.Machine.ConfinedCode
import ClassForge.Proofs.Simulation.RunningCode

/-!
# The layout of exception blocks

The code of a `try` block is that of its body, of its handlers and of its final part, in this
order.  Each of these leads only to itself and to its end, where its value is kept or dropped and
the part is left by way of the region; after the region the value is returned.  A `TryLayout` says
where all of this lies in the finished body.
-/

namespace ClassForge

variable {context : LowerContext} {scope : Scope Binding} {clauses : List (CatchBinder × Core)}

/-! ## Layouts -/

/-- Where a part of a block lies.  The code of its expression goes from `start` to `done`; its value
is kept or dropped there, and the instruction at `exit` leaves the part. -/
structure Extent where
  start : Nat
  done : Nat
  exit : Nat

/-- Where the parts of a `try` block lie. -/
structure TryLayout where
  /-- The local in which a value is kept until the region is left. -/
  result : Option Nat
  guarded : Extent
  /-- The handlers with the types that they catch. -/
  catches : List (RunTy × Extent)
  final : Option Extent
  /-- Position after the whole region. -/
  stop : Nat

namespace TryLayout

/-- The parts in their order. -/
def extents (layout : TryLayout) : List Extent :=
  layout.guarded :: layout.catches.map (·.2) ++ layout.final.toList

/-- The handlers of a layout. -/
def handlers (layout : TryLayout) : List Handler :=
  layout.catches.map (fun clause => ⟨.catching clause.1, clause.2.start, clause.2.exit + 1⟩) ++
    layout.final.toList.map fun extent => ⟨.final, extent.start, extent.exit + 1⟩

/-- The region of a layout. -/
def region (layout : TryLayout) : Region :=
  ⟨layout.guarded.start, layout.guarded.exit + 1, layout.handlers⟩

/-- The number of locals that no part may assign. -/
def least (layout : TryLayout) : Nat :=
  layout.result.elim 0 (· + 1)

/-- What keeps the value of the body or of a handler. -/
def keeps (layout : TryLayout) : List Instr :=
  layout.result.toList.map .storeLocal

/-- What returns the value that was kept. -/
def returns (layout : TryLayout) : List Instr :=
  layout.result.toList.map .loadLocal ++ [.ret]

/-- With one more handler. -/
def withCatch (layout : TryLayout) (type : RunTy) (extent : Extent) : TryLayout :=
  { layout with catches := layout.catches ++ [(type, extent)] }

end TryLayout

/-- The label after the region of a block. -/
def stopLabel : Label :=
  ⟨0⟩

/-- The code between two positions leads only to itself and to its end. -/
def Body.Encloses (body : Body) (least start done : Nat) : Prop :=
  ∀ position, start ≤ position → position < done →
    ∃ instr, body.instrs[position]? = some instr ∧ instr.isInner least = true ∧
      ∀ label ∈ instr.targets, ∃ target, body.target? label = some target ∧
        start ≤ target ∧ target ≤ done

/-- Some instructions stand in a body from a position on. -/
def Body.HasCode (body : Body) (position : Nat) (code : List Instr) : Prop :=
  ∀ index instr, code[index]? = some instr → body.instrs[position + index]? = some instr

/-- A part of a block: the code of an expression, what becomes of its value, and its exit. -/
structure Body.HasPart (body : Body) (least : Nat) (extent : Extent) (glue : List Instr)
    (exit : Instr) : Prop where
  starts : extent.start ≤ extent.done
  encloses : body.Encloses least extent.start extent.done
  leaves : body.HasCode extent.done (glue ++ [exit])
  exit : extent.exit = extent.done + glue.length

/-- A body consists of the parts of a `try` block. -/
structure TryLayout.Fits (layout : TryLayout) (body : Body) : Prop where
  regions : body.regions = [layout.region]
  unpinned : body.Unpinned
  stop : body.target? stopLabel = some layout.stop
  first : layout.guarded.start = 0
  guarded : body.HasPart layout.least layout.guarded layout.keeps (.leave stopLabel)
  catches : ∀ clause ∈ layout.catches,
    body.HasPart layout.least clause.2 layout.keeps (.leave stopLabel)
  final : ∀ extent ∈ layout.final, ∃ drops, (drops = [] ∨ drops = [.pop]) ∧
    body.HasPart layout.least extent drops .endFinally
  returns : body.HasCode layout.stop layout.returns
  ordered : layout.extents.Pairwise (·.exit < ·.start)
  ends : ∀ extent ∈ layout.extents, extent.exit < layout.stop

/-- Some code of a body was written by an action. -/
def Lower.WrittenAt (action : Lower Unit) (body : Body) (extent : Extent) : Prop :=
  ∃ before after, action.Writes before () after ∧ before.position = extent.start ∧
    after.position = extent.done ∧ after.PlacedIn body

/-- The code of a handler without what is around it. -/
def LowerContext.handlerCode (context : LowerContext) (handler : CatchBinder) (body : Core)
    (scope : Scope Binding) : Lower Unit := do
  let inner ← context.bindException handler scope
  body.lower context inner false

/-- The parts of a block are the code of the parts of a `try` expression, in its order. -/
structure TryLayout.Renders (layout : TryLayout) (context : LowerContext) (scope : Scope Binding)
    (guarded : Core) (clauses : List (CatchBinder × Core)) (final : Option Core) (body : Body) :
    Prop where
  result : layout.result.isSome = !guarded.type.isVoid
  guarded : (guarded.lower context scope false).WrittenAt body layout.guarded
  catches : List.Forall₂ (fun clause (part : RunTy × Extent) =>
    context.runTy clause.1.type = .ok part.1 ∧
      (context.handlerCode clause.1 clause.2 scope).WrittenAt body part.2) clauses layout.catches
  final : Option.Rel (fun (final : Core) extent =>
    (final.lower context scope false).WrittenAt body extent) final layout.final

/-! ## Later code -/

namespace Emitter

variable {before middle after : Emitter}

/-- Later code that gives no position to the labels that were handed out before, other than to the
one after the region. -/
structure Follows (after before : Emitter) : Prop where
  precedes : before.Precedes after
  labels : before.labels.size ≤ after.labels.size
  settled : ∀ index position : Nat, 0 < index → index < before.labels.size →
    after.labels[index]? = some (some position) → before.labels[index]? = some (some position)

theorem Follows.refl (emitter : Emitter) : emitter.Follows emitter :=
  ⟨.refl _, Nat.le_refl _, fun _ _ _ _ => id⟩

theorem Follows.trans (second : after.Follows middle) (first : middle.Follows before) :
    after.Follows before where
  precedes := first.precedes.trans second.precedes
  labels := first.labels.trans second.labels
  settled index position isOther within isPlaced :=
    first.settled index position isOther within
      (second.settled index position isOther (within.trans_le first.labels) isPlaced)

theorem Confines.follows {least : Nat} (confines : before.Confines [] least after) :
    after.Follows before where
  precedes := confines.precedes
  labels := confines.labels
  settled index position _ within isPlaced := by
    rcases confines.placed index position isPlaced with already | ⟨isKnown, -⟩
    · exact already
    · rcases isKnown with isKnown | isNew
      · cases isKnown
      · exact absurd within (Nat.not_lt.mpr isNew)

theorem follows_emit (emitter : Emitter) (instr : Instr) : (emitter.emit instr).Follows emitter :=
  ⟨emitter.precedes_emit instr, Nat.le_refl _, fun _ _ _ _ => id⟩

/-- Instructions one after the other. -/
def emits (emitter : Emitter) (code : List Instr) : Emitter :=
  code.foldl emit emitter

theorem follows_emits (emitter : Emitter) (code : List Instr) :
    (emitter.emits code).Follows emitter := by
  induction code generalizing emitter with
  | nil => exact .refl _
  | cons instr code ih => exact (ih (emitter.emit instr)).trans (emitter.follows_emit instr)

theorem position_emits (emitter : Emitter) (code : List Instr) :
    (emitter.emits code).position = emitter.position + code.length := by
  induction code generalizing emitter with
  | nil => rfl
  | cons instr code ih =>
      refine (ih (emitter.emit instr)).trans ?_
      simp only [position, emit, Array.size_push, List.length_cons]
      omega

theorem instrs_emits (emitter : Emitter) (code : List Instr) :
    ∀ index instr, code[index]? = some instr →
      (emitter.emits code).instrs[emitter.position + index]? = some instr := by
  induction code generalizing emitter with
  | nil => nofun
  | cons first code ih =>
      intro index instr isInstr
      cases index with
      | zero =>
          cases isInstr
          refine ((emitter.emit first).follows_emits code).precedes.instrs _ _ ?_
          simp [emit, position]
      | succ index =>
          have later := ih (emitter.emit first) index instr isInstr
          rwa [show (emitter.emit first).position + index = emitter.position + (index + 1) by
            simp only [position, emit, Array.size_push]
            omega] at later

theorem emits_append (emitter : Emitter) (code more : List Instr) :
    emitter.emits (code ++ more) = (emitter.emits code).emits more :=
  List.foldl_append

/-- Only instructions change. -/
theorem emits_fields (emitter : Emitter) (code : List Instr) :
    (emitter.emits code).pending = emitter.pending ∧ (emitter.emits code).regions = emitter.regions ∧
      (emitter.emits code).labels = emitter.labels ∧ (emitter.emits code).locals = emitter.locals := by
  induction code generalizing emitter with
  | nil => exact ⟨rfl, rfl, rfl, rfl⟩
  | cons instr code ih => exact ih (emitter.emit instr)

/-! ## Parts -/

/-- A part whose code an action has written. -/
structure HasPart (emitter : Emitter) (least : Nat) (action : Lower Unit) (extent : Extent)
    (glue : List Instr) (exit : Instr) : Prop where
  written : ∃ before after, action.Writes before () after ∧ before.Confines [] least after ∧
    0 < before.labels.size ∧ before.position = extent.start ∧ after.position = extent.done ∧
      emitter.Follows after
  leaves : ∀ index instr, (glue ++ [exit])[index]? = some instr →
    emitter.instrs[extent.done + index]? = some instr
  exit : extent.exit = extent.done + glue.length

variable {least : Nat} {action : Lower Unit} {extent : Extent} {glue : List Instr} {exit : Instr}

theorem HasPart.follows (part : before.HasPart least action extent glue exit)
    (follows : after.Follows before) : after.HasPart least action extent glue exit where
  written := by
    obtain ⟨first, last, written, confines, some', isStart, isDone, later⟩ := part.written
    exact ⟨first, last, written, confines, some', isStart, isDone, follows.trans later⟩
  leaves index instr isInstr := follows.precedes.instrs _ _ (part.leaves index instr isInstr)
  exit := part.exit

variable {body : Body}

/-- A label of finished code has the position that it was given. -/
theorem settled_of_finish (finished : after.finish = .ok body) (follows : after.Follows before)
    {label : Label} (isOther : 0 < label.index) (within : label.index < before.labels.size) :
    ∃ target, body.target? label = some target ∧
      before.labels[label.index]? = some (some target) := by
  obtain ⟨labels, arePlaced, rfl⟩ := finish_eq_ok finished
  obtain ⟨target, isTarget, isPlaced⟩ := arePlaced _ (within.trans_le follows.labels)
  exact ⟨target, isTarget, follows.settled _ _ isOther within isPlaced⟩

theorem HasPart.finish (part : after.HasPart least action extent glue exit)
    (finished : after.finish = .ok body) :
    body.HasPart least extent glue exit ∧ action.WrittenAt body extent := by
  have placed := placedIn_of_finish finished
  obtain ⟨first, last, written, confines, some', isStart, isDone, later⟩ := part.written
  refine ⟨⟨?_, ?_, ?_, part.exit⟩, first, last, written, isStart, isDone,
    placed.of_precedes later.precedes⟩
  · rw [← isStart, ← isDone]
    exact confines.precedes.position
  · intro position from' upTo
    rw [← isStart] at from'
    rw [← isDone] at upTo
    have isInstr : last.instrs[position]? = some (last.instrs.getInternal position upTo) :=
      Array.getElem?_eq_getElem upTo
    refine ⟨_, placed.instrs _ _ (later.precedes.instrs _ _ isInstr),
      confines.inner position _ from' isInstr, fun label isTarget => ?_⟩
    rcases confines.targets position _ label from' isInstr isTarget with isKnown | ⟨isNew, within⟩
    · cases isKnown
    · obtain ⟨target, found, isPlaced⟩ :=
        settled_of_finish finished later (Nat.lt_of_lt_of_le some' isNew) within
      refine ⟨target, found, ?_⟩
      rcases confines.placed _ _ isPlaced with already | ⟨-, low, high⟩
      · exact absurd (Array.getElem?_eq_some_iff.mp already).1 (Nat.not_lt.mpr isNew)
      · exact ⟨isStart ▸ low, isDone ▸ high⟩
  · exact fun index instr isInstr => placed.instrs _ _ (part.leaves index instr isInstr)

end Emitter

/-! ## Regions under construction -/

namespace Emitter

variable {least : Nat} {region closed : OpenRegion} {start middle last after : Emitter}

theorem closeBlock_pending (isPending : middle.pending = [region])
    (ran : closeBlock.run middle = .ok closed after) :
    closed = region.closedAt (middle.position + 1) ∧
      after = { middle.emit region.exit with pending := [closed] } := by
  rw [run_closeBlock, isPending] at ran
  cases ran
  exact ⟨rfl, rfl⟩

/-- Code within a region that is the only one. -/
structure Within (emitter : Emitter) (least : Nat) (region : OpenRegion) : Prop where
  pending : emitter.pending = [region]
  regions : emitter.regions = []
  isOpen : emitter.labels[0]? = some none
  locals : least ≤ emitter.locals.size
  unpinned : emitter.Unpinned

theorem Confines.isOpen (confines : start.Confines [] least last) {index : Nat}
    (isOpen : start.labels[index]? = some none) : last.labels[index]? = some none := by
  obtain ⟨within, -⟩ := Array.getElem?_eq_some_iff.mp isOpen
  have inRange : index < last.labels.size := within.trans_le confines.labels
  have found := Array.getElem?_eq_getElem inRange
  cases isLabel : last.labels[index] with
  | none => rw [found, isLabel]
  | some position =>
      rw [isLabel] at found
      rcases confines.placed index position found with already | ⟨isKnown | isNew, -⟩
      · cases isOpen.symm.trans already
      · cases isKnown
      · exact absurd within (Nat.not_lt.mpr isNew)

/-- Closing a part whose code has been written. -/
theorem Within.close (within : start.Within least region) {action : Lower Unit} {glue : List Instr}
    (written : action.Writes start () last) (confines : start.Confines [] least last)
    (ran : closeBlock.run (last.emits glue) = .ok closed after) :
    closed = region.closedAt (last.position + glue.length + 1) ∧ after.Within least closed ∧
      after.Follows start ∧ after.position = last.position + glue.length + 1 ∧
      after.HasPart least action ⟨start.position, last.position, last.position + glue.length⟩ glue
        region.exit := by
  obtain ⟨samePending, sameRegions, sameLabels, sameLocals⟩ := last.emits_fields glue
  obtain ⟨rfl, rfl⟩ :=
    closeBlock_pending (samePending.trans (confines.pending.trans within.pending)) ran
  have isPosition := last.position_emits glue
  have later : Follows { (last.emits glue).emit region.exit with
      pending := [region.closedAt ((last.emits glue).position + 1)] } last := by
    have follows := ((last.emits glue).follows_emit region.exit).trans (last.follows_emits glue)
    exact ⟨⟨follows.precedes.instrs, follows.precedes.labels, follows.precedes.locals,
      follows.precedes.unpinned⟩, follows.labels, follows.settled⟩
  have labelled : 0 < start.labels.size := (Array.getElem?_eq_some_iff.mp within.isOpen).1
  refine ⟨by rw [isPosition], ⟨rfl, ?_, ?_, ?_, ?_⟩, later.trans confines.follows, ?_,
    ⟨⟨start, last, written, confines, labelled, rfl, rfl, later⟩, ?_, rfl⟩⟩
  · exact sameRegions.trans (confines.regions.trans within.regions)
  · exact (congrArg (·[0]?) sameLabels).trans (confines.isOpen within.isOpen)
  · exact (within.locals.trans confines.precedes.locals).trans (Nat.le_of_eq (by rw [← sameLocals]; rfl))
  · exact later.precedes.unpinned (confines.precedes.unpinned within.unpinned)
  · rw [← isPosition]
    simp [position, emit]
  · intro index instr isInstr
    have found := last.instrs_emits (glue ++ [region.exit]) index instr isInstr
    rwa [emits_append] at found

/-- Code in which a handler of a closed region begins. -/
theorem Within.withHandler (within : middle.Within least region) (kind : HandlerKind) :
    (middle.withHandler region kind).Within least
      { region with current := some (kind, middle.position) } where
  pending := by
    rw [Emitter.withHandler, within.pending]
    rfl
  regions := within.regions
  isOpen := within.isOpen
  locals := within.locals
  unpinned := within.unpinned

theorem follows_withHandler (region : OpenRegion) (kind : HandlerKind) :
    (middle.withHandler region kind).Follows middle :=
  ⟨⟨fun _ _ => id, fun _ _ => id, Nat.le_refl _, id⟩, Nat.le_refl _, fun _ _ _ _ => id⟩

end Emitter

/-! ## Blocks under construction -/

namespace TryLayout

variable {body : Core} {last middle : Emitter}

/-- The region with all parts closed. -/
def openRegion (layout : TryLayout) : OpenRegion :=
  ⟨stopLabel, layout.guarded.start, some (layout.guarded.exit + 1), layout.handlers, none⟩

variable {context : LowerContext} {scope : Scope Binding} {guarded : Core}
variable {clauses : List (CatchBinder × Core)} {final : Option Core}
variable {layout : TryLayout} {emitter later : Emitter}

/-- Code in which all parts of a block have been written and closed. -/
structure Built (layout : TryLayout) (context : LowerContext) (scope : Scope Binding)
    (guarded : Core) (clauses : List (CatchBinder × Core)) (final : Option Core)
    (emitter : Emitter) : Prop where
  within : emitter.Within layout.least layout.openRegion
  result : layout.result.isSome = !guarded.type.isVoid
  first : layout.guarded.start = 0
  guarded : emitter.HasPart layout.least (guarded.lower context scope false) layout.guarded
    layout.keeps (.leave stopLabel)
  catches : List.Forall₂ (fun clause (part : RunTy × Extent) =>
    context.runTy clause.1.type = .ok part.1 ∧
      emitter.HasPart layout.least (context.handlerCode clause.1 clause.2 scope) part.2 layout.keeps
        (.leave stopLabel)) clauses layout.catches
  final : Option.Rel (fun (final : Core) extent => ∃ drops, (drops = [] ∨ drops = [.pop]) ∧
    emitter.HasPart layout.least (final.lower context scope false) extent drops .endFinally)
    final layout.final
  ordered : layout.extents.Pairwise (·.exit < ·.start)
  ends : ∀ extent ∈ layout.extents, extent.exit < emitter.position

/-- Code in which all parts of a block have been written, and the last one has yet to be closed. -/
def Ready (layout : TryLayout) (context : LowerContext) (scope : Scope Binding)
    (guarded : Core) (clauses : List (CatchBinder × Core)) (final : Option Core)
    (emitter : Emitter) : Prop :=
  ∀ closed middle, Emitter.closeBlock.run emitter = .ok closed middle →
    closed = layout.openRegion ∧ layout.Built context scope guarded clauses final middle

/-- What was built stays in later code. -/
theorem Built.catches_follow (built : layout.Built context scope guarded clauses final emitter)
    (follows : later.Follows emitter) :
    List.Forall₂ (fun clause (part : RunTy × Extent) =>
      context.runTy clause.1.type = .ok part.1 ∧
        later.HasPart layout.least (context.handlerCode clause.1 clause.2 scope) part.2 layout.keeps
          (.leave stopLabel)) clauses layout.catches :=
  built.catches.imp fun _ _ ⟨isType, part⟩ => ⟨isType, part.follows follows⟩

/-- Keeping a value writes the instruction for it. -/
theorem writes_keepResult {result : Option Nat} {done : Unit} :
    (LowerContext.keepResult result).Writes emitter done later ↔
      later = emitter.emits (result.toList.map .storeLocal) := by
  cases result with
  | none => exact Lower.writes_pure.trans (and_iff_right rfl)
  | some slot => exact Lower.writes_emit

theorem handlerCode_confined {least : Nat} (handler : CatchBinder)
    (confined : body.IsConfined context least) (spares : scope.Spares least) :
    Lower.Confined [] least (context.handlerCode handler body scope) fun _ => True := by
  have binds : Lower.Confined [] least (context.bindException handler scope)
      (Scope.Spares least) := by
    unfold LowerContext.bindException
    split
    · exact (Lower.Confined.emit rfl (List.forall_mem_nil _)).andThen fun _ => .pure spares
    · exact (context.bindTop_confined _ _).bind fun _ fits => .pure (spares.bind fits)
  exact binds.bind fun _ fits => confined _ _ fits

/-- The body of a block. -/
theorem ready_guarded {start : Emitter}
    (within : start.Within layout.least ⟨stopLabel, start.position, none, [], none⟩)
    (isResult : layout.result.isSome = !guarded.type.isVoid)
    (confined : guarded.IsConfined context layout.least) (spares : scope.Spares layout.least)
    (isFirst : start.position = 0)
    (written : (guarded.lower context scope false).Writes start () last)
    (isLayout : layout.guarded =
      ⟨start.position, last.position, last.position + layout.keeps.length⟩)
    (noCatches : layout.catches = []) (noFinal : layout.final = none) :
    layout.Ready context scope guarded [] none (last.emits layout.keeps) := by
  intro closed middle ran
  obtain ⟨confines, -⟩ := confined [] scope spares _ _ _ within.locals written
  obtain ⟨rfl, inside, -, isPosition, part⟩ := within.close written confines ran
  have isClosed : OpenRegion.closedAt ⟨stopLabel, start.position, none, [], none⟩
      (last.position + layout.keeps.length + 1) = layout.openRegion := by
    simp [OpenRegion.closedAt, openRegion, handlers, isLayout, noCatches, noFinal]
  refine ⟨isClosed, ⟨isClosed ▸ inside, isResult, by rw [isLayout, isFirst], ?_, ?_, ?_, ?_, ?_⟩⟩
  · rw [isLayout]
    exact part
  · rw [noCatches]
    exact .nil
  · rw [noFinal]
    exact .none
  · simp [extents, noCatches, noFinal]
  · intro extent isExtent
    obtain rfl : extent = layout.guarded := by simpa [extents, noCatches, noFinal] using isExtent
    rw [isLayout, isPosition]
    exact Nat.lt_succ_self _

theorem Built.noFinal (built : layout.Built context scope guarded clauses none emitter) :
    layout.final = none := by
  have rel := built.final
  cases isFinal : layout.final with
  | none => rfl
  | some extent =>
      rw [isFinal] at rel
      cases rel

/-- A part is added after the others. -/
theorem Built.extend (built : layout.Built context scope guarded clauses final emitter)
    {extended : TryLayout} {last : Extent} (isExtended : extended.extents = layout.extents ++ [last])
    (isStart : last.start = emitter.position) (isEnd : later.position = last.exit + 1)
    (grows : emitter.position ≤ later.position) :
    extended.extents.Pairwise (·.exit < ·.start) ∧
      ∀ extent ∈ extended.extents, extent.exit < later.position := by
  rw [isExtended]
  constructor
  · rw [List.pairwise_append]
    refine ⟨built.ordered, List.pairwise_singleton _ _, fun extent isExtent other isOther => ?_⟩
    rw [List.mem_singleton.mp isOther, isStart]
    exact built.ends extent isExtent
  · intro extent isExtent
    rcases List.mem_append.mp isExtent with early | isLast
    · exact (built.ends extent early).trans_le grows
    · rw [List.mem_singleton.mp isLast, isEnd]
      exact Nat.lt_succ_self _

/-- One more handler. -/
theorem Built.withCatch {handler : CatchBinder} {type : RunTy}
    (built : layout.Built context scope guarded clauses none middle)
    (confined : body.IsConfined context layout.least) (spares : scope.Spares layout.least)
    (isType : context.runTy handler.type = .ok type)
    (written : (context.handlerCode handler body scope).Writes
      (middle.withHandler layout.openRegion (.catching type)) () last) :
    (layout.withCatch type
        ⟨middle.position, last.position, last.position + layout.keeps.length⟩).Ready
      context scope guarded (clauses ++ [(handler, body)]) none (last.emits layout.keeps) := by
  intro closed after ran
  have within := built.within.withHandler (.catching type)
  obtain ⟨confines, -⟩ := handlerCode_confined handler confined spares _ _ _ within.locals written
  obtain ⟨rfl, inside, follows, isPosition, part⟩ := within.close written confines ran
  have later := follows.trans (Emitter.follows_withHandler layout.openRegion (.catching type))
  generalize isExtent : Extent.mk middle.position last.position
    (last.position + layout.keeps.length) = extent
  have isClosed : OpenRegion.closedAt
      { layout.openRegion with current := some (.catching type, middle.position) }
      (last.position + layout.keeps.length + 1) = (layout.withCatch type extent).openRegion := by
    simp [OpenRegion.closedAt, openRegion, handlers, TryLayout.withCatch, built.noFinal, ← isExtent]
  have isExtended : (layout.withCatch type extent).extents = layout.extents ++ [extent] := by
    simp [extents, TryLayout.withCatch, built.noFinal]
  obtain ⟨ordered, ends⟩ := built.extend isExtended (by rw [← isExtent])
    (by rw [isPosition, ← isExtent]) later.precedes.position
  refine ⟨isClosed, ⟨isClosed ▸ inside, built.result, built.first, built.guarded.follows later, ?_,
    built.noFinal.symm ▸ .none, ordered, ends⟩⟩
  exact List.rel_append (built.catches_follow later) (.cons ⟨isType, isExtent ▸ part⟩ .nil)

/-- The final part. -/
theorem Built.withFinal {drops : List Instr}
    (built : layout.Built context scope guarded clauses none middle)
    (confined : body.IsConfined context layout.least) (spares : scope.Spares layout.least)
    (isDrop : drops = [] ∨ drops = [.pop])
    (written : (body.lower context scope false).Writes
      (middle.withHandler layout.openRegion .final) () last) :
    Ready { layout with
        final := some ⟨middle.position, last.position, last.position + drops.length⟩ }
      context scope guarded clauses (some body) (last.emits drops) := by
  intro closed after ran
  have within := built.within.withHandler .final
  obtain ⟨confines, -⟩ := confined [] scope spares _ _ _ within.locals written
  obtain ⟨rfl, inside, follows, isPosition, part⟩ := within.close written confines ran
  have later := follows.trans (Emitter.follows_withHandler layout.openRegion .final)
  generalize isExtent : Extent.mk middle.position last.position (last.position + drops.length) = extent
  have isClosed : OpenRegion.closedAt
      { layout.openRegion with current := some (.final, middle.position) }
      (last.position + drops.length + 1) =
        openRegion { layout with final := some extent } := by
    simp [OpenRegion.closedAt, openRegion, handlers, built.noFinal, ← isExtent]
  have isExtended : extents { layout with final := some extent } = layout.extents ++ [extent] := by
    simp [extents, built.noFinal]
  obtain ⟨ordered, ends⟩ := built.extend isExtended (by rw [← isExtent])
    (by rw [isPosition, ← isExtent]) later.precedes.position
  exact ⟨isClosed, ⟨isClosed ▸ inside, built.result, built.first, built.guarded.follows later,
    built.catches_follow later, .some ⟨drops, isDrop, isExtent ▸ part⟩, ordered, ends⟩⟩

/-! ## Whole blocks -/

/-- The handlers are written one after the other. -/
theorem Ready.catches {more : List (CatchBinder × Core)}
    (ready : layout.Ready context scope guarded clauses none emitter)
    (confined : ∀ clause ∈ more, clause.2.IsConfined context layout.least)
    (spares : scope.Spares layout.least)
    (written : (more.forM fun clause =>
      context.lowerCatch clause.1 clause.2 layout.result scope).Writes emitter () later) :
    ∃ extended : TryLayout, extended.result = layout.result ∧
      extended.Ready context scope guarded (clauses ++ more) none later := by
  induction more generalizing layout clauses emitter with
  | nil =>
      obtain ⟨-, rfl⟩ := Lower.writes_pure.mp written
      exact ⟨layout, rfl, (List.append_nil clauses).symm ▸ ready⟩
  | cons clause more ih =>
      obtain ⟨⟨⟩, middle, first, rest⟩ := Lower.writes_bind.mp written
      obtain ⟨type, isType, first⟩ := Lower.writes_lift_bind.mp first
      obtain ⟨⟨⟩, opened, begins, first⟩ := Lower.writes_bind.mp first
      obtain ⟨closed, shut, isClosed, rfl⟩ := Emitter.beginCatch_eq_ok (Lower.ofEmit_eq_ok.mp begins)
      obtain ⟨rfl, built⟩ := ready _ _ isClosed
      obtain ⟨inner, bound, binds, first⟩ := Lower.writes_bind.mp first
      obtain ⟨⟨⟩, last, lowers, keeps⟩ := Lower.writes_bind.mp first
      obtain rfl := writes_keepResult.mp keeps
      have isHandler : (context.handlerCode clause.1 clause.2 scope).Writes
          (shut.withHandler layout.openRegion (.catching type)) () last :=
        Lower.writes_bind.mpr ⟨inner, bound, binds, lowers⟩
      have grown := built.withCatch (confined clause List.mem_cons_self) spares isType isHandler
      obtain ⟨extended, isResult, isReady⟩ :=
        ih grown (List.forall_mem_cons.mp confined).2 spares rest
      exact ⟨extended, isResult, by simpa using isReady⟩

/-- The final part is written after them. -/
theorem Ready.lastPart {last : Option Core}
    (ready : layout.Ready context scope guarded clauses none emitter)
    (confined : ∀ body ∈ last, body.IsConfined context layout.least)
    (spares : scope.Spares layout.least)
    (written : (last.forM fun final => context.lowerFinal final scope).Writes emitter () later) :
    ∃ extended : TryLayout, extended.result = layout.result ∧
      extended.Ready context scope guarded clauses last later := by
  cases last with
  | none =>
      obtain ⟨-, rfl⟩ := Lower.writes_pure.mp written
      exact ⟨layout, rfl, ready⟩
  | some body =>
      obtain ⟨⟨⟩, opened, begins, written⟩ := Lower.writes_bind.mp written
      obtain ⟨closed, shut, isClosed, rfl⟩ := Emitter.beginFinally_eq_ok (Lower.ofEmit_eq_ok.mp begins)
      obtain ⟨rfl, built⟩ := ready _ _ isClosed
      obtain ⟨⟨⟩, last, lowers, pops⟩ := Lower.writes_bind.mp written
      have drops : ∃ drops, (drops = [] ∨ drops = [.pop]) ∧ later = last.emits drops := by
        unfold Lower.popValue at pops
        split at pops
        · exact ⟨[], .inl rfl, (Lower.writes_pure.mp pops).2⟩
        · exact ⟨[.pop], .inr rfl, Lower.writes_emit.mp pops⟩
      obtain ⟨drops, isDrop, rfl⟩ := drops
      refine ⟨_, ?_, built.withFinal (confined body rfl) spares isDrop lowers⟩
      rfl

/-- What was written is a part of the finished body. -/
theorem parts_placed {after : Emitter} {body : Body} (finished : after.finish = .ok body)
    {least : Nat} {glue : List Instr} {exit : Instr} {parts : List (RunTy × Extent)}
    (written : List.Forall₂ (fun clause (part : RunTy × Extent) =>
      context.runTy clause.1.type = .ok part.1 ∧
        after.HasPart least (context.handlerCode clause.1 clause.2 scope) part.2 glue exit)
      clauses parts) : ∀ part ∈ parts, body.HasPart least part.2 glue exit := by
  induction written with
  | nil => exact List.forall_mem_nil _
  | cons first _ ih => exact List.forall_mem_cons.mpr ⟨(first.2.finish finished).1, ih⟩

/-- The region is closed, and the value returned. -/
theorem Built.finish {after : Emitter} {body : Body}
    (built : layout.Built context scope guarded clauses final middle)
    (isAfter : after = (middle.withRegion layout.openRegion).emits layout.returns)
    (finished : after.finish = .ok body) :
    ∃ placed : TryLayout, placed.Fits body ∧
      placed.Renders context scope guarded clauses final body := by
  have isOpen : ({ middle with pending := middle.pending.tail } : Emitter).labels[stopLabel.index]? =
      some none := built.within.isOpen
  have marks : (middle.withRegion layout.openRegion).Follows middle := by
    have grows := Emitter.precedes_withMark isOpen
    refine ⟨⟨grows.instrs, grows.labels, grows.locals, grows.unpinned⟩, ?_, ?_⟩
    · simp [Emitter.withRegion, Emitter.withMark]
    · intro index position isOther _ isPlaced
      have isPlaced : (middle.labels.setIfInBounds 0 (some middle.position))[index]? =
        some (some position) := isPlaced
      rwa [Array.getElem?_setIfInBounds_ne (Nat.ne_of_lt isOther)] at isPlaced
  have follows : after.Follows middle :=
    isAfter ▸ (Emitter.follows_emits _ _).trans marks
  obtain ⟨-, sameRegions, sameLabels, sameLocals⟩ :=
    (middle.withRegion layout.openRegion).emits_fields layout.returns
  have placed := Emitter.placedIn_of_finish finished
  have isRegion : body.regions = [layout.region] := by
    obtain ⟨labels, -, rfl⟩ := Emitter.finish_eq_ok finished
    rw [isAfter]
    refine sameRegions.trans ?_
    simp [Emitter.withRegion, Emitter.withMark, built.within.regions, region, openRegion]
  have isUnpinned : body.Unpinned := by
    obtain ⟨labels, -, rfl⟩ := Emitter.finish_eq_ok finished
    exact follows.precedes.unpinned built.within.unpinned
  have isStop : body.target? stopLabel = some middle.position := by
    refine placed.labels _ _ ?_
    rw [isAfter, sameLabels]
    exact Array.getElem?_setIfInBounds_self_of_lt (Array.getElem?_eq_some_iff.mp isOpen).1
  have isReturn : body.HasCode middle.position layout.returns := by
    intro index instr isInstr
    refine placed.instrs _ _ ?_
    rw [isAfter]
    exact (middle.withRegion layout.openRegion).instrs_emits layout.returns index instr isInstr
  have finals : ∀ extent ∈ layout.final, ∃ drops, (drops = [] ∨ drops = [.pop]) ∧
      body.HasPart layout.least extent drops .endFinally := by
    have rel := built.final
    intro extent isExtent
    rw [isExtent] at rel
    cases rel with
    | some part =>
        obtain ⟨drops, isDrop, part⟩ := part
        exact ⟨drops, isDrop, ((part.follows follows).finish finished).1⟩
  have clausesPlaced : ∀ clause ∈ layout.catches,
      body.HasPart layout.least clause.2 layout.keeps (.leave stopLabel) :=
    parts_placed finished (built.catches_follow follows)
  refine ⟨{ layout with stop := middle.position }, ⟨isRegion, isUnpinned, isStop, built.first,
    ((built.guarded.follows follows).finish finished).1, clausesPlaced, finals, isReturn,
    built.ordered, built.ends⟩, ⟨built.result, ((built.guarded.follows follows).finish finished).2,
    ?_, ?_⟩⟩
  · exact (built.catches_follow follows).imp fun _ _ part =>
      ⟨part.1, (part.2.finish finished).2⟩
  · have written : ∀ {last : Option Core} {extent : Option Extent},
        Option.Rel (fun (final : Core) extent => ∃ drops, (drops = [] ∨ drops = [.pop]) ∧
          middle.HasPart layout.least (final.lower context scope false) extent drops .endFinally)
          last extent →
        Option.Rel (fun (final : Core) extent =>
          (final.lower context scope false).WrittenAt body extent) last extent := by
      rintro _ _ (⟨drops, -, part⟩ | _)
      · exact .some ((part.follows follows).finish finished).2
      · exact .none
    exact written built.final

end TryLayout

/-- The code of a block from the beginning of its region on. -/
theorem LowerContext.tryRegion_layout {guarded : Core} {final : Option Core} {body : Body}
    {result : Option Nat} {start emitter : Emitter} (spares : ∀ least, scope.Spares least)
    (confined : ∀ least, guarded.IsConfined context least)
    (handlers : ∀ clause ∈ clauses, ∀ least, clause.2.IsConfined context least)
    (finals : ∀ last ∈ final, ∀ least, last.IsConfined context least)
    (isResult : result.isSome = !guarded.type.isVoid) (isFirst : start.position = 0)
    (noLabels : start.labels = #[]) (noPending : start.pending = [])
    (noRegions : start.regions = []) (enough : result.elim 0 (· + 1) ≤ start.locals.size)
    (unpinned : start.Unpinned)
    (written : Lower.Writes (do
      discard <| modifyGet Emitter.beginTry
      guarded.lower context scope false
      keepResult result
      clauses.forM fun clause => context.lowerCatch clause.1 clause.2 result scope
      final.forM fun final => context.lowerFinal final scope
      Lower.ofEmit Emitter.endTry
      result.forM fun slot => Lower.emit (.loadLocal slot)
      Lower.emit .ret) start () emitter) (finished : emitter.finish = .ok body) :
    ∃ layout : TryLayout, layout.Fits body ∧
      layout.Renders context scope guarded clauses final body := by
  obtain ⟨⟨⟩, opened, opens, written⟩ := Lower.writes_bind.mp written
  obtain ⟨⟨⟩, last, lowers, written⟩ := Lower.writes_bind.mp written
  obtain ⟨⟨⟩, kept, keeps, written⟩ := Lower.writes_bind.mp written
  obtain ⟨⟨⟩, caught, catches, written⟩ := Lower.writes_bind.mp written
  obtain ⟨⟨⟩, ended, ends, written⟩ := Lower.writes_bind.mp written
  obtain ⟨⟨⟩, shut, shuts, written⟩ := Lower.writes_bind.mp written
  obtain ⟨⟨⟩, loaded, loads, returns⟩ := Lower.writes_bind.mp written
  have isOpened : opened = { start with
      labels := #[none]
      pending := [⟨stopLabel, start.position, none, [], none⟩] } := by
    cases opens
    simp [noLabels, noPending, stopLabel, Emitter.position]
  have within : opened.Within (result.elim 0 (· + 1))
      ⟨stopLabel, opened.position, none, [], none⟩ := by
    subst isOpened
    exact ⟨rfl, noRegions, rfl, enough, unpinned⟩
  obtain rfl := TryLayout.writes_keepResult.mp keeps
  let layout : TryLayout :=
    { result, catches := [], final := none, stop := 0
      guarded := ⟨opened.position, last.position,
        last.position + (result.toList.map Instr.storeLocal).length⟩ }
  have ready : layout.Ready context scope guarded [] none (last.emits layout.keeps) :=
    TryLayout.ready_guarded within isResult (confined _) (spares _)
      (by rw [isOpened]; exact isFirst) lowers rfl rfl rfl
  obtain ⟨more, isMore, ready⟩ := ready.catches (fun clause isClause => handlers clause isClause _)
    (spares _) catches
  rw [List.nil_append] at ready
  obtain ⟨whole, isWhole, ready⟩ := ready.lastPart (fun last isLast => finals last isLast _)
    (spares _) ends
  obtain ⟨closed, middle, isClosed, rfl⟩ := Emitter.endTry_eq_ok (Lower.ofEmit_eq_ok.mp shuts)
  obtain ⟨rfl, built⟩ := ready _ _ isClosed
  refine built.finish ?_ finished
  have isReturned : whole.result = result := isWhole.trans isMore
  obtain rfl := Lower.writes_emit.mp returns
  unfold TryLayout.returns
  rw [Emitter.emits_append, isReturned]
  cases result with
  | none =>
      obtain ⟨-, rfl⟩ := Lower.writes_pure.mp loads
      rfl
  | some slot =>
      obtain rfl := Lower.writes_emit.mp loads
      rfl

/-- The code of a `try` block has a layout. -/
theorem LowerContext.lowerTry_layout {guarded : Core} {final : Option Core} {body : Body}
    {emitter : Emitter} (spares : ∀ least, scope.Spares least)
    (confined : ∀ least, guarded.IsConfined context least)
    (handlers : ∀ clause ∈ clauses, ∀ least, clause.2.IsConfined context least)
    (finals : ∀ last ∈ final, ∀ least, last.IsConfined context least)
    (written : (context.lowerTry guarded clauses final scope).Writes {} () emitter)
    (finished : emitter.finish = .ok body) :
    ∃ layout : TryLayout, layout.Fits body ∧
      layout.Renders context scope guarded clauses final body := by
  unfold lowerTry at written
  split at written
  · rename_i isVoid
    exact tryRegion_layout spares confined handlers finals (by simp [isVoid]) rfl rfl rfl rfl
      (Nat.le_refl _) (fun decl isDecl => (Array.not_mem_empty decl isDecl).elim) written finished
  · rename_i isValue
    rw [map_eq_pure_bind, bind_assoc] at written
    obtain ⟨slot, declared, declares, written⟩ := Lower.writes_bind.mp written
    obtain ⟨type, -, declares⟩ := Lower.writes_lift_bind.mp declares
    obtain ⟨-, rfl, rfl⟩ := Lower.writes_declareLocal.mp declares
    have unpinned : Emitter.Unpinned { locals := #[⟨type, false⟩] } :=
      fun _ isDecl => Array.mem_singleton.mp isDecl ▸ rfl
    exact tryRegion_layout spares confined handlers finals (by simp [isValue]) rfl rfl rfl rfl
      (Nat.le_refl _) unpinned written finished

end ClassForge
