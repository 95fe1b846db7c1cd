import ClassForge.Proofs.Code.StackEffects

/-!
# Calls of an emitter

What each operation of an emitter does, also when it is refused, in terms of the innermost open
region.  An `EmitterCall` is one such operation as data, so that statements can be about all
sequences of them.
-/

namespace ClassForge

/-! ## Regions under construction -/

namespace OpenRegion

/-- The region after its last part was closed at a position. -/
def closedAt (region : OpenRegion) (position : Nat) : OpenRegion :=
  match region.current with
  | none => { region with tryStop := some position }
  | some (kind, start) =>
      { region with handlers := region.handlers ++ [⟨kind, start, position⟩], current := none }

/-- The instruction that leaves the last part. -/
def exit (region : OpenRegion) : Instr :=
  match region.current with
  | some (.final, _) => .endFinally
  | _ => .leave region.stop

/-- The kinds of the handlers that were opened, in order. -/
def kinds (region : OpenRegion) : List HandlerKind :=
  region.handlers.map Handler.kind ++ region.current.toList.map (·.1)

variable (region : OpenRegion) (position : Nat)

@[simp]
theorem stop_closedAt : (region.closedAt position).stop = region.stop := by
  unfold closedAt
  split <;> rfl

@[simp]
theorem tryStart_closedAt : (region.closedAt position).tryStart = region.tryStart := by
  unfold closedAt
  split <;> rfl

@[simp]
theorem current_closedAt : (region.closedAt position).current = none := by
  unfold closedAt
  split
  · next isTry => exact isTry
  · rfl

/-- Closing a part makes a handler of it. -/
theorem handlers_closedAt :
    (region.closedAt position).handlers.map Handler.kind = region.kinds := by
  unfold closedAt kinds
  split
  · next isTry => simp [isTry]
  · next isHandler => simp [isHandler]

@[simp]
theorem kinds_closedAt : (region.closedAt position).kinds = region.kinds := by
  unfold kinds
  rw [handlers_closedAt, current_closedAt]
  exact List.append_nil _

end OpenRegion

/-! ## Operations -/

namespace Emitter

variable (emitter : Emitter)

/-- The innermost part written to its end. -/
def shut (region : OpenRegion) (outer : List OpenRegion) : Emitter :=
  { emitter.emit region.exit with pending := region.closedAt (emitter.position + 1) :: outer }

theorem run_closeBlock :
    closeBlock.run emitter =
      match emitter.pending with
      | [] => .error (.blockMisuse .noOpenTry) emitter
      | region :: outer =>
          .ok (region.closedAt (emitter.position + 1)) (emitter.shut region outer) := by
  unfold closeBlock
  rw [EStateM.run_bind]
  change (match emitter.pending with | [] => _ | _ :: _ => _ : Emit OpenRegion).run emitter = _
  cases isPending : emitter.pending with
  | nil => rfl
  | cons region outer =>
      unfold shut OpenRegion.closedAt OpenRegion.exit
      rcases isCurrent : region.current with _ | ⟨_ | _, start⟩ <;>
        · simp only [isCurrent]
          rfl

theorem run_markLabel (label : Label) :
    (markLabel label).run emitter =
      match emitter.labels[label.index]? with
      | some none => .ok () (emitter.withMark label)
      | some (some _) => .error (.labelMarkedTwice label.index) emitter
      | none => .error (.unmarkedLabel label.index) emitter := by
  unfold markLabel
  rw [EStateM.run_bind]
  change (match emitter.labels[label.index]? with
    | some none => _ | some (some _) => _ | none => _ : Emit Unit).run emitter = _
  split <;> rfl

theorem run_beginCatch (type : RunTy) :
    (beginCatch type).run emitter =
      match emitter.pending with
      | [] => .error (.blockMisuse .noOpenTry) emitter
      | region :: outer =>
          if .final ∈ region.kinds then
            .error (.blockMisuse .catchAfterFinally) (emitter.shut region outer)
          else
            .ok () ((emitter.shut region outer).withHandler
              (region.closedAt (emitter.position + 1)) (.catching type)) := by
  unfold beginCatch
  rw [EStateM.run_bind, run_closeBlock]
  cases emitter.pending with
  | nil => rfl
  | cons region outer =>
      have isFinal : ((region.closedAt (emitter.position + 1)).handlers.any fun handler =>
          handler.kind = .final) = decide (.final ∈ region.kinds) := by
        rw [← region.handlers_closedAt (emitter.position + 1), Bool.eq_iff_iff, List.any_eq_true,
          decide_eq_true_iff, List.mem_map]
        simp only [decide_eq_true_iff]
      dsimp only
      rw [isFinal]
      by_cases finished : .final ∈ region.kinds
      · rw [if_pos (decide_eq_true finished), if_pos finished]
        rfl
      · rw [if_neg (by simpa using finished), if_neg finished]
        rfl

theorem run_beginFinally :
    beginFinally.run emitter =
      match emitter.pending with
      | [] => .error (.blockMisuse .noOpenTry) emitter
      | region :: outer =>
          .ok () ((emitter.shut region outer).withHandler
            (region.closedAt (emitter.position + 1)) .final) := by
  unfold beginFinally
  rw [EStateM.run_bind, run_closeBlock]
  cases emitter.pending with
  | nil => rfl
  | cons region outer => rfl

theorem run_endTry :
    endTry.run emitter =
      match emitter.pending with
      | [] => .error (.blockMisuse .noOpenTry) emitter
      | region :: outer =>
          if region.current = none then .error (.blockMisuse .withoutHandlers) emitter
          else
            match emitter.labels[region.stop.index]? with
            | some none =>
                .ok () ((emitter.shut region outer).withRegion
                  (region.closedAt (emitter.position + 1)))
            | some (some _) =>
                .error (.labelMarkedTwice region.stop.index)
                  { emitter.shut region outer with pending := outer }
            | none =>
                .error (.unmarkedLabel region.stop.index)
                  { emitter.shut region outer with pending := outer } := by
  unfold endTry
  rw [EStateM.run_bind]
  change (EStateM.run (match emitter.pending with | [] => _ | _ :: _ => _) emitter : _) = _
  cases isPending : emitter.pending with
  | nil => rfl
  | cons region outer =>
      cases isCurrent : region.current with
      | none =>
          simp only [isCurrent]
          rfl
      | some block =>
          have isHandler : region.current ≠ none := by simp [isCurrent]
          dsimp only
          rw [if_neg (mt Option.isNone_iff_eq_none.mp isHandler), if_neg isHandler,
            EStateM.run_bind, run_closeBlock, isPending]
          dsimp only
          rw [EStateM.run_bind, EStateM.run_modify]
          dsimp only
          rw [EStateM.run_bind, run_markLabel, OpenRegion.stop_closedAt]
          dsimp only [shut, emit]
          rcases emitter.labels[region.stop.index]? with _ | _ | position
          · rfl
          · simp only [withRegion, OpenRegion.stop_closedAt]
            rfl
          · rfl

end Emitter

/-! ## Calls -/

/-- A call of an emitter. -/
inductive EmitterCall where
  | emit (instr : Instr)
  | defineLabel
  | markLabel (label : Label)
  | declareLocal (type : RunTy) (pinned : Bool)
  | beginTry
  | beginCatch (type : RunTy)
  | beginFinally
  | endTry

namespace EmitterCall

/-- Carry out a call. -/
def run : EmitterCall → Emit Unit
  | emit instr => modify (·.emit instr)
  | defineLabel => modify (·.defineLabel.2)
  | markLabel label => Emitter.markLabel label
  | declareLocal type pinned => discard <| Emitter.declareLocal type pinned
  | beginTry => modify (·.beginTry.2)
  | beginCatch type => Emitter.beginCatch type
  | beginFinally => Emitter.beginFinally
  | endTry => Emitter.endTry

theorem run_declareLocal (type : RunTy) (pinned : Bool) (emitter : Emitter) :
    (declareLocal type pinned).run.run emitter =
      if emitter.locals.size < Emitter.maxLocals then
        .ok () { emitter with locals := emitter.locals.push ⟨type, pinned⟩ }
      else .error .tooManyLocals emitter := by
  change EStateM.run (Emitter.declareLocal type pinned >>= fun _ => pure ()) emitter = _
  rw [EStateM.run_bind, Emitter.declareLocal, EStateM.run_bind, EStateM.run_get]
  dsimp only
  by_cases room : emitter.locals.size < Emitter.maxLocals
  · rw [if_pos room, if_pos room]
    rfl
  · rw [if_neg room, if_neg room]
    rfl

end EmitterCall

end ClassForge
