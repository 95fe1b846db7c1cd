import ClassForge.Proofs.Code.EmittedRegions

/-!
# The grammar of exception blocks

Which calls about blocks an emitter accepts depends on the calls before it alone: on the handlers
that were opened in the innermost region, and on its label.  The handlers of a region are catch
handlers and then final ones, also after calls that were refused.

A refused call leaves the emitter as it was, with two exceptions.  A catch handler after a final one
is refused when the block before it has already been closed, and the end of a region whose label has
a position when the region has already been dropped.
-/

namespace ClassForge

/-! ## Handlers in order -/

/-- Catch handlers and then final ones. -/
def HandlerKind.InOrder (kinds : List HandlerKind) : Prop :=
  ∃ (types : List RunTy) (finals : Nat),
    kinds = types.map .catching ++ List.replicate finals .final

namespace HandlerKind.InOrder

variable {kinds : List HandlerKind}

theorem nil : InOrder [] :=
  ⟨[], 0, rfl⟩

theorem catching (inOrder : InOrder kinds) (noFinal : .final ∉ kinds) (type : RunTy) :
    InOrder (kinds ++ [HandlerKind.catching type]) := by
  obtain ⟨types, finals, rfl⟩ := inOrder
  have isNone : finals = 0 := by
    by_contra some'
    exact noFinal (List.mem_append_right _ (List.mem_replicate.mpr ⟨some', rfl⟩))
  exact ⟨types ++ [type], 0, by simp [isNone]⟩

theorem final (inOrder : InOrder kinds) : InOrder (kinds ++ [HandlerKind.final]) := by
  obtain ⟨types, finals, rfl⟩ := inOrder
  exact ⟨types, finals + 1, by simp [List.replicate_succ']⟩

end HandlerKind.InOrder

/-! ## Refused calls -/

namespace EmitterCall

/-- The emitter after a call, accepted or not. -/
def next (call : EmitterCall) (emitter : Emitter) : Emitter :=
  match call.run.run emitter with
  | .ok _ after | .error _ after => after

/-- Refused calls that change the emitter. -/
inductive Slips (emitter : Emitter) : EmitterCall → ImageError → Emitter → Prop where
  | catchAfterFinal {region : OpenRegion} {outer : List OpenRegion} {type : RunTy}
      (isPending : emitter.pending = region :: outer) (isFinal : .final ∈ region.kinds) :
      Slips emitter (.beginCatch type) (.blockMisuse .catchAfterFinally)
        (emitter.shut region outer)
  | markedStop {region : OpenRegion} {outer : List OpenRegion} {position : Nat}
      (isPending : emitter.pending = region :: outer) (isHandler : region.current ≠ none)
      (isMarked : emitter.labels[region.stop.index]? = some (some position)) :
      Slips emitter .endTry (.labelMarkedTwice region.stop.index)
        { emitter.shut region outer with pending := outer }

end EmitterCall

namespace Emitter

/-- The emitter after calls of which some may have been refused. -/
def afterCalls (calls : List EmitterCall) : Emitter :=
  calls.foldl (fun emitter call => call.next emitter) {}

/-- The regions of an emitter have their handlers in order, and the open ones a label. -/
structure Ordered (emitter : Emitter) : Prop where
  stops : ∀ region ∈ emitter.pending, region.stop.index < emitter.labels.size
  pending : ∀ region ∈ emitter.pending, HandlerKind.InOrder region.kinds
  regions : ∀ region ∈ emitter.regions, region.handlers ≠ [] ∧
    HandlerKind.InOrder (region.handlers.map Handler.kind)

variable {emitter after : Emitter} {region : OpenRegion} {outer : List OpenRegion}
variable {call : EmitterCall} {error : ImageError}

section

variable (ordered : emitter.Ordered)
include ordered

theorem Ordered.mono (labels : emitter.labels.size ≤ after.labels.size)
    (pending : ∀ region ∈ after.pending, region ∈ emitter.pending)
    (regions : after.regions = emitter.regions) : after.Ordered where
  stops region isPending := (ordered.stops region (pending region isPending)).trans_le labels
  pending region isPending := ordered.pending region (pending region isPending)
  regions := regions ▸ ordered.regions

/-- Without the innermost region. -/
theorem Ordered.drop (isPending : emitter.pending = region :: outer) :
    Ordered { emitter with pending := outer } :=
  ordered.mono (Nat.le_refl _) (fun _ isOuter => isPending ▸ List.mem_cons_of_mem _ isOuter) rfl

/-- One more open region. -/
theorem Ordered.push (region : OpenRegion) (isStop : region.stop.index < emitter.labels.size)
    (inOrder : HandlerKind.InOrder region.kinds) :
    Ordered { emitter with pending := region :: emitter.pending } where
  stops := List.forall_mem_cons.mpr ⟨isStop, ordered.stops⟩
  pending := List.forall_mem_cons.mpr ⟨inOrder, ordered.pending⟩
  regions := ordered.regions

theorem Ordered.emit (instr : Instr) : (emitter.emit instr).Ordered :=
  ordered.mono (Nat.le_refl _) (fun _ => id) rfl

theorem Ordered.withLabel : emitter.withLabel.Ordered :=
  ordered.mono (by simp [Emitter.withLabel]) (fun _ => id) rfl

theorem Ordered.withMark (label : Label) :
    (emitter.withMark label).Ordered :=
  ordered.mono (by simp [Emitter.withMark]) (fun _ => id) rfl

/-- Closing a block makes a handler of it that was there before. -/
theorem Ordered.shut (isPending : emitter.pending = region :: outer) :
    (emitter.shut region outer).Ordered := by
  have isRegion : region ∈ emitter.pending := isPending ▸ List.mem_cons_self
  refine ((ordered.emit region.exit).drop isPending).push _ ?_ ?_
  · rw [OpenRegion.stop_closedAt]
    exact ordered.stops region isRegion
  · rw [OpenRegion.kinds_closedAt]
    exact ordered.pending region isRegion

/-- The next handler of the innermost region. -/
theorem Ordered.withHandler (isPending : emitter.pending = region :: outer) {kind : HandlerKind}
    (inOrder : HandlerKind.InOrder (region.kinds ++ [kind])) :
    ((emitter.shut region outer).withHandler
      (region.closedAt (emitter.position + 1)) kind).Ordered := by
  have isRegion : region ∈ emitter.pending := isPending ▸ List.mem_cons_self
  refine ((ordered.emit region.exit).drop isPending).push
    { region.closedAt (emitter.position + 1) with
      current := some (kind, (emitter.emit region.exit).position) } ?_ ?_
  · rw [OpenRegion.stop_closedAt]
    exact ordered.stops region isRegion
  · rw [← region.handlers_closedAt (emitter.position + 1)] at inOrder
    exact inOrder

/-- The end of the innermost region. -/
theorem Ordered.withRegion (isPending : emitter.pending = region :: outer)
    (isHandler : region.current ≠ none) :
    ((emitter.shut region outer).withRegion (region.closedAt (emitter.position + 1))).Ordered := by
  have isRegion : region ∈ emitter.pending := isPending ▸ List.mem_cons_self
  have dropped := ((ordered.emit region.exit).drop isPending).withMark
    (region.closedAt (emitter.position + 1)).stop
  refine ⟨dropped.stops, dropped.pending, fun other isOther => ?_⟩
  rcases List.mem_append.mp isOther with isOld | isNew
  · exact dropped.regions other isOld
  · obtain rfl := List.mem_singleton.mp isNew
    refine ⟨OpenRegion.handlers_closedAt_ne_nil isHandler _, ?_⟩
    rw [region.handlers_closedAt]
    exact ordered.pending region isRegion

/-- One call, accepted or not. -/
theorem Ordered.next (call : EmitterCall) :
    (call.next emitter).Ordered := by
  unfold EmitterCall.next
  cases call with
  | emit instr => exact ordered.emit instr
  | defineLabel => exact ordered.withLabel
  | markLabel label =>
      rw [EmitterCall.run, run_markLabel]
      rcases emitter.labels[label.index]? with _ | _ | position
      · exact ordered
      · exact ordered.withMark label
      · exact ordered
  | declareLocal type pinned =>
      rw [EmitterCall.run_declareLocal]
      by_cases room : emitter.locals.size < maxLocals
      · simp only [if_pos room]
        exact ordered.mono (Nat.le_refl _) (fun _ => id) rfl
      · simp only [if_neg room]
        exact ordered
  | beginTry =>
      exact ordered.withLabel.push ⟨⟨emitter.labels.size⟩, emitter.position, none, [], none⟩
        (by simp [Emitter.withLabel]) .nil
  | beginCatch type =>
      rw [EmitterCall.run, run_beginCatch]
      cases isPending : emitter.pending with
      | nil => exact ordered
      | cons region outer =>
          have inOrder := ordered.pending region (isPending ▸ List.mem_cons_self)
          by_cases finished : .final ∈ region.kinds
          · simp only [if_pos finished]
            exact ordered.shut isPending
          · simp only [if_neg finished]
            exact ordered.withHandler isPending (inOrder.catching finished type)
  | beginFinally =>
      rw [EmitterCall.run, run_beginFinally]
      cases isPending : emitter.pending with
      | nil => exact ordered
      | cons region outer =>
          have inOrder := ordered.pending region (isPending ▸ List.mem_cons_self)
          exact ordered.withHandler isPending inOrder.final
  | endTry =>
      rw [EmitterCall.run, run_endTry]
      cases isPending : emitter.pending with
      | nil => exact ordered
      | cons region outer =>
          have dropped := (ordered.emit region.exit).drop isPending
          by_cases isTry : region.current = none
          · simp only [if_pos isTry]
            exact ordered
          · simp only [if_neg isTry]
            rcases emitter.labels[region.stop.index]? with _ | _ | position
            · exact dropped
            · exact ordered.withRegion isPending isTry
            · exact dropped

end

/-- A run of calls, accepted or not. -/
theorem ordered_afterCalls (calls : List EmitterCall) : (afterCalls calls).Ordered := by
  have empty : Ordered {} := ⟨by simp, by simp, by simp⟩
  unfold afterCalls
  generalize ({} : Emitter) = emitter at empty
  induction calls generalizing emitter with
  | nil => exact empty
  | cons call calls ih => exact ih _ (empty.next call)

theorem ne_of_position (longer : after.position = emitter.position + 1) : after ≠ emitter := by
  rintro rfl
  exact Nat.succ_ne_self _ longer.symm

/-- The refused calls that change an emitter. -/
theorem Ordered.slips_iff (ordered : emitter.Ordered) :
    call.run.run emitter = .error error after ∧ after ≠ emitter ↔
      call.Slips emitter error after := by
  constructor
  · rintro ⟨refused, changed⟩
    cases call with
    | emit | defineLabel | beginTry => cases refused
    | markLabel label =>
        rw [EmitterCall.run, run_markLabel] at refused
        split at refused <;> cases refused <;> exact absurd rfl changed
    | declareLocal type pinned =>
        rw [EmitterCall.run_declareLocal] at refused
        split at refused <;> cases refused
        exact absurd rfl changed
    | beginCatch type =>
        rw [EmitterCall.run, run_beginCatch] at refused
        split at refused
        · cases refused
          exact absurd rfl changed
        · next isPending =>
            split at refused <;> cases refused
            next isFinal => exact .catchAfterFinal isPending isFinal
    | beginFinally =>
        rw [EmitterCall.run, run_beginFinally] at refused
        split at refused <;> cases refused
        exact absurd rfl changed
    | endTry =>
        rw [EmitterCall.run, run_endTry] at refused
        split at refused
        · cases refused
          exact absurd rfl changed
        · next region outer isPending =>
            split at refused
            · cases refused
              exact absurd rfl changed
            · next isHandler =>
                split at refused
                · cases refused
                · next isMarked =>
                    cases refused
                    exact .markedStop isPending isHandler isMarked
                · next isUnknown =>
                    have isKnown := ordered.stops region (isPending ▸ List.mem_cons_self)
                    exact absurd isKnown (Nat.not_lt.mpr (Array.getElem?_eq_none_iff.mp isUnknown))
  · intro slips
    refine ⟨?_, ?_⟩
    · cases slips with
      | catchAfterFinal isPending isFinal =>
          rw [EmitterCall.run, run_beginCatch, isPending]
          exact if_pos isFinal
      | markedStop isPending isHandler isMarked =>
          rw [EmitterCall.run, run_endTry, isPending]
          simp only [if_neg isHandler, isMarked]
    · cases slips <;> exact ne_of_position (Array.size_push _)

end Emitter

/-! ## Accepted calls -/

/-- The kinds of the handlers that some calls opened, in order. -/
structure BlockHistory where
  /-- For each open region, the innermost first. -/
  opened : List (List HandlerKind)
  /-- For each closed region, in the order of their ends. -/
  closed : List (List HandlerKind)

namespace BlockHistory

/-- A handler is begun in the innermost block. -/
def handle (history : BlockHistory) (kind : HandlerKind) : BlockHistory :=
  { history with opened := history.opened.modifyHead (· ++ [kind]) }

/-- With one more call. -/
def after (history : BlockHistory) : EmitterCall → BlockHistory
  | .beginTry => { history with opened := [] :: history.opened }
  | .beginCatch type => history.handle (.catching type)
  | .beginFinally => history.handle .final
  | .endTry => ⟨history.opened.tail, history.closed ++ history.opened.head?.toList⟩
  | _ => history

/-- The history after some calls. -/
def of (calls : List EmitterCall) : BlockHistory :=
  calls.foldl after ⟨[], []⟩

end BlockHistory

/-- Whether an emitter accepts a call after others that it accepted. -/
def EmitterCall.Fits (history : BlockHistory) (emitter : Emitter) : EmitterCall → Prop
  | emit _ | defineLabel | beginTry => True
  | markLabel label => emitter.labels[label.index]? = some none
  | declareLocal _ _ => emitter.locals.size < Emitter.maxLocals
  | beginCatch _ => ∃ kinds ∈ history.opened.head?, .final ∉ kinds
  | beginFinally => history.opened ≠ []
  | endTry => (∃ kinds ∈ history.opened.head?, kinds ≠ []) ∧
      ∃ region ∈ emitter.pending.head?, emitter.labels[region.stop.index]? = some none

/-- A region that has handlers has one under construction. -/
theorem OpenRegion.LaidOut.kinds_eq_nil {region : OpenRegion} {instrs : Array Instr}
    (laid : region.LaidOut instrs) : region.kinds = [] ↔ region.current = none := by
  constructor
  · intro noKinds
    simpa [OpenRegion.kinds] using (List.append_eq_nil_iff.mp noKinds).2
  · intro isTry
    simp [OpenRegion.kinds, isTry, laid.guards isTry]

namespace Emitter

/-- The handlers that an emitter has are those that some calls opened. -/
structure Records (emitter : Emitter) (history : BlockHistory) : Prop where
  opened : emitter.pending.map OpenRegion.kinds = history.opened
  closed : emitter.regions.map (·.handlers.map Handler.kind) = history.closed

variable {before emitter after : Emitter} {history : BlockHistory} {call : EmitterCall}
variable {region : OpenRegion} {outer : List OpenRegion}

section

variable (records : before.Records history)
include records

theorem Records.withHandler (isPending : before.pending = region :: outer) (kind : HandlerKind) :
    ((before.shut region outer).withHandler (region.closedAt (before.position + 1)) kind).Records
      (history.handle kind) := by
  refine ⟨?_, records.closed⟩
  have opened := records.opened
  rw [isPending, List.map_cons] at opened
  rw [BlockHistory.handle, ← opened, List.modifyHead_cons,
    ← region.handlers_closedAt (before.position + 1)]
  rfl

theorem Records.withRegion (isPending : before.pending = region :: outer) :
    ((before.shut region outer).withRegion (region.closedAt (before.position + 1))).Records
      (history.after .endTry) := by
  have opened := records.opened
  rw [isPending, List.map_cons] at opened
  constructor
  · rw [BlockHistory.after, ← opened]
    rfl
  · rw [BlockHistory.after, ← opened, ← records.closed, List.head?_cons, Option.toList_some,
      ← region.handlers_closedAt (before.position + 1)]
    exact List.map_append

/-- One call. -/
theorem Records.run (accepted : call.run.run before = .ok () after) :
    after.Records (history.after call) := by
  cases call with
  | emit | defineLabel =>
      cases accepted
      exact ⟨records.opened, records.closed⟩
  | markLabel label =>
      obtain ⟨-, rfl⟩ := markLabel_eq_ok.mp accepted
      exact ⟨records.opened, records.closed⟩
  | declareLocal type pinned =>
      rw [EmitterCall.run_declareLocal] at accepted
      split at accepted <;> cases accepted
      exact ⟨records.opened, records.closed⟩
  | beginTry =>
      cases accepted
      exact ⟨congrArg ([] :: ·) records.opened, records.closed⟩
  | beginCatch type =>
      rw [EmitterCall.run, run_beginCatch] at accepted
      split at accepted
      · cases accepted
      · next isPending =>
          split at accepted <;> cases accepted
          exact records.withHandler isPending _
  | beginFinally =>
      rw [EmitterCall.run, run_beginFinally] at accepted
      split at accepted <;> cases accepted
      next isPending => exact records.withHandler isPending _
  | endTry =>
      rw [EmitterCall.run, run_endTry] at accepted
      split at accepted
      · cases accepted
      · next isPending =>
          split at accepted
          · cases accepted
          · split at accepted <;> cases accepted
            exact records.withRegion isPending

/-- A run of accepted calls. -/
theorem Records.forM {calls : List EmitterCall}
    (accepted : (calls.forM EmitterCall.run).run before = .ok () after) :
    after.Records (calls.foldl BlockHistory.after history) := by
  induction calls generalizing before history with
  | nil =>
      cases accepted
      exact records
  | cons call calls ih =>
      obtain ⟨⟨⟩, middle, first, rest⟩ := bind_eq_ok.mp accepted
      exact ih (records.run first) rest

end

/-- The calls that are accepted next. -/
theorem Records.accepts_iff (records : emitter.Records history) (laid : emitter.LaidOut) :
    (∃ after, call.run.run emitter = .ok () after) ↔ call.Fits history emitter := by
  have head : history.opened.head? = emitter.pending.head?.map OpenRegion.kinds := by
    rw [← records.opened, List.head?_map]
  cases call with
  | emit | defineLabel | beginTry => exact iff_of_true ⟨_, rfl⟩ trivial
  | markLabel label =>
      exact ⟨fun ⟨_, accepted⟩ => (markLabel_eq_ok.mp accepted).1,
        fun isOpen => ⟨_, markLabel_eq_ok.mpr ⟨isOpen, rfl⟩⟩⟩
  | declareLocal type pinned =>
      rw [EmitterCall.run_declareLocal, EmitterCall.Fits]
      by_cases room : emitter.locals.size < maxLocals
      · simp [room]
      · simp [room]
  | beginCatch type =>
      rw [EmitterCall.run, run_beginCatch, EmitterCall.Fits, head]
      cases emitter.pending with
      | nil => simp
      | cons region outer =>
          by_cases isFinal : .final ∈ region.kinds
          · simp [isFinal]
          · simp [isFinal]
  | beginFinally =>
      rw [EmitterCall.run, run_beginFinally, EmitterCall.Fits, ← records.opened]
      cases emitter.pending with
      | nil => simp
      | cons region outer => simp
  | endTry =>
      rw [EmitterCall.run, run_endTry, EmitterCall.Fits, head]
      cases isPending : emitter.pending with
      | nil => simp
      | cons region outer =>
          have isTry := (laid.pending region (isPending ▸ List.mem_cons_self)).kinds_eq_nil
          simp only [List.head?_cons, Option.map_some, Option.mem_def, Option.some.injEq,
            exists_eq_left', ne_eq, isTry]
          by_cases isNone : region.current = none
          · simp [isNone]
          · rcases emitter.labels[region.stop.index]? with _ | _ | position <;> simp [isNone]

/-- After any calls, only slips change the emitter when they are refused, and the handlers of every
region that was closed are catch handlers and then final ones, at least one.  As long as no call was
refused, these are the handlers that were opened, and the next call is accepted if it fits. -/
theorem block_grammar (calls : List EmitterCall) :
    (∀ (call : EmitterCall) (error : ImageError) (after : Emitter),
      call.run.run (afterCalls calls) = .error error after ∧ after ≠ afterCalls calls ↔
        call.Slips (afterCalls calls) error after) ∧
    (∀ region ∈ (afterCalls calls).regions,
      region.handlers ≠ [] ∧ HandlerKind.InOrder (region.handlers.map Handler.kind)) ∧
    ∀ emitter : Emitter, (calls.forM EmitterCall.run).run {} = .ok () emitter →
      emitter.Records (.of calls) ∧
        ∀ call : EmitterCall, (∃ after, call.run.run emitter = .ok () after) ↔
          call.Fits (.of calls) emitter := by
  have ordered := ordered_afterCalls calls
  refine ⟨fun _ _ _ => ordered.slips_iff, ordered.regions, fun emitter accepted => ?_⟩
  have empty : Records {} ⟨[], []⟩ := ⟨rfl, rfl⟩
  have records : emitter.Records (.of calls) := empty.forM accepted
  exact ⟨records, fun _ => records.accepts_iff (laidOut_empty.forM accepted)⟩

/-- After the first handler of a block. -/
theorem block_grammar_handler : ∃ emitter : Emitter,
    ([.beginTry, .beginCatch .object].forM EmitterCall.run).run {} = .ok () emitter ∧
      emitter.Records ⟨[[.catching .object]], []⟩ ∧
      ∀ call : EmitterCall, (∃ after, call.run.run emitter = .ok () after) ↔
        call.Fits ⟨[[.catching .object]], []⟩ emitter :=
  ⟨_, rfl, (block_grammar [.beginTry, .beginCatch .object]).2.2 _ rfl⟩

/-- A catch handler after a final one is refused when the final one has been closed, the end of a
region with a marked label when the region has been dropped, and a second final handler is not
refused. -/
theorem block_grammar_slips :
    (∃ before after, ([.beginTry, .beginFinally].forM EmitterCall.run).run {} = .ok () before ∧
      (EmitterCall.beginCatch .object).run.run before =
        .error (.blockMisuse .catchAfterFinally) after ∧ after ≠ before) ∧
    (∃ before after, ([.beginTry, .markLabel ⟨0⟩, .beginFinally].forM EmitterCall.run).run {} =
        .ok () before ∧
      EmitterCall.endTry.run.run before = .error (.labelMarkedTwice 0) after ∧ after ≠ before) ∧
    ∃ emitter body,
      ([.beginTry, .beginFinally, .beginFinally, .endTry].forM EmitterCall.run).run {} =
        .ok () emitter ∧
      emitter.finish = .ok body ∧
      body.regions.map (·.handlers.map Handler.kind) = [[.final, .final]] := by
  refine ⟨⟨_, _, rfl, rfl, ?_⟩, ⟨_, _, rfl, rfl, ?_⟩, _, _, rfl, rfl, rfl⟩
  · decide
  · decide

end Emitter

end ClassForge
