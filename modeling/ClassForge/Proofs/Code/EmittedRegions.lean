import ClassForge.Proofs.Code.EmitterCalls
import ClassForge.Proofs.Code.WrittenCode

/-!
# Regions of emitted code

The blocks of a region, its try block and its handlers, stand directly one after the other, each
ended by the instruction that leaves it.  Code under construction is laid out so up to the block
that is being written, and two regions of it are either apart or nested.  Every call that an emitter
accepts keeps this, so it holds of finished code.
-/

namespace ClassForge

/-! ## Blocks -/

/-- A try block or a handler, with the position after its exit. -/
structure CodeBlock where
  start : Nat
  stop : Nat
  isFinal : Bool

/-- The instruction that leaves a block of a region for the label after it. -/
def CodeBlock.exit (block : CodeBlock) (label : Label) : Instr :=
  if block.isFinal then .endFinally else .leave label

/-- A handler as a block of code. -/
def Handler.block (handler : Handler) : CodeBlock :=
  ⟨handler.start, handler.stop, handler.kind = .final⟩

/-- The try block and the handlers, in order. -/
def Region.blocks (region : Region) : List CodeBlock :=
  ⟨region.tryStart, region.tryStop, false⟩ :: region.handlers.map Handler.block

/-- Blocks fill the code between two positions, and each ends with its exit. -/
inductive CodeBlock.Fill (instrs : Array Instr) (label : Label) :
    (start : Nat) → List CodeBlock → (stop : Nat) → Prop where
  | nil {position : Nat} : Fill instrs label position [] position
  | cons {start stop : Nat} {block : CodeBlock} {blocks : List CodeBlock}
      (isStart : block.start = start) (isNonempty : block.start < block.stop)
      (isLeft : instrs[block.stop - 1]? = some (block.exit label))
      (fill : Fill instrs label block.stop blocks stop) :
      Fill instrs label start (block :: blocks) stop

namespace CodeBlock.Fill

variable {instrs more : Array Instr} {label : Label} {start stop : Nat} {blocks : List CodeBlock}

theorem mono (fill : Fill instrs label start blocks stop)
    (grows : ∀ (position : Nat) (instr : Instr), instrs[position]? = some instr →
      more[position]? = some instr) :
    Fill more label start blocks stop := by
  induction fill with
  | nil => exact .nil
  | cons isStart isNonempty isLeft _ ih => exact .cons isStart isNonempty (grows _ _ isLeft) ih

/-- One more block. -/
theorem snoc {block : CodeBlock} (fill : Fill instrs label start blocks stop)
    (isStart : block.start = stop) (isNonempty : block.start < block.stop)
    (isLeft : instrs[block.stop - 1]? = some (block.exit label)) :
    Fill instrs label start (blocks ++ [block]) block.stop := by
  induction fill with
  | nil => exact .cons isStart isNonempty isLeft .nil
  | cons isFirst isFull isExit _ ih => exact .cons isFirst isFull isExit (ih isStart)

/-- Handlers that fill some code end where the last of them does. -/
theorem foldl_stop {handlers : List Handler}
    (fill : Fill instrs label start (handlers.map Handler.block) stop) :
    (handlers.map Handler.stop).foldl Nat.max start = stop := by
  induction handlers generalizing start with
  | nil =>
      cases fill
      rfl
  | cons handler handlers ih =>
      cases fill with
      | cons isStart isNonempty _ fill =>
          have isLater : start.max handler.stop = handler.stop :=
            Nat.max_eq_right (isStart ▸ isNonempty.le)
          rw [List.map_cons, List.foldl_cons, isLater]
          exact ih fill

end CodeBlock.Fill

/-! ## Regions -/

namespace Region

/-- The blocks of a region with handlers fill the code up to its end, which is left to by way of a
label. -/
structure LaidOut (region : Region) (instrs : Array Instr) (label : Label) : Prop where
  handlers : region.handlers ≠ []
  fill : CodeBlock.Fill instrs label region.tryStart region.blocks region.stop

/-- All of a region lies in a block, before its exit. -/
def InBlock (region : Region) (block : CodeBlock) : Prop :=
  block.start ≤ region.tryStart ∧ region.stop < block.stop

/-- A region ends before another one begins, or it lies in one of its blocks. -/
def Precedes (region other : Region) : Prop :=
  region.stop ≤ other.tryStart ∨ ∃ block ∈ other.blocks, region.InBlock block

variable {region : Region} {instrs more : Array Instr} {label : Label} {stop : Nat}

theorem LaidOut.mono (laid : region.LaidOut instrs label)
    (grows : ∀ (position : Nat) (instr : Instr), instrs[position]? = some instr →
      more[position]? = some instr) :
    region.LaidOut more label :=
  ⟨laid.handlers, laid.fill.mono grows⟩

/-- A region ends where its blocks do. -/
theorem stop_eq (some' : region.handlers ≠ [])
    (fill : CodeBlock.Fill instrs label region.tryStart region.blocks stop) :
    region.stop = stop := by
  unfold Region.stop
  unfold blocks at fill
  cases isHandlers : region.handlers with
  | nil => exact absurd isHandlers some'
  | cons handler handlers =>
      rw [isHandlers] at fill
      cases fill with
      | cons _ _ _ fill =>
          cases fill with
          | cons _ _ _ fill =>
              have isFirst : Nat.max 0 handler.stop = handler.stop := Nat.zero_max _
              change (handlers.map Handler.stop).foldl Nat.max (Nat.max 0 handler.stop) = stop
              rw [isFirst]
              exact fill.foldl_stop

end Region

/-- The code of a region is laid out, within the code, and its label goes where it ends. -/
structure Body.HasRegion (body : Body) (region : Region) : Prop where
  laidOut : ∃ label, region.LaidOut body.instrs label ∧ body.target? label = some region.stop
  within : region.stop ≤ body.instrs.size

/-! ## Regions under construction -/

namespace OpenRegion

/-- The complete blocks. -/
def blocks (region : OpenRegion) : List CodeBlock :=
  region.tryStop.toList.map (⟨region.tryStart, ·, false⟩) ++ region.handlers.map Handler.block

/-- Where the block under construction begins. -/
def blockStart (region : OpenRegion) : Nat :=
  region.current.elim region.tryStart (·.2)

/-- The block under construction, if its exit stands before a position. -/
def lastBlock (region : OpenRegion) (stop : Nat) : CodeBlock :=
  ⟨region.blockStart, stop, region.current.any fun block => block.1 = .final⟩

/-- The region as a closed one. -/
def closed (region : OpenRegion) : Region :=
  ⟨region.tryStart, region.tryStop.getD region.tryStart, region.handlers⟩

/-- The complete blocks of a region fill the code up to the one under construction. -/
structure LaidOut (region : OpenRegion) (instrs : Array Instr) : Prop where
  fill : CodeBlock.Fill instrs region.stop region.tryStart region.blocks region.blockStart
  within : region.blockStart ≤ instrs.size
  guards : region.current = none → region.tryStop = none ∧ region.handlers = []
  handles : region.current ≠ none → region.tryStop ≠ none

/-- A closed region is not on the border of the block under construction. -/
def Spares (region : OpenRegion) (other : Region) : Prop :=
  other.stop ≤ region.tryStart ∨ (∃ block ∈ region.blocks, other.InBlock block) ∨
    region.blockStart ≤ other.tryStart

variable {region : OpenRegion} {instrs more : Array Instr} {position : Nat}

theorem exit_lastBlock : (region.lastBlock position).exit region.stop = region.exit := by
  unfold CodeBlock.exit lastBlock OpenRegion.exit
  rcases region.current with _ | ⟨_ | _, start⟩ <;> rfl

theorem LaidOut.mono (laid : region.LaidOut instrs)
    (grows : ∀ (position : Nat) (instr : Instr), instrs[position]? = some instr →
      more[position]? = some instr)
    (longer : instrs.size ≤ more.size) :
    region.LaidOut more :=
  ⟨laid.fill.mono grows, laid.within.trans longer, laid.guards, laid.handles⟩

/-- The block that is closed comes after the others. -/
theorem LaidOut.blocks_closedAt (laid : region.LaidOut instrs) (position : Nat) :
    (region.closedAt position).blocks = region.blocks ++ [region.lastBlock position] := by
  unfold closedAt blocks lastBlock blockStart
  rcases isCurrent : region.current with _ | ⟨kind, start⟩
  · obtain ⟨noStop, noHandlers⟩ := laid.guards isCurrent
    simp [noStop, noHandlers]
  · simp [Handler.block]

theorem LaidOut.tryStop_closedAt (laid : region.LaidOut instrs) (position : Nat) :
    (region.closedAt position).tryStop ≠ none := by
  unfold closedAt
  rcases isCurrent : region.current with _ | block
  · exact Option.some_ne_none _
  · exact laid.handles (by simp [isCurrent])

theorem handlers_closedAt_ne_nil (isHandler : region.current ≠ none) (position : Nat) :
    (region.closedAt position).handlers ≠ [] := by
  unfold closedAt
  rcases isCurrent : region.current with _ | block
  · exact absurd isCurrent isHandler
  · exact List.append_ne_nil_of_right_ne_nil _ (List.cons_ne_nil _ _)

theorem blocks_closed (isTried : region.tryStop ≠ none) : region.closed.blocks = region.blocks := by
  obtain ⟨stop, isStop⟩ := Option.ne_none_iff_exists'.mp isTried
  simp [closed, blocks, Region.blocks, isStop]

/-- A block is complete with its exit. -/
theorem LaidOut.fill_closedAt {emitter : Emitter} (laid : region.LaidOut emitter.instrs) :
    CodeBlock.Fill (emitter.emit region.exit).instrs region.stop region.tryStart
      (region.closedAt (emitter.position + 1)).blocks (emitter.position + 1) := by
  have isLeft : (emitter.emit region.exit).instrs[emitter.position]? =
      some ((region.lastBlock (emitter.position + 1)).exit region.stop) := by
    rw [exit_lastBlock]
    exact Array.getElem?_push_size
  rw [laid.blocks_closedAt]
  exact (laid.fill.mono (emitter.precedes_emit region.exit).instrs).snoc rfl
    (Nat.lt_succ_of_le laid.within) isLeft

/-- A closed region is apart from one whose last block has been closed, or lies in a block. -/
theorem Spares.precedes {other : Region} (spares : region.Spares other)
    (laid : region.LaidOut instrs) (before : other.stop < position) :
    other.stop ≤ region.tryStart ∨
      ∃ block ∈ (region.closedAt position).blocks, other.InBlock block := by
  rw [laid.blocks_closedAt]
  rcases spares with apart | ⟨block, isBlock, inside⟩ | isLast
  · exact .inl apart
  · exact .inr ⟨block, List.mem_append_left _ isBlock, inside⟩
  · exact .inr ⟨_, List.mem_append_right _ (List.mem_singleton_self _), isLast, before⟩

end OpenRegion

/-! ## Code under construction -/

namespace Emitter

/-- The regions of code under construction.  The open ones lie in each other's blocks under
construction. -/
structure LaidOut (emitter : Emitter) : Prop where
  labels : ∀ index position : Nat, emitter.labels[index]? = some (some position) →
    position ≤ emitter.position
  regions : ∀ region ∈ emitter.regions, ∃ label, region.LaidOut emitter.instrs label ∧
    emitter.labels[label.index]? = some (some region.stop)
  ordered : emitter.regions.Pairwise Region.Precedes
  pending : ∀ region ∈ emitter.pending, region.LaidOut emitter.instrs
  inner : emitter.pending.Pairwise fun region outer => outer.blockStart ≤ region.tryStart
  spared : ∀ region ∈ emitter.regions, ∀ outer ∈ emitter.pending, outer.Spares region

variable {emitter before after : Emitter} {region : OpenRegion} {outer : List OpenRegion}
variable {body : Body}

theorem laidOut_empty : LaidOut {} where
  labels index position isMarked := by simp at isMarked
  regions _ isRegion := by cases isRegion
  ordered := .nil
  pending _ isRegion := by cases isRegion
  inner := .nil
  spared _ isRegion := by cases isRegion

/-- A closed region has been passed. -/
theorem LaidOut.stop_le (laid : emitter.LaidOut) {region : Region}
    (isRegion : region ∈ emitter.regions) : region.stop ≤ emitter.position := by
  obtain ⟨label, -, isStop⟩ := laid.regions region isRegion
  exact laid.labels _ _ isStop

/-- More code in the same regions. -/
theorem LaidOut.mono (laid : before.LaidOut)
    (instrs : ∀ (position : Nat) (instr : Instr), before.instrs[position]? = some instr →
      after.instrs[position]? = some instr)
    (longer : before.position ≤ after.position)
    (marked : ∀ index position : Nat, before.labels[index]? = some (some position) →
      after.labels[index]? = some (some position))
    (labels : ∀ index position : Nat, after.labels[index]? = some (some position) →
      before.labels[index]? = some (some position) ∨ position = after.position)
    (regions : after.regions = before.regions) (pending : after.pending = before.pending) :
    after.LaidOut where
  labels index position isMarked := by
    rcases labels index position isMarked with isOld | rfl
    · exact (laid.labels index position isOld).trans longer
    · exact Nat.le_refl _
  regions region isRegion := by
    obtain ⟨label, isLaid, isStop⟩ := laid.regions region (regions ▸ isRegion)
    exact ⟨label, isLaid.mono instrs, marked _ _ isStop⟩
  ordered := regions ▸ laid.ordered
  pending region isRegion := (laid.pending region (pending ▸ isRegion)).mono instrs longer
  inner := pending ▸ laid.inner
  spared := by
    rw [regions, pending]
    exact laid.spared

section

variable (laid : emitter.LaidOut)
include laid

theorem LaidOut.emit (instr : Instr) : (emitter.emit instr).LaidOut :=
  laid.mono (emitter.precedes_emit instr).instrs (by simp [position, Emitter.emit]) (fun _ _ => id)
    (fun _ _ => .inl) rfl rfl

theorem LaidOut.withLabel : emitter.withLabel.LaidOut := by
  refine laid.mono (fun _ _ => id) (Nat.le_refl _) emitter.precedes_withLabel.labels ?_ rfl rfl
  intro index position isMarked
  rw [Emitter.withLabel, Array.getElem?_push] at isMarked
  split at isMarked
  · cases isMarked
  · exact .inl isMarked

theorem LaidOut.withMark {label : Label} (isOpen : emitter.labels[label.index]? = some none) :
    (emitter.withMark label).LaidOut := by
  refine laid.mono (fun _ _ => id) (Nat.le_refl _) (emitter.precedes_withMark isOpen).labels ?_ rfl rfl
  intro index position isMarked
  rw [Emitter.withMark, Array.getElem?_setIfInBounds] at isMarked
  split at isMarked
  · split at isMarked
    · cases isMarked
      exact .inr rfl
    · cases isMarked
  · exact .inl isMarked

/-- Without the innermost region. -/
theorem LaidOut.drop (isPending : emitter.pending = region :: outer) :
    LaidOut { emitter with pending := outer } where
  labels := laid.labels
  regions := laid.regions
  ordered := laid.ordered
  pending other isOuter := laid.pending other (isPending ▸ List.mem_cons_of_mem _ isOuter)
  inner := (List.pairwise_cons.mp (isPending ▸ laid.inner)).2
  spared other isOther outer isOuter :=
    laid.spared other isOther outer (isPending ▸ List.mem_cons_of_mem _ isOuter)

/-- One more open region. -/
theorem LaidOut.push (region : OpenRegion) (isLaid : region.LaidOut emitter.instrs)
    (inner : ∀ outer ∈ emitter.pending, outer.blockStart ≤ region.tryStart)
    (spared : ∀ other ∈ emitter.regions, region.Spares other) :
    LaidOut { emitter with pending := region :: emitter.pending } where
  labels := laid.labels
  regions := laid.regions
  ordered := laid.ordered
  pending := List.forall_mem_cons.mpr ⟨isLaid, laid.pending⟩
  inner := List.pairwise_cons.mpr ⟨inner, laid.inner⟩
  spared other isOther := List.forall_mem_cons.mpr ⟨spared other isOther, laid.spared other isOther⟩

/-- One more closed region. -/
theorem LaidOut.add (region : Region) {label : Label} (isLaid : region.LaidOut emitter.instrs label)
    (isStop : emitter.labels[label.index]? = some (some region.stop))
    (precedes : ∀ other ∈ emitter.regions, other.Precedes region)
    (spared : ∀ outer ∈ emitter.pending, outer.Spares region) :
    LaidOut { emitter with regions := emitter.regions ++ [region] } where
  labels := laid.labels
  regions other isOther := by
    rcases List.mem_append.mp isOther with isOld | isNew
    · exact laid.regions other isOld
    · obtain rfl := List.mem_singleton.mp isNew
      exact ⟨label, isLaid, isStop⟩
  ordered := List.pairwise_append.mpr ⟨laid.ordered, List.pairwise_singleton _ _,
    fun other isOther _ isNew => List.mem_singleton.mp isNew ▸ precedes other isOther⟩
  pending := laid.pending
  inner := laid.inner
  spared other isOther outer isOuter := by
    rcases List.mem_append.mp isOther with isOld | isNew
    · exact laid.spared other isOld outer isOuter
    · exact List.mem_singleton.mp isNew ▸ spared outer isOuter

/-! ## Calls -/

theorem LaidOut.beginTry : emitter.beginTry.2.LaidOut := by
  refine laid.withLabel.push ⟨⟨emitter.labels.size⟩, emitter.position, none, [], none⟩
    ⟨.nil, Nat.le_refl _, fun _ => ⟨rfl, rfl⟩, fun isHandler => absurd rfl isHandler⟩ ?_ ?_
  · exact fun outer isOuter => (laid.pending outer isOuter).within
  · exact fun other isOther => .inl (laid.stop_le isOther)

/-- The next handler of the innermost region. -/
theorem LaidOut.withHandler (isPending : emitter.pending = region :: outer) (kind : HandlerKind) :
    ((emitter.shut region outer).withHandler
      (region.closedAt (emitter.position + 1)) kind).LaidOut := by
  have isLaid := laid.pending region (isPending ▸ List.mem_cons_self)
  have isLonger : (emitter.emit region.exit).position = emitter.position + 1 := Array.size_push _
  refine ((laid.emit region.exit).drop isPending).push
    { region.closedAt (emitter.position + 1) with
      current := some (kind, (emitter.emit region.exit).position) } ⟨?_, ?_, ?_, ?_⟩ ?_ ?_
  · change CodeBlock.Fill _ (region.closedAt _).stop (region.closedAt _).tryStart
      (region.closedAt _).blocks (emitter.emit region.exit).position
    rw [isLonger, OpenRegion.stop_closedAt, OpenRegion.tryStart_closedAt]
    exact isLaid.fill_closedAt
  · exact Nat.le_refl _
  · intro isNone
    cases isNone
  · exact fun _ => isLaid.tryStop_closedAt _
  · intro other isOuter
    rw [OpenRegion.tryStart_closedAt]
    exact (List.pairwise_cons.mp (isPending ▸ laid.inner)).1 other isOuter
  · intro other isOther
    have spares := laid.spared other isOther region (isPending ▸ List.mem_cons_self)
    have before := Nat.lt_succ_of_le (laid.stop_le isOther)
    rcases spares.precedes isLaid before with apart | inside
    · exact .inl (apart.trans_eq (region.tryStart_closedAt _).symm)
    · exact .inr (.inl inside)

/-- The end of the innermost region. -/
theorem LaidOut.withRegion (isPending : emitter.pending = region :: outer)
    (isHandler : region.current ≠ none) (isOpen : emitter.labels[region.stop.index]? = some none) :
    ((emitter.shut region outer).withRegion (region.closedAt (emitter.position + 1))).LaidOut := by
  have isLaid := laid.pending region (isPending ▸ List.mem_cons_self)
  have isLast := List.pairwise_cons.mp (isPending ▸ laid.inner)
  generalize isClosed : region.closedAt (emitter.position + 1) = closed
  have sameStop : closed.stop = region.stop := isClosed ▸ region.stop_closedAt _
  have sameStart : closed.tryStart = region.tryStart := isClosed ▸ region.tryStart_closedAt _
  have isTried : closed.tryStop ≠ none := isClosed ▸ isLaid.tryStop_closedAt _
  have handled : closed.handlers ≠ [] := isClosed ▸ OpenRegion.handlers_closedAt_ne_nil isHandler _
  have fill : CodeBlock.Fill (emitter.emit region.exit).instrs closed.stop closed.tryStart
      closed.closed.blocks (emitter.position + 1) := by
    rw [OpenRegion.blocks_closed isTried, sameStop, sameStart, ← isClosed]
    exact isLaid.fill_closedAt
  have isStop : closed.closed.stop = emitter.position + 1 := Region.stop_eq handled fill
  have unmarked : (emitter.emit region.exit).labels[closed.stop.index]? = some none :=
    sameStop ▸ isOpen
  have marked := LaidOut.withMark ((laid.emit region.exit).drop isPending) unmarked
  have isRegion : closed.closed.LaidOut (emitter.emit region.exit).instrs closed.stop :=
    ⟨handled, isStop ▸ fill⟩
  refine marked.add closed.closed isRegion ?_ ?_ ?_
  · obtain ⟨within, -⟩ := Array.getElem?_eq_some_iff.mp unmarked
    have isLonger : (emitter.emit region.exit).position = emitter.position + 1 := Array.size_push _
    rw [isStop, ← isLonger]
    exact Array.getElem?_setIfInBounds_self_of_lt within
  · intro other isOther
    have spares := laid.spared other isOther region (isPending ▸ List.mem_cons_self)
    have before := Nat.lt_succ_of_le (laid.stop_le isOther)
    rcases spares.precedes isLaid before with apart | inside
    · exact .inl (apart.trans_eq sameStart.symm)
    · rw [isClosed, ← OpenRegion.blocks_closed isTried] at inside
      exact .inr inside
  · intro other isOuter
    exact .inr (.inr ((isLast.1 other isOuter).trans_eq sameStart.symm))

end

/-- One call. -/
theorem LaidOut.run (laid : before.LaidOut) {call : EmitterCall}
    (accepted : call.run.run before = .ok () after) : after.LaidOut := by
  cases call with
  | emit instr =>
      cases accepted
      exact laid.emit instr
  | defineLabel =>
      cases accepted
      exact laid.withLabel
  | markLabel label =>
      obtain ⟨isOpen, rfl⟩ := markLabel_eq_ok.mp accepted
      exact laid.withMark isOpen
  | declareLocal type pinned =>
      rw [EmitterCall.run_declareLocal] at accepted
      split at accepted <;> cases accepted
      exact laid.mono (fun _ _ => id) (Nat.le_refl _) (fun _ _ => id) (fun _ _ => .inl) rfl rfl
  | beginTry =>
      cases accepted
      exact laid.beginTry
  | beginCatch type =>
      rw [EmitterCall.run, run_beginCatch] at accepted
      split at accepted
      · cases accepted
      · next isPending =>
          split at accepted <;> cases accepted
          exact laid.withHandler isPending _
  | beginFinally =>
      rw [EmitterCall.run, run_beginFinally] at accepted
      split at accepted <;> cases accepted
      next isPending => exact laid.withHandler isPending _
  | endTry =>
      rw [EmitterCall.run, run_endTry] at accepted
      split at accepted
      · cases accepted
      · next isPending =>
          split at accepted
          · cases accepted
          · next isHandler =>
              split at accepted <;> cases accepted
              next isOpen => exact laid.withRegion isPending isHandler isOpen

/-- A run of accepted calls. -/
theorem LaidOut.forM (laid : before.LaidOut) {calls : List EmitterCall}
    (accepted : (calls.forM EmitterCall.run).run before = .ok () after) : after.LaidOut := by
  induction calls generalizing before with
  | nil =>
      cases accepted
      exact laid
  | cons call calls ih =>
      obtain ⟨⟨⟩, middle, first, rest⟩ := bind_eq_ok.mp accepted
      exact ih (laid.run first) rest

/-! ## Finished code -/

/-- The labels of finished code are those that were handed out, all with a position. -/
theorem labels_of_finish (finished : emitter.finish = .ok body) :
    emitter.labels = body.labels.map some := by
  unfold finish at finished
  split at finished
  · cases finished
  · obtain ⟨labels, arePositions, ⟨⟩⟩ := ClassForge.bind_eq_ok.mp finished
    have all : List.Forall₂ (fun (entry : Option Nat × Nat) position => entry.1 = some position)
        emitter.labels.toList.zipIdx labels := by
      refine (mapM_eq_ok.mp arePositions).imp fun entry position isPosition => ?_
      split at isPosition <;> cases isPosition
      rfl
    have same : emitter.labels.toList.zipIdx.map Prod.fst = labels.map some := by
      rw [← List.forall₂_eq_eq_eq, List.forall₂_map_left_iff, List.forall₂_map_right_iff]
      exact all
    rw [List.zipIdx_map_fst] at same
    exact Array.toList_inj.mp (by simpa using same)

/-- In finished code the blocks of every region stand one after the other, each with its exit, and
the label of the region goes to its end.  Of two regions the first one ends before the second one
begins or lies in one of its blocks.  All labels go to positions of the code or to its end. -/
theorem finished_regions {calls : List EmitterCall}
    (accepted : (calls.forM EmitterCall.run).run {} = .ok () emitter)
    (finished : emitter.finish = .ok body) :
    (∀ region ∈ body.regions, body.HasRegion region) ∧ body.regions.Pairwise Region.Precedes ∧
      body.labels.size = emitter.labels.size ∧
      ∀ label : Label, label.index < emitter.labels.size →
        ∃ position ≤ body.instrs.size, body.target? label = some position := by
  have laid := laidOut_empty.forM accepted
  have sameLabels := labels_of_finish finished
  obtain ⟨labels, arePlaced, rfl⟩ := finish_eq_ok finished
  refine ⟨fun region isRegion => ?_, laid.ordered, ?_, fun label within => ?_⟩
  · obtain ⟨label, isLaid, isStop⟩ := laid.regions region isRegion
    have isTarget := (placedIn_of_finish finished).labels _ _ isStop
    exact ⟨⟨label, isLaid, isTarget⟩, laid.stop_le isRegion⟩
  · rw [sameLabels, Array.size_map]
  · obtain ⟨position, isTarget, isMarked⟩ := arePlaced label.index within
    exact ⟨position, laid.labels _ _ isMarked, isTarget⟩

/-- The finished code of calls that are all accepted. -/
def code? (calls : List EmitterCall) : Option Body :=
  match (calls.forM EmitterCall.run).run {} with
  | .ok _ emitter => emitter.finish.toOption
  | .error _ _ => none

theorem code?_eq_some {calls : List EmitterCall} (isCode : code? calls = some body) :
    ∃ emitter, (calls.forM EmitterCall.run).run {} = .ok () emitter ∧
      emitter.finish = .ok body := by
  unfold code? at isCode
  split at isCode
  · next emitter accepted =>
      cases finished : emitter.finish with
      | error => simp [finished, Except.toOption] at isCode
      | ok built =>
          obtain rfl : built = body := by simpa [finished, Except.toOption] using isCode
          exact ⟨emitter, accepted, finished⟩
  · cases isCode

/-- A block in the handler of another one, and a label between their ends. -/
def nestedCalls : List EmitterCall :=
  [.beginTry, .emit .nop, .beginCatch .object, .emit .pop, .beginTry, .emit .nop,
    .beginCatch .object, .emit .pop, .beginFinally, .endTry, .defineLabel, .markLabel ⟨2⟩, .endTry,
    .emit .ret]

/-- A try block within the catch handler of another one. -/
def nestedBody : Body where
  instrs := #[.nop, .leave ⟨0⟩, .pop, .nop, .leave ⟨1⟩, .pop, .leave ⟨1⟩, .endFinally, .leave ⟨0⟩,
    .ret]
  labels := #[9, 8, 8]
  locals := #[]
  regions :=
    [⟨3, 5, [⟨.catching .object, 5, 7⟩, ⟨.final, 7, 8⟩]⟩, ⟨0, 2, [⟨.catching .object, 2, 9⟩]⟩]

theorem nestedBody_regions : ∃ emitter,
    (nestedCalls.forM EmitterCall.run).run {} = .ok () emitter ∧
      emitter.finish = .ok nestedBody ∧
      (∀ region ∈ nestedBody.regions, nestedBody.HasRegion region) ∧
      nestedBody.regions.Pairwise Region.Precedes ∧
      nestedBody.labels.size = emitter.labels.size ∧
      ∀ label : Label, label.index < emitter.labels.size →
        ∃ position ≤ nestedBody.instrs.size, nestedBody.target? label = some position := by
  have isCode : code? nestedCalls = some nestedBody := by decide +kernel
  obtain ⟨emitter, accepted, finished⟩ := code?_eq_some isCode
  exact ⟨emitter, accepted, finished, finished_regions accepted finished⟩

end Emitter

end ClassForge
