import ClassForge.Proofs.Machine.ConfinedFrames

/-!
# How a `try` block is evaluated

An activation of a block runs its body, and the first handler that fits if an exception reaches the
block; then it runs the final part, and delivers a value or an exception.  `TryStart.Settles` and
`TryStart.Delivers` say so, and `TryStart.Stage` which point of this a configuration is at.  Every
transition leads from one stage to the next one, so every run goes through the stages until the
block is over.
-/

namespace ClassForge

/-! ## Looking for a handler -/

/-- A handler is the first one of a block with a type that an exception is an instance of. -/
def TryLayout.Catches (layout : TryLayout) (image : Image) (heap : Heap) (exception : Value)
    (extent : Extent) : Prop :=
  ∃ before type after, layout.catches = before ++ (type, extent) :: after ∧
    Store.isInstance image heap exception type = .ok true ∧
      ∀ earlier ∈ before, Store.isInstance image heap exception earlier.1 = .ok false

/-- No handler has a type that an exception is an instance of. -/
def TryLayout.Passes (layout : TryLayout) (image : Image) (heap : Heap) (exception : Value) : Prop :=
  ∀ clause ∈ layout.catches, Store.isInstance image heap exception clause.1 = .ok false

namespace Exec

variable {image : Image} {store : Store} {value : Value} {type : RunTy}

theorem run_isInstance {holds : Bool}
    (found : Store.isInstance image store.heap value type = .ok holds) :
    (Exec.isInstance image value type).run store = .ok holds store := by
  unfold Exec.isInstance
  rw [EStateM.run_bind, show Exec.heap.run store = .ok store.heap store from rfl]
  dsimp only
  rw [found]
  rfl

theorem run_isInstance_error {error : ImageError}
    (found : Store.isInstance image store.heap value type = .error error) :
    (Exec.isInstance image value type).run store = .error (.fatal (.image error)) store := by
  unfold Exec.isInstance
  rw [EStateM.run_bind, show Exec.heap.run store = .ok store.heap store from rfl]
  dsimp only
  rw [found]
  rfl

/-- Types are tried in their order. -/
theorem run_findInstance {α : Type} (clauses : List (RunTy × α)) {test : RunTy × α → Exec Bool}
    (isTest : ∀ clause, test clause = Exec.isInstance image value clause.1) :
    (∃ error, (clauses.findM? test).run store = .error (.fatal error) store) ∨
    (∃ before clause after, clauses = before ++ clause :: after ∧
      Store.isInstance image store.heap value clause.1 = .ok true ∧
      (∀ earlier ∈ before, Store.isInstance image store.heap value earlier.1 = .ok false) ∧
      (clauses.findM? test).run store = .ok (some clause) store) ∨
    ((∀ clause ∈ clauses, Store.isInstance image store.heap value clause.1 = .ok false) ∧
      (clauses.findM? test).run store = .ok none store) := by
  induction clauses with
  | nil => exact .inr (.inr ⟨List.forall_mem_nil _, rfl⟩)
  | cons clause clauses ih =>
      rw [List.findM?, EStateM.run_bind, isTest]
      cases isTested : Store.isInstance image store.heap value clause.1 with
      | error error =>
          rw [run_isInstance_error isTested]
          exact .inl ⟨_, rfl⟩
      | ok holds =>
          rw [run_isInstance isTested]
          cases holds with
          | true =>
              exact .inr (.inl ⟨[], clause, clauses, rfl, isTested, List.forall_mem_nil _, rfl⟩)
          | false =>
              rcases ih with ⟨error, isError⟩ | ⟨before, first, after, same, fits, none, isFound⟩ |
                ⟨none, isFound⟩
              · exact .inl ⟨error, isError⟩
              · refine .inr (.inl ⟨clause :: before, first, after, by rw [same]; rfl, fits, ?_, isFound⟩)
                exact List.forall_mem_cons.mpr ⟨isTested, none⟩
              · exact .inr (.inr ⟨List.forall_mem_cons.mpr ⟨isTested, none⟩, isFound⟩)

end Exec

/-! ## Regions of a layout -/

namespace TryLayout

variable (layout : TryLayout)

/-- The handler at an extent. -/
def handlerAt (kind : HandlerKind) (extent : Extent) : Handler :=
  ⟨kind, extent.start, extent.exit + 1⟩

theorem catches_region : layout.region.catches =
    layout.catches.map fun clause => (clause.1, handlerAt (.catching clause.1) clause.2) := by
  have none : (layout.final.toList.map (handlerAt .final)).filterMap (fun handler =>
      handler.kind.caught?.map fun type => (type, handler)) = [] :=
    List.filterMap_eq_nil_iff.mpr fun handler isHandler => by
      obtain ⟨extent, -, rfl⟩ := List.mem_map.mp isHandler
      rfl
  unfold Region.catches region handlers
  rw [List.filterMap_append, List.filterMap_map]
  refine (congrArg _ none).trans ?_
  rw [List.append_nil]
  exact congrFun (@List.filterMap_eq_map _ _ fun clause : RunTy × Extent =>
    (clause.1, handlerAt (.catching clause.1) clause.2)) layout.catches

theorem final_region : layout.region.final? = layout.final.map (handlerAt .final) := by
  have none : (layout.catches.map fun clause => handlerAt (.catching clause.1) clause.2).find?
      (fun handler => handler.kind = .final) = none :=
    List.find?_eq_none.mpr fun handler isHandler => by
      obtain ⟨clause, -, rfl⟩ := List.mem_map.mp isHandler
      simp [handlerAt]
  unfold Region.final? region handlers
  rw [List.find?_append]
  refine (congrArg (Option.or · _) none).trans ?_
  cases layout.final <;> rfl

theorem finalCovers_region {position : Nat} : layout.region.finalCovers position = true ↔
    ∃ extent ∈ layout.final, layout.guarded.start ≤ position ∧ position < extent.start := by
  unfold Region.finalCovers
  rw [final_region]
  cases layout.final with
  | none => simp
  | some extent =>
      rw [Option.map_some, Option.any_some, Bool.and_eq_true_iff, decide_eq_true_iff,
        decide_eq_true_iff]
      simp [region, handlerAt]

theorem tryCovers_region {position : Nat} : layout.region.tryCovers position = true ↔
    layout.guarded.start ≤ position ∧ position ≤ layout.guarded.exit := by
  rw [Region.tryCovers, Bool.and_eq_true_iff, decide_eq_true_iff, decide_eq_true_iff]
  exact and_congr_right fun _ => Nat.lt_succ_iff

theorem stop_region_le {bound : Nat} (before : ∀ extent ∈ layout.extents, extent.exit < bound) :
    layout.region.stop ≤ bound := by
  have all : ∀ stops : List Nat, (∀ stop ∈ stops, stop ≤ bound) → ∀ first ≤ bound,
      stops.foldl Nat.max first ≤ bound := by
    intro stops areBelow
    induction stops with
    | nil => exact fun _ => id
    | cons stop stops ih =>
        obtain ⟨isBelow, areBelow⟩ := List.forall_mem_cons.mp areBelow
        exact fun first isFirst => ih areBelow _ (Nat.max_le.mpr ⟨isFirst, isBelow⟩)
  have handlers : ∀ handler ∈ layout.region.handlers, handler.stop ≤ bound := by
    intro handler isHandler
    rcases List.mem_append.mp isHandler with isCatch | isFinal
    · obtain ⟨clause, isClause, rfl⟩ := List.mem_map.mp isCatch
      exact before _ (List.mem_cons_of_mem _ (List.mem_append_left _ (List.mem_map_of_mem isClause)))
    · obtain ⟨extent, isExtent, rfl⟩ := List.mem_map.mp isFinal
      exact before _ (List.mem_cons_of_mem _ (List.mem_append_right _ isExtent))
  unfold Region.stop
  split
  · exact before _ List.mem_cons_self
  · refine all _ (fun stop isStop => ?_) 0 (Nat.zero_le _)
    obtain ⟨handler, isHandler, rfl⟩ := List.mem_map.mp isStop
    exact handlers handler isHandler

/-- The body of a block or one of its handlers lies at an extent. -/
def IsPart (extent : Extent) : Prop :=
  extent = layout.guarded ∨ ∃ type, (type, extent) ∈ layout.catches

variable {layout} {body : Body} {extent : Extent}

theorem Fits.part (fits : layout.Fits body) (isPart : layout.IsPart extent) :
    body.HasPart layout.least extent layout.keeps (.leave stopLabel) := by
  rcases isPart with rfl | ⟨type, isCatch⟩
  · exact fits.guarded
  · exact fits.catches _ isCatch

theorem IsPart.mem (isPart : layout.IsPart extent) : extent ∈ layout.extents := by
  rcases isPart with rfl | ⟨type, isCatch⟩
  · exact List.mem_cons_self
  · exact List.mem_cons_of_mem _ (List.mem_append_left _ (List.mem_map_of_mem isCatch))

/-- The final part comes after the others. -/
theorem Fits.before_final (fits : layout.Fits body) (isPart : layout.IsPart extent)
    {final : Extent} (isFinal : final ∈ layout.final) : extent.exit < final.start := by
  have ordered := fits.ordered
  unfold extents at ordered
  rw [List.pairwise_append] at ordered
  refine ordered.2.2 extent ?_ final (Option.mem_toList.mpr isFinal)
  rcases isPart with rfl | ⟨type, isCatch⟩
  · exact List.mem_cons_self
  · exact List.mem_cons_of_mem _ (List.mem_map_of_mem isCatch)

/-- Handlers come after the body. -/
theorem Fits.after_guarded (fits : layout.Fits body) {type : RunTy}
    (isCatch : (type, extent) ∈ layout.catches) : layout.guarded.exit < extent.start := by
  have ordered := fits.ordered
  unfold extents at ordered
  exact (List.pairwise_cons.mp ordered).1 _ (List.mem_append_left _ (List.mem_map_of_mem isCatch))

end TryLayout

theorem Body.HasPart.done_le {body : Body} {least : Nat} {extent : Extent} {glue : List Instr}
    {exit : Instr} (part : body.HasPart least extent glue exit) : extent.done ≤ extent.exit := by
  rw [part.exit]
  exact Nat.le_add_right _ _

namespace Frame

variable {image : Image} {frame : Frame} {layout : TryLayout} {exception : Value} {position : Nat}
variable {store : Store}

/-- An exception that no handler takes leads to the final part, or out of the frame. -/
theorem finalAmong_proceeds :
    let leads : Exec (Option Frame) := do
      if layout.region.finalCovers position then
        if let some handler := layout.region.final? then
          return some (frame.enterFinal handler exception position 1)
      handlerAmong image frame exception position []
    (∃ extent, layout.final = some extent ∧ layout.region.finalCovers position = true ∧
      leads.run store = .ok (some (frame.enterFinal (TryLayout.handlerAt .final extent) exception
        position 1)) store) ∨
    layout.region.finalCovers position = false ∧ leads.run store = .ok none store := by
  intro leads
  cases covers : layout.region.finalCovers position with
  | false =>
      refine .inr ⟨rfl, ?_⟩
      unfold leads
      rw [if_neg (by simp [covers])]
      rfl
  | true =>
      obtain ⟨extent, isFinal, -⟩ := layout.finalCovers_region.mp covers
      refine .inl ⟨extent, isFinal, rfl, ?_⟩
      unfold leads
      rw [if_pos covers, layout.final_region, isFinal]
      rfl

/-- How an exception goes on from a position in a block: the run fails, or the first handler that
fits takes it, or the final part does, or it leaves the frame. -/
theorem unwind_proceeds (isRegion : frame.body.regions = [layout.region]) :
    (∃ error, (frame.unwind image exception position 0).run store = .error (.fatal error) store) ∨
    (∃ type extent, layout.region.tryCovers position = true ∧
      layout.Catches image store.heap exception extent ∧
      (frame.unwind image exception position 0).run store = .ok (some (frame.enterCatch layout.region
        (TryLayout.handlerAt (.catching type) extent) exception)) store) ∨
    ((layout.region.tryCovers position = true → layout.Passes image store.heap exception) ∧
      ((∃ extent, layout.final = some extent ∧ layout.region.finalCovers position = true ∧
        (frame.unwind image exception position 0).run store = .ok (some (frame.enterFinal
          (TryLayout.handlerAt .final extent) exception position 1)) store) ∨
      (layout.region.finalCovers position = false ∧
        (frame.unwind image exception position 0).run store = .ok none store))) := by
  have looks : frame.unwind image exception position 0 =
      frame.handlerAmong image exception position [(layout.region, 0)] := by
    unfold unwind
    rw [isRegion]
    rfl
  have finals := @finalAmong_proceeds image frame layout exception position store
  rw [looks, handlerAmong]
  cases covers : layout.region.tryCovers position with
  | false =>
      rw [if_neg (by simp)]
      exact .inr (.inr ⟨nofun, finals⟩)
  | true =>
      rw [if_pos rfl, EStateM.run_bind, layout.catches_region]
      rcases @Exec.run_findInstance image store exception _ (layout.catches.map fun clause =>
          (clause.1, TryLayout.handlerAt (.catching clause.1) clause.2)) _ fun _ => rfl with
        ⟨error, isError⟩ | ⟨before, clause, after, same, fits, none, isFound⟩ | ⟨none, isFound⟩
      · rw [isError]
        exact .inl ⟨error, rfl⟩
      · rw [isFound]
        obtain ⟨early, rest, isCatches, rfl, isRest⟩ := List.map_eq_append_iff.mp same
        obtain ⟨⟨type, extent⟩, late, rfl, rfl, rfl⟩ := List.map_eq_cons_iff.mp isRest
        refine .inr (.inl ⟨type, extent, rfl, ⟨early, type, late, isCatches, fits, ?_⟩, rfl⟩)
        exact fun earlier isEarlier => none _ (List.mem_map_of_mem isEarlier)
      · rw [isFound]
        refine .inr (.inr ⟨fun _ => fun clause isClause => ?_, finals⟩)
        exact none _ (List.mem_map_of_mem isClause)

end Frame

/-! ## Leaving parts -/

namespace FrameStep

variable {image : Image} {frame : Frame} {current target : Nat} {label : Label} {store : Store}

theorem run_leave (isTarget : frame.body.target? label = some target) :
    ((execute image current (.leave label)).run frame).run store =
      .ok (.next, frame.leaveThrough target (Frame.finalsBetween frame.body current target)) store := by
  change ((liftM (Exec.require (frame.body.target? label) (.unmarkedLabel label.index)) >>= fun target =>
    set (frame.leaveThrough target (Frame.finalsBetween frame.body current target)) >>= fun _ =>
      pure Flow.next : FrameStep Flow).run frame).run store = _
  rw [isTarget]
  rfl

theorem run_endFinally_leave {handlers : List Nat} {handler : Nat}
    (isPending : frame.pending = [.leave target handlers handler]) :
    ((execute image current .endFinally).run frame).run store =
      .ok (.next, Frame.leaveThrough { frame with pending := [] } target handlers) store := by
  obtain ⟨body, args, locals, stack, position, pending⟩ := frame
  obtain rfl : pending = [.leave target handlers handler] := isPending
  rfl

theorem run_endFinally_unwind {exception : Value} {position region handler : Nat}
    (isPending : frame.pending = [.unwind exception position region handler]) :
    ((execute image current .endFinally).run frame).run store =
      .ok (.resume exception position region, { frame with pending := [] }) store := by
  obtain ⟨body, args, locals, stack, place, pending⟩ := frame
  obtain rfl : pending = [.unwind exception position region handler] := isPending
  rfl

theorem run_loadLocal {slot : Nat} {value : Value} (isLocal : frame.locals[slot]? = some value) :
    ((execute image current (.loadLocal slot)).run frame).run store =
      .ok (.next, { frame with stack := value :: frame.stack }) store := by
  change ((liftM (Exec.require frame.locals[slot]? .localIndex) >>= fun value =>
    push value >>= fun _ => pure Flow.next : FrameStep Flow).run frame).run store = _
  rw [isLocal]
  rfl

theorem run_ret : ((execute image current .ret).run frame).run store =
    .ok (.ret (frame.stack.head?.getD .null), frame) store :=
  rfl

/-- A value is dropped, or the run fails. -/
theorem run_pop_instr :
    (∃ error last, ((execute image current .pop).run frame).run store = .error (.fatal error) last) ∨
      ∃ rest, ((execute image current .pop).run frame).run store =
        .ok (.next, { frame with stack := rest }) store := by
  obtain ⟨body, args, locals, stack, position, pending⟩ := frame
  cases stack with
  | nil => exact .inl ⟨_, _, rfl⟩
  | cons top rest => exact .inr ⟨rest, rfl⟩

/-- A value is stored in a local that is not pinned, or the run fails. -/
theorem run_storeLocal {slot : Nat} (unpinned : frame.body.Unpinned) :
    (∃ error last, ((execute image current (.storeLocal slot)).run frame).run store =
      .error (.fatal error) last) ∨
    ∃ top rest value later, frame.stack = top :: rest ∧
      (Exec.copy top).run store = .ok value later ∧ slot < frame.locals.size ∧
      ((execute image current (.storeLocal slot)).run frame).run store = .ok (.next,
        { frame with stack := rest, locals := frame.locals.setIfInBounds slot value }) later := by
  have splits : execute image current (.storeLocal slot) =
      (pop >>= fun value => storeLocal slot value >>= fun _ => pure .next) := rfl
  cases isStack : frame.stack with
  | nil =>
      refine .inl ⟨.invalidProgram .stackUnderflow, store, ?_⟩
      rw [splits, StateT.run_bind, EStateM.run_bind]
      unfold pop
      rw [StateT.run_bind, StateT.run_get, pure_bind, isStack]
      rfl
  | cons top rest =>
      have popped : (pop.run frame).run store = .ok (top, { frame with stack := rest }) store := by
        rw [run_pop isStack]
        rfl
      have copied := Exec.run_copy top store
      rw [splits, FrameStep.run_bind popped]
      generalize (store.heap.copy top).1 = value at copied
      generalize Store.mk (store.heap.copy top).2 store.statics store.output = later at copied
      cases isLocal : frame.locals[slot]? with
      | none =>
          refine .inl ⟨.invalidProgram .localIndex, later, ?_⟩
          unfold storeLocal
          rw [bind_assoc, FrameStep.run_bind (run_lift copied), bind_assoc,
            FrameStep.run_bind (Machine.Seat.run_frame _ _)]
          dsimp only
          rw [isLocal]
          rfl
      | some old =>
          refine .inr ⟨top, rest, value, later, rfl, copied,
            (Array.getElem?_eq_some_iff.mp isLocal).1, ?_⟩
          unfold storeLocal
          rw [bind_assoc, FrameStep.run_bind (run_lift copied), bind_assoc,
            FrameStep.run_bind (Machine.Seat.run_frame _ _)]
          dsimp only
          rw [isLocal]
          dsimp only
          rw [if_neg (by simp [unpinned.slot])]
          rfl

end FrameStep

/-- Control that leaves a block before its final part has to run that part. -/
theorem Frame.finalsBetween_region {body : Body} {layout : TryLayout} {source target : Nat}
    (isRegion : body.regions = [layout.region]) (from' : layout.guarded.start ≤ source)
    (before : ∀ extent ∈ layout.final, source < extent.start)
    (beyond : ∀ extent ∈ layout.extents, extent.exit < target) :
    Frame.finalsBetween body source target = layout.final.toList.map (·.start) := by
  have outside : (layout.region.tryStart ≤ target && target < layout.region.stop) = false := by
    rw [Bool.and_eq_false_imp]
    exact fun _ => decide_eq_false (Nat.not_lt.mpr (layout.stop_region_le beyond))
  unfold Frame.finalsBetween
  rw [isRegion, List.filterMap_cons, List.filterMap_nil, outside, Bool.not_false, Bool.and_true,
    layout.final_region]
  cases isFinal : layout.final with
  | none =>
      rw [Option.map_none, Option.map_none, ite_self]
      rfl
  | some extent =>
      rw [if_pos (layout.finalCovers_region.mpr ⟨extent, isFinal, from', before extent isFinal⟩)]
      rfl

/-! ## Activations -/

/-- A `try` block that begins: its frame stands at the first instruction, on top of levels that
wait for it. -/
structure TryStart (image : Image) where
  limit : Nat
  seat : Machine.Seat
  layout : TryLayout
  frame : Frame
  store : Store
  fits : layout.Fits frame.body
  position : frame.position = 0
  pending : frame.pending = []

/-- The value of a part that has ended is kept: the one on top of the stack, where an instance of a
value type is copied, goes to the local for it.  A block without a value gives null. -/
def TryLayout.Keeps (layout : TryLayout) (frame : Frame) (store : Store) (value : Value)
    (kept : Frame) (later : Store) : Prop :=
  match layout.result with
  | none => value = .null ∧ kept = frame ∧ later = store
  | some slot => ∃ top rest, frame.stack = top :: rest ∧
      (Exec.copy top).run store = .ok value later ∧ slot < frame.locals.size ∧
        kept = { frame with locals := frame.locals.setIfInBounds slot value }

/-- The local for the value of a block holds it. -/
def TryLayout.Holds (layout : TryLayout) (value : Value) (frame : Frame) : Prop :=
  match layout.result with
  | none => value = .null
  | some slot => frame.locals[slot]? = some value

/-- What follows a final part at an extent: the block is left, or the exception that was on its way
is raised again. -/
inductive TryLayout.Resumes (layout : TryLayout) (extent : Extent) :
    Except Value Value → Pending → Prop
  | value (value : Value) : Resumes layout extent (.ok value) (.leave layout.stop [] extent.start)
  | exception (exception : Value) (position : Nat) :
      Resumes layout extent (.error exception) (.unwind exception position 1 extent.start)

/-- Control stays where it is, leaves a part, or goes on from a part to a later one, which begins. -/
inductive Extent.Moves :
    List Extent → Option Extent → List Extent → Option Extent → Prop
  | stays (begun : List Extent) (place : Option Extent) : Moves begun place begun place
  | leaves (begun : List Extent) (extent : Extent) : Moves begun (some extent) begun none
  | starts (begun : List Extent) {extent next : Extent} (later : extent.exit < next.start) :
      Moves begun (some extent) (begun ++ [next]) (some next)

namespace TryStart

variable {image : Image} (start : TryStart image)

/-- The frame of the block is about to execute an instruction. -/
def executing (frame : Frame) (store : Store) : Config :=
  ⟨.execute frame start.seat.isCtor, start.seat.levels, start.seat.room, store⟩

/-- The block begins. -/
def config : Config :=
  start.executing start.frame start.store

/-- The block hands a value or an exception to the levels that wait for it. -/
def delivering (result : Except Value Value) (store : Store) : Config :=
  match result with
  | .ok value => ⟨.deliver value, start.seat.levels, start.seat.room, store⟩
  | .error exception => ⟨.raise exception, start.seat.levels, start.seat.room, store⟩

/-- A run in a part, on a frame that differs from another one in its stack, its position and the
locals of the part only. -/
def RunsIn (base : Frame) (extent : Extent) : Config → Config → Prop :=
  start.seat.RunsIn image start.limit start.layout.least base extent

/-- The body of the block gets to a configuration. -/
def Guards (config : Config) : Prop :=
  start.RunsIn start.frame start.layout.guarded start.config config

/-- An exception reaches the block while its body runs. -/
def Throws (exception : Value) (frame : Frame) (store : Store) : Prop :=
  ∃ config, start.Guards config ∧ start.seat.Raises image config frame exception store

/-- A handler gets to a configuration.  It is the first one that fits the exception of the body, and
it begins with this exception, in the store that there was then. -/
inductive Handles (extent : Extent) (config : Config) : Prop
  | intro {exception : Value} {frame : Frame} {store : Store}
      (throws : start.Throws exception frame store)
      (catches : start.layout.Catches image store.heap exception extent)
      (runs : start.RunsIn start.frame extent
        (start.executing { frame with position := extent.start, stack := [exception] } store) config)

/-- How the body and its handlers come out, and which of them began: with the value of the body or
of the handler that ran, or with an exception that no handler takes. -/
inductive Settles : List Extent → Except Value Value → Frame → Store → Prop
  | body {frame kept : Frame} {value : Value} {store later : Store}
      (guards : start.Guards (start.executing frame store))
      (done : frame.position = start.layout.guarded.done)
      (keeps : start.layout.Keeps frame store value kept later) :
      Settles [start.layout.guarded] (.ok value) kept later
  | uncaught {exception : Value} {frame : Frame} {store : Store}
      (throws : start.Throws exception frame store)
      (passes : start.layout.Passes image store.heap exception) :
      Settles [start.layout.guarded] (.error exception) frame store
  | handler {extent : Extent} {frame kept : Frame} {value : Value} {store later : Store}
      (handles : start.Handles extent (start.executing frame store))
      (done : frame.position = extent.done)
      (keeps : start.layout.Keeps frame store value kept later) :
      Settles [start.layout.guarded, extent] (.ok value) kept later
  | raised {extent : Extent} {config : Config} {frame : Frame} {exception : Value} {store : Store}
      (handles : start.Handles extent config)
      (raises : start.seat.Raises image config frame exception store) :
      Settles [start.layout.guarded, extent] (.error exception) frame store

/-- The final part gets to a configuration.  It begins once the body and its handlers have come
out, in the store that there was then, and it is noted what follows. -/
inductive Finals (begun : List Extent) (result : Except Value Value) (extent : Extent)
    (config : Config) : Prop
  | intro {frame : Frame} {store : Store} {pending : Pending}
      (isFinal : start.layout.final = some extent)
      (settles : start.Settles begun result frame store)
      (resumes : start.layout.Resumes extent result pending)
      (runs : start.RunsIn { frame with pending := [pending] } extent (start.executing
        { frame with position := extent.start, stack := [], pending := [pending] } store) config)

/-- What the block delivers, and which parts of it began: how its body and handlers have come out,
unless there is a final part that raises an exception. -/
inductive Delivers : List Extent → Except Value Value → Frame → Store → Prop
  | direct {begun : List Extent} {result : Except Value Value} {frame : Frame} {store : Store}
      (noFinal : start.layout.final = none) (settles : start.Settles begun result frame store) :
      Delivers begun result frame store
  | ended {begun : List Extent} {result : Except Value Value} {extent : Extent} {frame : Frame}
      {store : Store} (finals : start.Finals begun result extent (start.executing frame store))
      (done : frame.position = extent.done) : Delivers (begun ++ [extent]) result frame store
  | replaced {begun : List Extent} {result : Except Value Value} {extent : Extent} {config : Config}
      {frame : Frame} {exception : Value} {store : Store}
      (finals : start.Finals begun result extent config)
      (raises : start.seat.Raises image config frame exception store) :
      Delivers (begun ++ [extent]) (.error exception) frame store

/-- The points that an evaluation of the block goes through, with the parts that have begun and the
one that control is in. -/
inductive Stage : List Extent → Option Extent → Config → Prop
  /-- The body runs. -/
  | guarded {config : Config} (guards : start.Guards config) :
      Stage [start.layout.guarded] (some start.layout.guarded) config
  /-- A handler runs. -/
  | handler {extent : Extent} {config : Config} (handles : start.Handles extent config) :
      Stage [start.layout.guarded, extent] (some extent) config
  /-- The body or a handler has ended and is about to be left. -/
  | leaving {begun : List Extent} {value : Value} {extent : Extent} {frame : Frame}
      {stack : List Value} {store : Store} (settles : start.Settles begun (.ok value) frame store)
      (isPart : start.layout.IsPart extent) :
      Stage begun (some extent)
        (start.executing { frame with position := extent.exit, stack } store)
  /-- The final part runs. -/
  | final {begun : List Extent} {result : Except Value Value} {extent : Extent} {config : Config}
      (finals : start.Finals begun result extent config) :
      Stage (begun ++ [extent]) (some extent) config
  /-- The final part has ended and is about to be left. -/
  | ending {begun : List Extent} {result : Except Value Value} {extent : Extent} {frame : Frame}
      {stack : List Value} {store : Store}
      (finals : start.Finals begun result extent (start.executing frame store))
      (done : frame.position = extent.done) :
      Stage (begun ++ [extent]) (some extent)
        (start.executing { frame with position := extent.exit, stack } store)
  /-- A value is about to be loaded, if there is one, and returned. -/
  | returning {begun : List Extent} {value : Value} {frame : Frame} {store : Store}
      (delivers : start.Delivers begun (.ok value) frame store) :
      Stage begun none (start.executing
        { frame with position := start.layout.stop, stack := [], pending := [] } store)
  /-- A value is about to be returned. -/
  | loaded {begun : List Extent} {value : Value} {frame : Frame} {store : Store} {slot : Nat}
      (delivers : start.Delivers begun (.ok value) frame store)
      (isSlot : start.layout.result = some slot) :
      Stage begun none (start.executing
        { frame with position := start.layout.stop + 1, stack := [value], pending := [] } store)
  /-- The block is over. -/
  | delivered {begun : List Extent} {result : Except Value Value} {frame : Frame} {store : Store}
      (delivers : start.Delivers begun result frame store) :
      Stage begun none (start.delivering result store)

/-! ## Transitions -/

/-- A transition leads to the next stage, unless the run fails. -/
def Leads (begun : List Extent) (place : Option Extent) (config : Config) : Prop :=
  (∃ next extended target, Machine.step image start.limit config = .running next ∧
    Extent.Moves begun place extended target ∧ start.Stage extended target next) ∨
    ∃ error last, Machine.step image start.limit config = .finished (.error error) last

variable {start} {frame : Frame} {store : Store} {extent : Extent} {exception value : Value}
variable {position : Nat} {stack : List Value} {result : Except Value Value}
variable {begun : List Extent}

/-! ## Frames of a block -/

/-- A frame that runs the block, with no final part that has yet to end. -/
structure Runs (start : TryStart image) (frame : Frame) : Prop where
  body : frame.body = start.frame.body
  args : frame.args = start.frame.args
  pending : frame.pending = []

theorem runs_of_alike (alike : start.frame.Alike start.layout.least frame) : start.Runs frame :=
  ⟨alike.body, alike.args, alike.pending.trans start.pending⟩

theorem hosts_of_runsIn {base : Frame} {first config : Config}
    (hosts : start.seat.Hosts start.layout.least base extent first)
    (runs : start.RunsIn base extent first config) :
    start.seat.Hosts start.layout.least base extent config := by
  cases runs with
  | refl => exact hosts
  | tail _ isNext => exact isNext.2

theorem Guards.hosts {config : Config} (guards : start.Guards config) :
    start.seat.Hosts start.layout.least start.frame start.layout.guarded config :=
  hosts_of_runsIn (.executes (.refl _) (by rw [start.fits.first, start.position])
    (by rw [start.position]; exact Nat.zero_le _)) guards

theorem Throws.runs (throws : start.Throws exception frame store) :
    start.frame.Alike start.layout.least frame := by
  obtain ⟨config, guards, raises⟩ := throws
  exact guards.hosts.alike_of_raises raises

theorem isPart_of_catches {heap : Heap} (catches : start.layout.Catches image heap exception extent) :
    ∃ type, (type, extent) ∈ start.layout.catches := by
  obtain ⟨before, type, after, isCatches, -⟩ := catches
  rw [isCatches]
  exact ⟨type, List.mem_append_right _ List.mem_cons_self⟩

theorem Handles.hosts {config : Config} (handles : start.Handles extent config) :
    start.seat.Hosts start.layout.least start.frame extent config := by
  obtain ⟨throws, catches, runs⟩ := handles
  have part := start.fits.part (.inr (isPart_of_catches catches))
  exact hosts_of_runsIn (.executes (throws.runs.move _ _) (Nat.le_refl _) part.starts) runs

theorem Handles.isPart {config : Config} (handles : start.Handles extent config) :
    ∃ type, (type, extent) ∈ start.layout.catches := by
  obtain ⟨-, catches, -⟩ := handles
  exact isPart_of_catches catches

theorem runs_of_keeps {kept : Frame} {later : Store} (runs : start.Runs frame)
    (keeps : start.layout.Keeps frame store value kept later) :
    start.Runs kept ∧ start.layout.Holds value kept := by
  unfold TryLayout.Keeps at keeps
  unfold TryLayout.Holds
  cases isResult : start.layout.result with
  | none =>
      rw [isResult] at keeps
      obtain ⟨rfl, rfl, rfl⟩ := keeps
      exact ⟨runs, rfl⟩
  | some slot =>
      rw [isResult] at keeps
      obtain ⟨top, rest, -, -, within, rfl⟩ := keeps
      exact ⟨⟨runs.body, runs.args, runs.pending⟩, Array.getElem?_setIfInBounds_self_of_lt within⟩

/-- The body and its handlers come out on the frame of the block, with a value in its local. -/
theorem Settles.runs (settles : start.Settles begun result frame store) :
    start.Runs frame ∧ ∀ value, result = .ok value → start.layout.Holds value frame := by
  cases settles with
  | body guards done keeps =>
      obtain ⟨runs, holds⟩ := runs_of_keeps (runs_of_alike guards.hosts.alike) keeps
      exact ⟨runs, fun _ same => Except.ok.inj same ▸ holds⟩
  | uncaught throws => exact ⟨runs_of_alike throws.runs, nofun⟩
  | handler handles done keeps =>
      obtain ⟨runs, holds⟩ := runs_of_keeps (runs_of_alike handles.hosts.alike) keeps
      exact ⟨runs, fun _ same => Except.ok.inj same ▸ holds⟩
  | raised handles raises =>
      exact ⟨runs_of_alike (handles.hosts.alike_of_raises raises), nofun⟩

theorem final_hosts {config : Config} {pending : Pending}
    (isFinal : start.layout.final = some extent)
    (runs : start.RunsIn { frame with pending := [pending] } extent (start.executing
      { frame with position := extent.start, stack := [], pending := [pending] } store) config) :
    start.seat.Hosts start.layout.least { frame with pending := [pending] } extent config := by
  obtain ⟨drops, -, part⟩ := start.fits.final extent isFinal
  refine hosts_of_runsIn ?_ runs
  exact .executes ((Frame.Alike.refl _).move _ _) (Nat.le_refl _) part.starts

theorem Finals.runs (finals : start.Finals begun result extent (start.executing frame store)) :
    ∃ pending, start.layout.Resumes extent result pending ∧ frame.pending = [pending] ∧
      frame.body = start.frame.body ∧ frame.args = start.frame.args ∧
      ∀ value, result = .ok value → start.layout.Holds value frame := by
  obtain ⟨isFinal, settles, resumes, runs⟩ := finals
  obtain ⟨isRun, holds⟩ := settles.runs
  have alike := (final_hosts isFinal runs).alike
  refine ⟨_, resumes, alike.pending, alike.body.trans isRun.body, alike.args.trans isRun.args,
    fun value same => ?_⟩
  have isValue := holds value same
  unfold TryLayout.Holds at isValue ⊢
  cases isResult : start.layout.result with
  | none =>
      rw [isResult] at isValue
      exact isValue
  | some slot =>
      rw [isResult] at isValue
      have isLess : slot < start.layout.least := by
        rw [TryLayout.least, isResult]
        exact Nat.lt_succ_self _
      exact (alike.locals slot isLess).trans isValue

/-- A value is delivered from its local. -/
theorem Delivers.holds (delivers : start.Delivers begun (.ok value) frame store) :
    frame.body = start.frame.body ∧ frame.args = start.frame.args ∧
      start.layout.Holds value frame := by
  cases delivers with
  | direct _ settles =>
      obtain ⟨runs, holds⟩ := settles.runs
      exact ⟨runs.body, runs.args, holds value rfl⟩
  | ended finals done =>
      obtain ⟨-, -, -, isBody, areArgs, holds⟩ := finals.runs
      exact ⟨isBody, areArgs, holds value rfl⟩

theorem releasePins (isBody : frame.body = start.frame.body) (store : Store) :
    store.releasePins frame = store :=
  Body.Unpinned.releasePins (isBody ▸ start.fits.unpinned) store

/-- How an exception at the block goes on. -/
theorem handle_proceeds (isBody : frame.body = start.frame.body) :
    let next := Machine.handle image frame start.seat.isCtor exception position 0 start.seat.levels
      start.seat.room store
    (∃ error last, next = .finished (.error error) last) ∨
    (∃ type extent, start.layout.region.tryCovers position = true ∧
      start.layout.Catches image store.heap exception extent ∧
      next = .running (start.executing (frame.enterCatch start.layout.region
        (TryLayout.handlerAt (.catching type) extent) exception) store)) ∨
    ((start.layout.region.tryCovers position = true →
        start.layout.Passes image store.heap exception) ∧
      ((∃ extent, start.layout.final = some extent ∧
        start.layout.region.finalCovers position = true ∧
        next = .running (start.executing (frame.enterFinal
          (TryLayout.handlerAt .final extent) exception position 1) store)) ∨
      (start.layout.region.finalCovers position = false ∧
        next = .running (start.delivering (.error exception) store)))) := by
  intro next
  have unfolded : next = Machine.handle image frame start.seat.isCtor exception position 0
    start.seat.levels start.seat.room store := rfl
  unfold Machine.handle at unfolded
  rcases @Frame.unwind_proceeds image frame start.layout exception position store
      (isBody ▸ start.fits.regions) with ⟨error, isError⟩ | ⟨type, extent, covers, catches, isFound⟩ |
      ⟨passes, ⟨extent, isFinal, covers, isFound⟩ | ⟨noFinal, isFound⟩⟩
  · rw [isError] at unfolded
    exact .inl ⟨error, _, unfolded⟩
  · rw [isFound] at unfolded
    exact .inr (.inl ⟨type, extent, covers, catches, unfolded⟩)
  · rw [isFound] at unfolded
    exact .inr (.inr ⟨passes, .inl ⟨extent, isFinal, covers, unfolded⟩⟩)
  · rw [isFound] at unfolded
    refine .inr (.inr ⟨passes, .inr ⟨noFinal, unfolded.trans ?_⟩⟩)
    dsimp only
    rw [releasePins isBody]
    rfl

/-- An exception that no handler takes leads to the final part, or out of the block. -/
theorem leads_unhandled {config : Config}
    (settles : start.Settles begun (.error exception) frame store)
    (isPart : start.layout.IsPart extent) (upTo : position < extent.done)
    (goesOn : (∃ extent, start.layout.final = some extent ∧
        start.layout.region.finalCovers position = true ∧
        Machine.step image start.limit config = .running (start.executing (frame.enterFinal
          (TryLayout.handlerAt .final extent) exception position 1) store)) ∨
      (start.layout.region.finalCovers position = false ∧
        Machine.step image start.limit config = .running (start.delivering (.error exception) store))) :
    start.Leads begun (some extent) config := by
  rcases goesOn with ⟨final, isFinal, covers, isNext⟩ | ⟨noFinal, isNext⟩
  · have entered : frame.enterFinal (TryLayout.handlerAt .final final) exception position 1 =
        { frame with
          position := final.start, stack := []
          pending := [.unwind exception position 1 final.start] } := by
      rw [Frame.enterFinal, settles.runs.1.pending]
      rfl
    rw [entered] at isNext
    exact .inl ⟨_, _, _, isNext, .starts begun (start.fits.before_final isPart isFinal),
      .final (.intro isFinal settles (.exception exception position) .refl)⟩
  · refine .inl ⟨_, _, _, isNext, .leaves begun extent, .delivered (.direct ?_ settles)⟩
    refine Option.eq_none_iff_forall_not_mem.mpr fun final isFinal => ?_
    have isBefore := start.fits.before_final isPart isFinal
    have within := (start.fits.part isPart).done_le
    have covers : start.layout.region.finalCovers position = true :=
      start.layout.finalCovers_region.mpr
        ⟨final, isFinal, start.fits.first ▸ Nat.zero_le _, by omega⟩
    cases covers.symm.trans noFinal

/-- A part is left for the final part, or for the end of the block. -/
theorem leads_leaving (settles : start.Settles begun (.ok value) frame store)
    (isPart : start.layout.IsPart extent) :
    start.Leads begun (some extent)
      (start.executing { frame with position := extent.exit, stack } store) := by
  obtain ⟨runs, holds⟩ := settles.runs
  have part := start.fits.part isPart
  have isInstr : frame.body.instrs[extent.exit]? = some (.leave stopLabel) := by
    rw [runs.body, part.exit]
    exact part.leaves _ _ (by simp)
  have isTarget : frame.body.target? stopLabel = some start.layout.stop :=
    runs.body ▸ start.fits.stop
  have within : ∀ final ∈ start.layout.final, extent.exit < final.start := fun final isFinal =>
    start.fits.before_final isPart isFinal
  have isFinals := Frame.finalsBetween_region (runs.body ▸ start.fits.regions)
    (start.fits.first ▸ Nat.zero_le _) within start.fits.ends
  have isNext := @Machine.Seat.step_flow image start.limit
    { frame with position := extent.exit, stack } store start.seat.isCtor start.seat.levels
    start.seat.room _ store _ _ isInstr (FrameStep.run_leave isTarget)
  cases isFinal : start.layout.final with
  | none =>
      rw [isFinals, isFinal] at isNext
      have left : { frame with position := start.layout.stop, stack := [] } =
          { frame with position := start.layout.stop, stack := [], pending := [] } := by
        rw [← runs.pending]
      have stage := Stage.returning (.direct isFinal settles)
      rw [← left] at stage
      exact .inl ⟨_, _, _, isNext, .leaves begun extent, stage⟩
  | some final =>
      rw [isFinals, isFinal] at isNext
      have entered : { frame with
            position := final.start, stack := []
            pending := .leave start.layout.stop [] final.start :: frame.pending } =
          { frame with
            position := final.start, stack := []
            pending := [.leave start.layout.stop [] final.start] } := by
        rw [runs.pending]
      have stage := Stage.final (.intro isFinal settles (.value value) .refl)
      rw [← entered] at stage
      exact .inl ⟨_, _, _, isNext, .starts begun (within final isFinal), stage⟩

/-- The value of the body or of a handler is kept. -/
theorem leads_ended (isPart : start.layout.IsPart extent)
    (alike : start.frame.Alike start.layout.least frame) (done : frame.position = extent.done)
    (settles : ∀ value kept later, start.layout.Keeps frame store value kept later →
      start.Settles begun (.ok value) kept later) :
    start.Leads begun (some extent) (start.executing frame store) := by
  have part := start.fits.part isPart
  have isExit := part.exit
  unfold TryLayout.Keeps at settles
  cases isResult : start.layout.result with
  | none =>
      rw [isResult] at settles
      have noGlue : start.layout.keeps = [] := by rw [TryLayout.keeps, isResult]; rfl
      rw [noGlue, List.length_nil, Nat.add_zero, ← done] at isExit
      have leads := @leads_leaving image start frame store extent .null frame.stack begun
        (settles .null frame store ⟨rfl, rfl, rfl⟩) isPart
      rwa [isExit] at leads
  | some slot =>
      rw [isResult] at settles
      have isGlue : start.layout.keeps = [.storeLocal slot] := by rw [TryLayout.keeps, isResult]; rfl
      rw [isGlue, ← done] at isExit
      have isInstr : frame.body.instrs[frame.position]? = some (.storeLocal slot) := by
        rw [alike.body, done]
        exact part.leaves 0 _ (by rw [isGlue]; rfl)
      have unpinned : frame.body.Unpinned := alike.body ▸ start.fits.unpinned
      rcases @FrameStep.run_storeLocal image { frame with position := frame.position + 1 }
          frame.position store slot unpinned with
        ⟨error, last, isError⟩ | ⟨top, rest, value, later, isTop, copied, within, isStored⟩
      · exact .inr ⟨_, _, Machine.Seat.step_fatal isInstr isError⟩
      · have isSettled := settles value _ later ⟨top, rest, isTop, copied, within, rfl⟩
        have stage := @Stage.leaving image start begun value extent _ rest later isSettled isPart
        rw [isExit] at stage
        exact .inl ⟨_, _, _, Machine.Seat.step_flow isInstr isStored, .stays _ _, stage⟩

/-- The body of a block or a handler goes on. -/
theorem leads_part {config : Config} (isPart : start.layout.IsPart extent)
    (hosts : start.seat.Hosts start.layout.least start.frame extent config)
    (stays : ∀ next, Machine.step image start.limit config = .running next →
      start.seat.Hosts start.layout.least start.frame extent next →
        start.Stage begun (some extent) next)
    (ends : ∀ frame store value kept later, config = start.executing frame store →
      frame.position = extent.done → start.layout.Keeps frame store value kept later →
        start.Settles begun (.ok value) kept later)
    (handled : ∀ frame exception current store,
      start.seat.Raises image config frame exception store →
      start.frame.Alike start.layout.least frame → extent.start ≤ current → current < extent.done →
      Machine.step image start.limit config = Machine.handle image frame start.seat.isCtor exception
        current 0 start.seat.levels start.seat.room store →
        start.Leads begun (some extent) config) :
    start.Leads begun (some extent) config := by
  have encloses := (start.fits.part isPart).encloses
  cases hosts.proceeds image start.limit encloses with
  | ends isConfig alike done =>
      rw [isConfig]
      exact leads_ended isPart alike done fun value kept later keeps =>
        ends _ _ value kept later isConfig done keeps
  | stays isNext hosts => exact .inl ⟨_, _, _, isNext, .stays _ _, stays _ isNext hosts⟩
  | raises raises alike from' upTo isHandled =>
      exact handled _ _ _ _ raises alike from' upTo isHandled
  | fails isLast => exact .inr ⟨_, _, isLast⟩

theorem leads_guarded {config : Config} (guards : start.Guards config) :
    start.Leads [start.layout.guarded] (some start.layout.guarded) config := by
  refine leads_part (.inl rfl) guards.hosts
    (fun next isNext hosts => .guarded (guards.tail ⟨isNext, hosts⟩))
    (fun frame store value kept later isConfig done keeps => .body (isConfig ▸ guards) done keeps) ?_
  intro frame exception current store raises alike from' upTo isHandled
  have throws : start.Throws exception frame store := ⟨config, guards, raises⟩
  rcases @handle_proceeds image start frame store exception current alike.body with
    ⟨error, last, isLast⟩ | ⟨type, extent, -, catches, isNext⟩ | ⟨passes, goesOn⟩
  · exact .inr ⟨error, last, isHandled.trans isLast⟩
  · have entered : frame.enterCatch start.layout.region (TryLayout.handlerAt (.catching type) extent)
        exception = { frame with position := extent.start, stack := [exception] } := by
      have noPending : frame.pending = [] := alike.pending.trans start.pending
      simp [Frame.enterCatch, TryLayout.handlerAt, noPending]
    rw [entered] at isNext
    obtain ⟨_, isCatch⟩ := isPart_of_catches catches
    exact .inl ⟨_, _, _, isHandled.trans isNext, .starts _ (start.fits.after_guarded isCatch),
      .handler (.intro throws catches .refl)⟩
  · have within := start.fits.guarded.done_le
    have covers := start.layout.tryCovers_region.mpr ⟨from', (Nat.le_of_lt upTo).trans within⟩
    refine leads_unhandled (.uncaught throws (passes covers)) (.inl rfl) upTo ?_
    rw [isHandled]
    exact goesOn

theorem leads_handler {config : Config} (handles : start.Handles extent config) :
    start.Leads [start.layout.guarded, extent] (some extent) config := by
  obtain ⟨type, isCatch⟩ := handles.isPart
  have isPart : start.layout.IsPart extent := .inr ⟨type, isCatch⟩
  have hosts := handles.hosts
  obtain ⟨throws, catches, runs⟩ := handles
  refine leads_part isPart hosts
    (fun next isNext hosts => .handler (.intro throws catches (runs.tail ⟨isNext, hosts⟩)))
    (fun frame store value kept later isConfig done keeps =>
      .handler (.intro throws catches (isConfig ▸ runs)) done keeps) ?_
  intro frame other current store raises alike from' upTo isHandled
  have settles : start.Settles [start.layout.guarded, extent] (.error other) frame store :=
    .raised (.intro throws catches runs) raises
  rcases @handle_proceeds image start frame store other current alike.body with
    ⟨error, last, isLast⟩ | ⟨type, other, covers, -⟩ | ⟨-, goesOn⟩
  · exact .inr ⟨error, last, isHandled.trans isLast⟩
  · have isGuarded := (start.layout.tryCovers_region.mp covers).2
    have isAfter := start.fits.after_guarded isCatch
    omega
  · refine leads_unhandled settles isPart upTo ?_
    rw [isHandled]
    exact goesOn

/-- The final part is left: a value is returned, an exception raised again. -/
theorem leads_ending {drops : List Instr}
    (part : start.frame.body.HasPart start.layout.least extent drops .endFinally)
    (finals : start.Finals begun result extent (start.executing frame store))
    (done : frame.position = extent.done) :
    start.Leads (begun ++ [extent]) (some extent)
      (start.executing { frame with position := extent.exit, stack } store) := by
  have delivers : start.Delivers (begun ++ [extent]) result frame store := .ended finals done
  obtain ⟨pending, resumes, isPending, isBody, -, -⟩ := finals.runs
  have isInstr : frame.body.instrs[extent.exit]? = some .endFinally := by
    rw [isBody, part.exit]
    exact part.leaves _ _ (by simp)
  cases resumes with
  | value value =>
      have isNext := @Machine.Seat.step_flow image start.limit
        { frame with position := extent.exit, stack } store start.seat.isCtor start.seat.levels
        start.seat.room _ store _ _ isInstr (FrameStep.run_endFinally_leave isPending)
      have stage := Stage.returning delivers
      exact .inl ⟨_, _, _, isNext, .leaves _ extent, stage⟩
  | exception exception position =>
      have isNext := @Machine.Seat.step_flow image start.limit
        { frame with position := extent.exit, stack } store start.seat.isCtor start.seat.levels
        start.seat.room _ store _ _ isInstr (FrameStep.run_endFinally_unwind isPending)
      refine .inl ⟨start.delivering (.error exception) store, _, _, isNext.trans ?_, .leaves _ extent,
        .delivered delivers⟩
      have noHandler : Frame.unwind image
          { frame with position := extent.exit + 1, stack, pending := [] } exception position 1 =
            pure none := by
        unfold Frame.unwind
        rw [isBody, start.fits.regions]
        rfl
      unfold Machine.follow Machine.handle
      dsimp only
      rw [noHandler]
      exact congrArg (fun later => Progress.running (start.delivering (.error exception) later))
        (releasePins isBody store)

theorem leads_final {config : Config} (finals : start.Finals begun result extent config) :
    start.Leads (begun ++ [extent]) (some extent) config := by
  obtain @⟨settled, _, pending, isFinal, settles, resumes, runs⟩ := finals
  obtain ⟨isRun, -⟩ := settles.runs
  have hosts := final_hosts isFinal runs
  obtain ⟨drops, isDrop, part⟩ := start.fits.final extent isFinal
  have encloses : ({ settled with pending := [pending] } : Frame).body.Encloses start.layout.least
      extent.start extent.done := by
    rw [← isRun.body] at part
    exact part.encloses
  cases hosts.proceeds image start.limit encloses with
  | @ends frame store isConfig alike done =>
      have isConfig : config = start.executing frame store := isConfig
      have finals : start.Finals begun result extent (start.executing frame store) :=
        .intro isFinal settles resumes (isConfig ▸ runs)
      have isExit := part.exit
      rw [← done] at isExit
      rw [isConfig]
      rcases isDrop with rfl | rfl
      · have leads := @leads_ending image start frame store extent frame.stack result begun [] part
          finals done
        rwa [isExit] at leads
      · have isInstr : frame.body.instrs[frame.position]? = some .pop := by
          rw [alike.body.trans isRun.body, done]
          exact part.leaves 0 _ rfl
        rcases @FrameStep.run_pop_instr image { frame with position := frame.position + 1 }
            frame.position store with ⟨error, last, isError⟩ | ⟨rest, isNext⟩
        · exact .inr ⟨_, _, Machine.Seat.step_fatal isInstr isError⟩
        · have stage := @Stage.ending image start begun result extent frame rest store finals done
          rw [isExit] at stage
          exact .inl ⟨_, _, _, Machine.Seat.step_flow isInstr isNext, .stays _ _, stage⟩
  | stays isNext hosts =>
      exact .inl ⟨_, _, _, isNext, .stays _ _,
        .final (.intro isFinal settles resumes (runs.tail ⟨isNext, hosts⟩))⟩
  | @raises frame exception current store raises alike from' upTo isHandled =>
      have delivers : start.Delivers (begun ++ [extent]) (.error exception) frame store :=
        .replaced (.intro isFinal settles resumes runs) raises
      have isGuarded := start.fits.before_final (.inl rfl) isFinal
      rcases @handle_proceeds image start frame store exception current
          (alike.body.trans isRun.body) with
        ⟨error, last, isLast⟩ | ⟨type, other, covers, -⟩ | ⟨-, ⟨other, isOther, covers, -⟩ | ⟨-, isNext⟩⟩
      · exact .inr ⟨error, last, isHandled.trans isLast⟩
      · have within := (start.layout.tryCovers_region.mp covers).2
        omega
      · obtain ⟨final, isAlso, -, within⟩ := start.layout.finalCovers_region.mp covers
        cases isFinal.symm.trans isAlso
        omega
      · exact .inl ⟨_, _, _, isHandled.trans isNext, .leaves _ extent, .delivered delivers⟩
  | fails isLast => exact .inr ⟨_, _, isLast⟩

/-- A value is returned. -/
theorem follow_ret (isBody : frame.body = start.frame.body)
    (isTop : frame.stack.head?.getD .null = value) :
    Machine.follow image start.limit frame start.seat.isCtor (.ret (frame.stack.head?.getD .null))
      start.seat.levels start.seat.room store = .running (start.delivering (.ok value) store) := by
  unfold Machine.follow
  dsimp only
  rw [releasePins isBody, isTop]
  rfl

theorem leads_returning (delivers : start.Delivers begun (.ok value) frame store) :
    start.Leads begun none (start.executing
      { frame with position := start.layout.stop, stack := [], pending := [] } store) := by
  obtain ⟨isBody, -, holds⟩ := delivers.holds
  have code := start.fits.returns
  rw [← isBody] at code
  unfold TryLayout.Holds at holds
  cases isResult : start.layout.result with
  | none =>
      rw [isResult] at holds
      obtain rfl : value = .null := holds
      have isInstr : frame.body.instrs[start.layout.stop]? = some .ret :=
        code 0 _ (by rw [TryLayout.returns, isResult]; rfl)
      exact .inl ⟨_, _, _, (Machine.Seat.step_flow isInstr FrameStep.run_ret).trans
        (follow_ret isBody rfl), .stays _ _, .delivered delivers⟩
  | some slot =>
      rw [isResult] at holds
      have isInstr : frame.body.instrs[start.layout.stop]? = some (.loadLocal slot) :=
        code 0 _ (by rw [TryLayout.returns, isResult]; rfl)
      have isNext := @Machine.Seat.step_flow image start.limit
        { frame with position := start.layout.stop, stack := [], pending := [] } store
        start.seat.isCtor start.seat.levels start.seat.room _ store _ _ isInstr
        (FrameStep.run_loadLocal holds)
      have stage := Stage.loaded delivers isResult
      exact .inl ⟨_, _, _, isNext, .stays _ _, stage⟩

theorem leads_loaded {slot : Nat} (delivers : start.Delivers begun (.ok value) frame store)
    (isSlot : start.layout.result = some slot) :
    start.Leads begun none (start.executing
      { frame with position := start.layout.stop + 1, stack := [value], pending := [] } store) := by
  obtain ⟨isBody, -⟩ := delivers.holds
  have isInstr : frame.body.instrs[start.layout.stop + 1]? = some .ret := by
    rw [isBody]
    exact start.fits.returns 1 _ (by rw [TryLayout.returns, isSlot]; rfl)
  exact .inl ⟨_, _, _, (Machine.Seat.step_flow isInstr FrameStep.run_ret).trans
    (follow_ret isBody rfl), .stays _ _, .delivered delivers⟩

/-- Every point but the last one leads on. -/
theorem Stage.leads {place : Option Extent} {config : Config}
    (stage : start.Stage begun place config) :
    start.Leads begun place config ∨ ∃ result frame store,
      start.Delivers begun result frame store ∧ config = start.delivering result store := by
  cases stage with
  | guarded guards => exact .inl (leads_guarded guards)
  | handler handles => exact .inl (leads_handler handles)
  | leaving settles isPart => exact .inl (leads_leaving settles isPart)
  | final finals => exact .inl (leads_final finals)
  | ending finals done =>
      obtain ⟨isFinal, -⟩ := id finals
      obtain ⟨drops, -, part⟩ := start.fits.final _ isFinal
      exact .inl (leads_ending part finals done)
  | returning delivers => exact .inl (leads_returning delivers)
  | loaded delivers isSlot => exact .inl (leads_loaded delivers isSlot)
  | delivered delivers => exact .inr ⟨_, _, _, delivers, rfl⟩

end TryStart

end ClassForge
