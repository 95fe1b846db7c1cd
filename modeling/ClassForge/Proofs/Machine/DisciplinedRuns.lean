import ClassForge.Proofs.Machine.DisciplinedFrames

/-!
# Disciplined runs

A discipline that holds when a call begins holds in every configuration that a run goes through,
of the values in the frames that are there, and of nothing but the store when the run is over.
Which frames have a receiver is not a matter of their bodies; a run knows it of every frame that
it starts.
-/

namespace ClassForge

/-! ## Values of a configuration -/

/-- The variables of some frames, of which it is known whether they have a receiver. -/
def Frame.storages (frames : List Frame) (receivers : List Bool) : List Value :=
  (frames.zip receivers).flatMap fun (frame, hasReceiver) => frame.storage hasReceiver

/-- What the pinned locals of some frames hold. -/
def Frame.allPins (frames : List Frame) : List Value :=
  frames.flatMap Frame.pins

namespace Focus

/-- The frame that runs. -/
def frame? : Focus → Option Frame
  | execute frame _ => some frame
  | begin _ | deliver _ | raise _ => none

/-- The values that are passed to what is about to begin. -/
def storage (image : Image) : Focus → List Value
  | begin request => request.storage image
  | execute _ _ | deliver _ | raise _ => []

/-- The other values that are there. -/
def temps : Focus → List Value
  | execute frame _ => frame.temps
  | begin request => request.args
  | deliver value | raise value => [value]

end Focus

/-- The values that are there on a level, without the locals of its frame. -/
def Level.temps : Level → List Value
  | caller frame _ onReturn => frame.temps ++ onReturn.value?.toList
  | passing => []

namespace Level

/-- The frames that wait, topmost first. -/
def frames (levels : List Level) : List Frame :=
  levels.filterMap frame?

end Level

namespace Config

/-- The frames that are there, topmost first. -/
def frames (config : Config) : List Frame :=
  config.focus.frame?.toList ++ Level.frames config.levels

/-- Whether the frames have receivers after a transition, if it is known of those before it: a
frame that starts has one if its request passes one, and the others stay or are left. -/
def receiversAfter (image : Image) (config next : Config) (receivers : List Bool) : List Bool :=
  match config.focus, next.focus with
  | .begin request, .execute _ _ => request.passesReceiver image :: receivers
  | _, _ => receivers.drop (receivers.length - next.frames.length)

end Config

/-- The configuration that a run is in after some transitions, with what is known of the frames in
it, unless the run is over by then. -/
def Config.afterSteps? (image : Image) (limit : Nat) :
    (steps : Nat) → Config → List Bool → Option (Config × List Bool)
  | 0, config, receivers => some (config, receivers)
  | steps + 1, config, receivers =>
      match Machine.step image limit config with
      | .running next => afterSteps? image limit steps next (config.receiversAfter image next receivers)
      | .finished _ _ => none

namespace Discipline

variable {image : Image} {rule : Discipline image} {owned pinned : List Value}
variable {hasReceiver : Bool} {frame : Frame} {store : Store}
variable {request : Request}

/-! ## Frames come and go -/

section Frames

theorem pinsOf_start {decls : List LocalDecl} {values : List Value}
    (held : rule.held store owned pinned) (pinNothing : ∀ value ∈ values, value.isElement = false) :
    rule.held store owned (LocalDecl.pinsOf decls values ++ pinned) := by
  induction decls generalizing values with
  | nil => exact held
  | cons decl decls ih =>
      cases values with
      | nil => exact held
      | cons value values =>
          obtain ⟨pinsNothing, pinNothing⟩ := List.forall_mem_cons.mp pinNothing
          rw [LocalDecl.pinsOf_cons]
          cases decl.pinned with
          | true => exact rule.startPinned pinsNothing (ih pinNothing)
          | false => exact ih pinNothing

/-- A frame starts with the arguments of a call. -/
theorem start_runs {body : Body} {args : List Value}
    (held : rule.held store (args.drop hasReceiver.toNat ++ owned) pinned)
    (known : ∀ value ∈ args, rule.known store.heap value) :
    rule.Runs (args.drop hasReceiver.toNat ++ owned) pinned (Frame.start image body args) store
      fun frame later => rule.FrameFits owned pinned hasReceiver frame later := by
  have types : body.locals.toList.mapM (fun decl => Exec.defaultValue image decl.type) =
      (body.locals.toList.map LocalDecl.type).mapM (Exec.defaultValue image) := by
    rw [List.mapM_map]
    rfl
  unfold Frame.start
  rw [types]
  refine .bind (mapM_defaultValue_runs held) fun values later grows ⟨heldLocals, pinNothing⟩ => ?_
  refine .pure ⟨?_, fun value member => ?_⟩
  · simp only [Frame.storage, Frame.pins, List.append_assoc]
    exact pinsOf_start heldLocals pinNothing
  · simp only [Frame.temps, List.filterMap_nil, List.append_nil, List.nil_append] at member
    exact rule.known_mono grows (known value member)

end Frames

section Frames

variable {frames : List Frame}

/-- Releasing the pins of a frame unpins what its pinned locals hold. -/
theorem releasePins_eq (heap : Heap) : frame.releasePins heap = frame.pins.foldl Memory.unpin heap := by
  unfold Frame.releasePins Frame.pins
  generalize frame.body.locals.toList = decls
  generalize frame.locals.toList = values
  induction decls generalizing values heap with
  | nil => rfl
  | cons decl decls ih =>
      cases values with
      | nil => rfl
      | cons value values =>
          rw [List.zip_cons_cons, List.foldl_cons, ih, LocalDecl.pinsOf_cons]
          dsimp only
          cases decl.pinned with
          | true => rfl
          | false => rfl

/-- A frame is left. -/
theorem releasePins_held (held : rule.held store owned (frame.pins ++ pinned)) :
    rule.held (store.releasePins frame) owned pinned := by
  unfold Store.releasePins
  rw [releasePins_eq]
  generalize frame.pins = pins at held
  induction pins generalizing store with
  | nil => exact held
  | cons value pins ih => exact ih (rule.unpin held)

theorem grows_releasePins (frame : Frame) (store : Store) :
    store.heap.Grows (store.releasePins frame).heap := by
  unfold Store.releasePins
  rw [releasePins_eq]
  dsimp only
  generalize frame.pins = pins
  generalize store.heap = heap
  induction pins generalizing heap with
  | nil => exact .refl heap
  | cons value pins ih => exact Heap.grows_adjustPins.trans (ih _)

/-- All frames are left, when a run ends with an error. -/
theorem fail_held (held : rule.held store owned (frames.flatMap Frame.pins ++ pinned)) :
    rule.held (frames.foldl Store.releasePins store) owned pinned := by
  induction frames generalizing store with
  | nil => exact held
  | cons frame frames ih =>
      rw [List.flatMap_cons, List.append_assoc] at held
      exact ih (releasePins_held held)

end Frames

/-! ## Handlers -/

section Handlers

variable {exception : Value}

theorem findM?_reads {α : Type} {items : List α} {test : α → Exec Bool}
    (each : ∀ item, rule.Reads owned pinned (test item) store fun _ => True) :
    rule.Reads owned pinned (items.findM? test) store fun _ => True := by
  induction items with
  | nil => exact .pure trivial
  | cons item items ih =>
      refine Reads.bind (each item) fun isFound _ => ?_
      cases isFound with
      | true => exact Reads.pure trivial
      | false => exact ih

/-- A frame that handles an exception fits as it did before. -/
def Handles (rule : Discipline image) (owned pinned : List Value) (hasReceiver : Bool)
    (frame : Frame) (store : Store) (action : Exec (Option Frame)) : Prop :=
  rule.Reads (frame.storage hasReceiver ++ owned) (frame.pins ++ pinned) action store
    fun found? => ∀ found, found? = some found →
      rule.FrameFits owned pinned hasReceiver found store

variable (fits : rule.FrameFits owned pinned hasReceiver frame store)
include fits

theorem finalAmong_handles
    (known : rule.known store.heap exception) {region : Region} {regions : List (Region × Nat)}
    {position index : Nat} (rest : rule.Handles owned pinned hasReceiver frame store
      (frame.handlerAmong image exception position regions)) :
    rule.Handles owned pinned hasReceiver frame store (do
      if region.finalCovers position then
        if let some handler := region.final? then
          return some (frame.enterFinal handler exception position (index + 1))
      frame.handlerAmong image exception position regions) := by
  split
  · split
    · refine Reads.pure fun found isFound => ?_
      obtain rfl := Option.some.inj isFound
      exact fits.enterFinal known _ _ _
    · exact rest
  · exact rest

theorem handlerAmong_handles (known : rule.known store.heap exception) (position : Nat)
    (regions : List (Region × Nat)) :
    rule.Handles owned pinned hasReceiver frame store
      (frame.handlerAmong image exception position regions) := by
  induction regions with
  | nil => exact Reads.pure nofun
  | cons entry regions ih =>
      obtain ⟨region, index⟩ := entry
      unfold Frame.handlerAmong
      dsimp only
      split
      · refine Reads.bind (findM?_reads fun _ => isInstance_reads fits.held) fun handler? _ => ?_
        split
        · refine Reads.pure fun found isFound => ?_
          obtain rfl := Option.some.inj isFound
          exact fits.enterCatch known _ _
        · exact finalAmong_handles fits known ih
      · exact finalAmong_handles fits known ih

theorem unwind_handles (known : rule.known store.heap exception) (position firstRegion : Nat) :
    rule.Handles owned pinned hasReceiver frame store
      (frame.unwind image exception position firstRegion) :=
  handlerAmong_handles fits known _ _

end Handlers

/-! ## Beginning -/

section Beginning

/-- What the topmost level goes on with, when its request has begun. -/
def Begins (rule : Discipline image) (owned pinned : List Value) (request : Request)
    (focus : Focus) (store : Store) : Prop :=
  match focus with
  | .execute frame _ =>
      rule.FrameFits owned pinned (request.passesReceiver image) frame store
  | .begin next =>
      rule.held store (next.storage image ++ owned) pinned ∧
        ∀ value ∈ next.args, rule.known store.heap value
  | .deliver value | .raise value =>
      rule.held store owned pinned ∧ rule.known store.heap value

theorem dispatch_reads {method : MethodHandle} {args : List Value}
    (held : rule.held store owned pinned) :
    rule.Reads owned pinned (Machine.dispatch image method args) store fun _ => True := by
  refine Reads.bind (.ofImage_any held) fun info _ => ?_
  dsimp only
  split
  · exact Reads.pure trivial
  · refine Reads.bind (.require_any held) fun receiver _ => ?_
    split
    · exact .bind_ended (raise_runs held)
    · split
      · exact Reads.pure trivial
      · refine .heap_bind ?_
        split
        · exact Reads.pure trivial
        · split
          · exact .bind_ended (.fatal held)
          · exact Reads.pure trivial

theorem Answers.held {outcome : Native.Outcome}
    (answers : rule.Answers owned pinned outcome store) : rule.held store owned pinned := by
  cases outcome with
  | value value => exact answers.1
  | call method args =>
      obtain ⟨-, info, -, held⟩ := answers
      exact rule.weaken held (List.sublist_append_right _ _).subperm (.refl _)

/-- A method that has been selected begins. -/
theorem beginSelected_runs (method : MethodHandle)
    (allowed : ∀ info, image.method method = .ok info →
      info.implementation = .native .delegateCtor → rule.makesFunctions)
    (held : rule.held store (request.storage image ++ owned) pinned)
    (known : ∀ value ∈ request.args, rule.known store.heap value) :
    rule.Runs (request.storage image ++ owned) pinned (do
      let info ← Exec.ofImage (image.method method)
      if !info.attrs.isStatic && request.args.head?.all Value.isNull then
        Exec.raise image .nullReference
      match info.implementation with
      | .missing => throw (.fatal (.noBody (image.methodLabel info)))
      | .native native =>
          match ← native.run image request.args with
          | .value value => return Focus.deliver value
          | .call method args =>
              return .begin (.method { method, args, isVirtual := false })
      | .code body => return .execute (← Frame.start image body request.args) false) store
      (rule.Begins owned pinned request) := by
  refine Reads.bind (.ofImage held fun _ isInfo => isInfo) fun info isInfo => ?_
  dsimp only
  split
  · exact .bind_ended (raise_runs held)
  · split
    · exact .fatal held
    · rename_i native isNative
      have makes (isCtor : native = .delegateCtor) : rule.makesFunctions :=
        allowed info isInfo (isCtor ▸ isNative)
      refine .bind (native_answers makes held known) fun outcome later _ answers => ?_
      cases outcome with
      | value value => exact .pure answers
      | call method args =>
          obtain ⟨knownArgs, info, isInfo, heldArgs⟩ := answers
          rw [← passesReceiver_method ⟨method, args, false⟩ isInfo] at heldArgs
          exact .pure ⟨heldArgs, knownArgs⟩
    · exact .bind (start_runs held known) fun _ _ _ fits => .pure fits

theorem begin_runs (allowed : request.MakesFunction image → rule.makesFunctions)
    (held : rule.held store (request.storage image ++ owned) pinned)
    (known : ∀ value ∈ request.args, rule.known store.heap value) :
    rule.Runs (request.storage image ++ owned) pinned (Machine.begin image request) store
      (rule.Begins owned pinned request) := by
  cases request with
  | method call =>
      have allowedFor (chosen : MethodHandle) (info : MethodInfo)
          (isInfo : image.method chosen = .ok info)
          (isNative : info.implementation = .native .delegateCtor) : rule.makesFunctions :=
        allowed ⟨chosen, info, Image.method_eq_ok.mp isInfo, isNative⟩
      unfold Machine.begin Machine.beginMethod
      dsimp only
      split
      · exact Reads.bind (dispatch_reads held) fun chosen _ =>
          beginSelected_runs chosen (allowedFor chosen) held known
      · exact beginSelected_runs call.method (allowedFor call.method) held known
  | ctor handle args =>
      refine Reads.bind (.ofImage held fun _ isInfo => isInfo) fun info isInfo => ?_
      split
      · exact .fatal held
      · rename_i native isNative
        have makes (isCtor : native = .delegateCtor) : rule.makesFunctions :=
          allowed ⟨info, Image.ctor_eq_ok.mp isInfo, isCtor ▸ isNative⟩
        have ran : rule.Runs ((Request.ctor handle args).storage image ++ owned) pinned
            (discard (native.run image args)) store fun _ later => rule.held later owned pinned :=
          @Runs.bind _ _ _ _ _ _ _ _ (fun _ => pure ()) _ _ (native_answers makes held known)
            fun _ _ _ answers => Runs.pure answers.held
        exact .bind ran fun _ _ _ held => .pure ⟨held, rule.known_plain rfl⟩
      · exact .bind (start_runs held known) fun _ _ _ fits => .pure fits

end Beginning

/-! ## Configurations -/

/-- A discipline holds in a configuration: its variables are held, its pinned locals are counted,
and its other values are known. -/
structure Fits (rule : Discipline image) (config : Config) (receivers : List Bool) : Prop where
  count : receivers.length = config.frames.length
  held : rule.held config.store
    (config.focus.storage image ++ Frame.storages config.frames receivers)
    (Frame.allPins config.frames)
  known : ∀ value ∈ config.focus.temps ++ config.levels.flatMap Level.temps,
    rule.known config.store.heap value

/-- The levels that wait, with what is known of their frames and values. -/
structure Waits (rule : Discipline image) (levels : List Level) (receivers : List Bool)
    (heap : Heap) : Prop where
  count : receivers.length = (Level.frames levels).length
  known : ∀ value ∈ levels.flatMap Level.temps, rule.known heap value

section Configurations

variable {levels : List Level} {receivers : List Bool} {room : Nat} {focus : Focus}
variable {isCtor : Bool}

theorem Waits.grow (waits : rule.Waits levels receivers store.heap) {later : Store}
    (grows : store.heap.Grows later.heap) : rule.Waits levels receivers later.heap :=
  ⟨waits.count, fun value member => rule.known_mono grows (waits.known value member)⟩

/-- A frame runs on top of those that wait. -/
theorem fits_execute (fits : rule.FrameFits (Frame.storages (Level.frames levels) receivers)
      (Frame.allPins (Level.frames levels)) hasReceiver frame store)
    (waits : rule.Waits levels receivers store.heap) :
    rule.Fits { focus := .execute frame isCtor, levels, room, store } (hasReceiver :: receivers) where
  count := congrArg (· + 1) waits.count
  held := fits.held
  known value member := (List.mem_append.mp member).elim (fits.known value) (waits.known value)

/-- No frame runs at the moment. -/
theorem fits_between (noFrame : focus.frame? = none)
    (held : rule.held store
      (focus.storage image ++ Frame.storages (Level.frames levels) receivers)
      (Frame.allPins (Level.frames levels)))
    (known : ∀ value ∈ focus.temps, rule.known store.heap value)
    (waits : rule.Waits levels receivers store.heap) :
    rule.Fits { focus, levels, room, store } receivers := by
  have sameFrames : Config.frames { focus, levels, room, store } = Level.frames levels := by
    rw [Config.frames, noFrame]
    rfl
  refine ⟨?_, ?_, fun value member => (List.mem_append.mp member).elim (known value)
    (waits.known value)⟩
  · rw [sameFrames]
    exact waits.count
  · rw [sameFrames]
    exact held

/-- Where a transition leads, from a configuration with some frames. -/
def Leads (rule : Discipline image) (receivers : List Bool) : Progress → Prop
  | .running next => rule.Fits next (receivers.drop (receivers.length - next.frames.length))
  | .finished _ store => rule.held store [] []

theorem leads_staying {next : Config} (fits : rule.Fits next receivers) :
    rule.Leads receivers (.running next) := by
  rw [Leads, ← fits.count, Nat.sub_self]
  exact fits

/-- The topmost frame is left. -/
theorem leads_leaving {next : Config} (fits : rule.Fits next receivers) :
    rule.Leads (hasReceiver :: receivers) (.running next) := by
  rw [Leads, ← fits.count, List.length_cons, Nat.add_sub_cancel_left]
  exact fits

theorem leads_fail {error : RunError} {frames : List Frame}
    (held : rule.held store owned (Frame.allPins frames)) :
    rule.Leads receivers (Machine.fail error frames store) := by
  refine fail_held (rule.weaken held (List.nil_sublist _).subperm ?_)
  rw [List.append_nil]
  exact .refl _

/-- A level is opened, by a frame that stays or by one that was left. -/
theorem leads_enter {before : List Bool} {limit : Nat}
    (leads : ∀ {next : Config}, rule.Fits next receivers → rule.Leads before (.running next))
    (held : rule.held store
      (request.storage image ++ Frame.storages (Level.frames levels) receivers)
      (Frame.allPins (Level.frames levels)))
    (known : ∀ value ∈ request.args, rule.known store.heap value)
    (waits : rule.Waits levels receivers store.heap) :
    rule.Leads before (Machine.enter limit request levels room store) := by
  cases room with
  | zero => exact leads_fail held
  | succ room => exact leads (fits_between rfl held known waits)

theorem leads_handle {exception : Value} {position firstRegion : Nat}
    (fits : rule.FrameFits (Frame.storages (Level.frames levels) receivers)
      (Frame.allPins (Level.frames levels)) hasReceiver frame store)
    (known : rule.known store.heap exception)
    (waits : rule.Waits levels receivers store.heap) :
    rule.Leads (hasReceiver :: receivers)
      (Machine.handle image frame isCtor exception position firstRegion levels room store) := by
  have runs := unwind_handles fits known position firstRegion
  have fewer : (Frame.storages (Level.frames levels) receivers).Subperm
      (frame.storage hasReceiver ++ Frame.storages (Level.frames levels) receivers) :=
    (List.sublist_append_right _ _).subperm
  have raises {store : Store} {exception : Value}
      (held : rule.held store
        (frame.storage hasReceiver ++ Frame.storages (Level.frames levels) receivers)
        (frame.pins ++ Frame.allPins (Level.frames levels)))
      (known : rule.known store.heap exception)
      (waits : rule.Waits levels receivers store.heap) :
      rule.Leads (hasReceiver :: receivers) (.running
        { focus := .raise exception, levels, room, store := store.releasePins frame }) := by
    have grows := grows_releasePins frame store
    refine leads_leaving (fits_between rfl
      (releasePins_held (rule.weaken held fewer (.refl _))) ?_ (waits.grow grows))
    exact List.forall_mem_singleton.mpr (rule.known_mono grows known)
  unfold Handles Reads Runs at runs
  unfold Machine.handle
  revert runs
  cases (frame.unwind image exception position firstRegion).run store with
  | ok found? later =>
      rintro ⟨-, rfl, fitsFound⟩
      cases found? with
      | none => exact raises fits.held known waits
      | some found => exact leads_staying (fits_execute (fitsFound found rfl) waits)
  | error trap later =>
      rintro ⟨grows, held, knownThrown⟩
      cases trap with
      | throw thrown => exact raises held (knownThrown thrown rfl) (waits.grow grows)
      | fatal error => exact leads_fail held

theorem leads_follow {flow : Flow} {limit : Nat}
    (proceeds : rule.Proceeds (Frame.storages (Level.frames levels) receivers)
      (Frame.allPins (Level.frames levels)) hasReceiver flow frame store)
    (waits : rule.Waits levels receivers store.heap) :
    rule.Leads (hasReceiver :: receivers)
      (Machine.follow image limit frame isCtor flow levels room store) := by
  have grows := grows_releasePins frame store
  cases flow with
  | next => exact leads_staying (fits_execute proceeds waits)
  | ret value =>
      obtain ⟨fits, known⟩ := proceeds
      have held := rule.weaken (releasePins_held fits.held)
        (List.sublist_append_right _ _).subperm (.refl _)
      exact leads_leaving (fits_between rfl held
        (List.forall_mem_singleton.mpr (rule.known_mono grows known)) (waits.grow grows))
  | tailCall call =>
      obtain ⟨fits, known⟩ := proceeds
      have held := rule.weaken (releasePins_held fits.held)
        (List.sublist_append_right _ _).subperm (.refl _)
      have knownArgs : ∀ value ∈ call.args, rule.known (store.releasePins frame).heap value :=
        fun value member => rule.known_mono grows (known value member)
      have waitsNow := waits.grow grows
      unfold Machine.follow
      dsimp only
      split
      · exact leads_enter leads_leaving held knownArgs ⟨waitsNow.count, waitsNow.known⟩
      · exact leads_leaving (fits_between rfl held knownArgs waitsNow)
  | enter request onReturn =>
      obtain ⟨fits, knownArgs, knownObject⟩ := proceeds
      have held : rule.held store (request.storage image ++
          Frame.storages (Level.frames (.caller frame isCtor onReturn :: levels))
            (hasReceiver :: receivers))
          (Frame.allPins (Level.frames (.caller frame isCtor onReturn :: levels))) := by
        refine rule.weaken fits.held (List.Perm.subperm ?_) (.refl _)
        simp only [Frame.storages, Level.frames, List.filterMap_cons, Level.frame?,
          List.zip_cons_cons, List.flatMap_cons, ← List.append_assoc]
        exact List.perm_append_comm.append_right _
      refine leads_enter leads_staying held knownArgs ⟨congrArg (· + 1) waits.count, ?_⟩
      intro value member
      rcases List.mem_append.mp member with isHere | isBelow
      · rcases List.mem_append.mp isHere with inFrame | isObject
        · exact fits.known value inFrame
        · exact knownObject value (Option.mem_toList.mp isObject)
      · exact waits.known value isBelow
  | resume exception position nextRegion =>
      exact leads_handle proceeds.1 proceeds.2 waits

end Configurations

/-! ## Transitions and runs -/

section Transitions

variable {limit : Nat} {config : Config} {receivers : List Bool}
variable {levels : List Level}

theorem leads_execute {rest : List Bool} {room : Nat} {isCtor : Bool}
    (fits : rule.FrameFits (Frame.storages (Level.frames levels) rest)
      (Frame.allPins (Level.frames levels)) hasReceiver frame store)
    (waits : rule.Waits levels rest store.heap) :
    rule.Leads (hasReceiver :: rest) (Machine.step image limit
      { focus := .execute frame isCtor, levels, room, store }) := by
  unfold Machine.step
  dsimp only
  split
  · exact leads_fail fits.held
  · rename_i instr _
    have runs : rule.Steps _ _ hasReceiver (FrameStep.execute image frame.position instr)
        { frame with position := frame.position + 1 } store _ := execute_proceeds (fits.jump _)
    unfold Steps Runs at runs
    revert runs
    cases EStateM.run (StateT.run (FrameStep.execute image frame.position instr)
        { frame with position := frame.position + 1 }) store with
    | ok result later => exact fun ⟨grows, proceeds⟩ => leads_follow proceeds (waits.grow grows)
    | error trap later =>
        rintro ⟨grows, held, known⟩
        cases trap with
        | throw exception =>
            exact leads_handle ((fits.jump _).change grows held) (known exception rfl)
              (waits.grow grows)
        | fatal error => exact leads_fail held

/-- The topmost level gets an answer. -/
theorem leads_deliver {room : Nat} {value : Value}
    (held : rule.held store (Frame.storages (Level.frames levels) receivers)
      (Frame.allPins (Level.frames levels)))
    (known : rule.known store.heap value) (waits : rule.Waits levels receivers store.heap) :
    rule.Leads receivers (Machine.step image limit
      { focus := .deliver value, levels, room, store }) := by
  obtain ⟨count, knownLevels⟩ := waits
  cases levels with
  | nil => exact rule.weaken held List.nil_subperm (.refl _)
  | cons level levels =>
      obtain ⟨knownLevel, knownBelow⟩ := List.forall_mem_append.mp knownLevels
      cases level with
      | passing =>
          exact leads_staying (fits_between rfl held (List.forall_mem_singleton.mpr known)
            ⟨count, knownBelow⟩)
      | caller frame isCtor onReturn =>
          obtain ⟨hasReceiver, rest, rfl⟩ := List.exists_cons_of_length_eq_add_one count
          obtain ⟨knownFrame, knownObject⟩ := List.forall_mem_append.mp knownLevel
          have fits : rule.FrameFits (Frame.storages (Level.frames levels) rest)
            (Frame.allPins (Level.frames levels)) hasReceiver frame store := ⟨held, knownFrame⟩
          have pushed {value : Value} (known : rule.known store.heap value) :=
            fits.restack (List.forall_mem_cons.mpr ⟨known, fun _ => fits.knownStack⟩)
          refine leads_staying (fits_execute ?_ ⟨Nat.succ.inj count, knownBelow⟩)
          cases onReturn with
          | push => exact pushed known
          | drop => exact fits
          | object object => exact pushed (knownObject object List.mem_cons_self)

/-- The topmost level gets an exception. -/
theorem leads_raise {room : Nat} {exception : Value}
    (held : rule.held store (Frame.storages (Level.frames levels) receivers)
      (Frame.allPins (Level.frames levels)))
    (known : rule.known store.heap exception) (waits : rule.Waits levels receivers store.heap) :
    rule.Leads receivers (Machine.step image limit
      { focus := .raise exception, levels, room, store }) := by
  obtain ⟨count, knownLevels⟩ := waits
  cases levels with
  | nil => exact rule.weaken held List.nil_subperm (.refl _)
  | cons level levels =>
      obtain ⟨knownLevel, knownBelow⟩ := List.forall_mem_append.mp knownLevels
      cases level with
      | passing =>
          exact leads_staying (fits_between rfl held (List.forall_mem_singleton.mpr known)
            ⟨count, knownBelow⟩)
      | caller frame isCtor onReturn =>
          obtain ⟨hasReceiver, rest, rfl⟩ := List.exists_cons_of_length_eq_add_one count
          have knownFrame := (List.forall_mem_append.mp knownLevel).1
          exact leads_handle ⟨held, knownFrame⟩ known ⟨Nat.succ.inj count, knownBelow⟩

/-- A transition keeps a discipline, of the frames that are there after it. -/
theorem step_fits (limit : Nat) (fits : rule.Fits config receivers)
    (allowed : ∀ request, config.focus = .begin request → request.MakesFunction image →
      rule.makesFunctions) :
    match Machine.step image limit config with
    | .running next => rule.Fits next (config.receiversAfter image next receivers)
    | .finished _ store => rule.held store [] [] := by
  obtain ⟨focus, levels, room, store⟩ := config
  obtain ⟨count, held, known⟩ := fits
  obtain ⟨knownFocus, knownLevels⟩ := List.forall_mem_append.mp known
  cases focus with
  | execute frame isCtor =>
      obtain ⟨hasReceiver, rest, rfl⟩ := List.exists_cons_of_length_eq_add_one count
      exact leads_execute ⟨held, knownFocus⟩ ⟨Nat.succ.inj count, knownLevels⟩
  | begin request =>
      have runs := begin_runs (allowed request rfl) held knownFocus
      have waits : rule.Waits levels receivers store.heap := ⟨count, knownLevels⟩
      unfold Machine.step
      unfold Runs at runs
      revert runs
      dsimp only
      cases (Machine.begin image request).run store with
      | ok focus later =>
          rintro ⟨grows, begins⟩
          have waitsNow := waits.grow grows
          cases focus with
          | execute frame isCtor => exact fits_execute begins waitsNow
          | begin next => exact leads_staying (fits_between rfl begins.1 begins.2 waitsNow)
          | deliver value | raise value =>
              exact leads_staying (fits_between rfl begins.1
                (List.forall_mem_singleton.mpr begins.2) waitsNow)
      | error trap later =>
          rintro ⟨grows, heldLater, knownThrown⟩
          cases trap with
          | throw exception =>
              have heldRest := rule.weaken heldLater (List.sublist_append_right _ _).subperm (.refl _)
              exact leads_staying (fits_between rfl heldRest
                (List.forall_mem_singleton.mpr (knownThrown exception rfl)) (waits.grow grows))
          | fatal error =>
              have fails : rule.Leads receivers (Machine.fail error (Level.frames levels) later) :=
                leads_fail heldLater
              exact fails
  | deliver value =>
      exact leads_deliver held (List.forall_mem_singleton.mp knownFocus) ⟨count, knownLevels⟩
  | raise exception =>
      exact leads_raise held (List.forall_mem_singleton.mp knownFocus) ⟨count, knownLevels⟩

/-- A run keeps a discipline. -/
theorem afterSteps?_fits {steps : Nat} {last : Config} {lastReceivers : List Bool}
    (makes : rule.makesFunctions) (fits : rule.Fits config receivers)
    (isLast : config.afterSteps? image limit steps receivers = some (last, lastReceivers)) :
    rule.Fits last lastReceivers := by
  induction steps generalizing config receivers with
  | zero =>
      cases isLast
      exact fits
  | succ steps ih =>
      have fitsNext := step_fits limit fits fun _ _ _ => makes
      rw [Config.afterSteps?] at isLast
      split at isLast
      · rename_i next isNext
        rw [isNext] at fitsNext
        exact ih fitsNext isLast
      · cases isLast

/-- When a run is over, the discipline holds of the store alone. -/
theorem run_held {fuel : Nat} {outcome : Outcome} {last : Store}
    (makes : rule.makesFunctions) (fits : rule.Fits config receivers)
    (ran : Machine.run image limit fuel config = some (outcome, last)) :
    rule.held last [] [] := by
  induction fuel generalizing config receivers with
  | zero => cases ran
  | succ fuel ih =>
      have fitsNext := step_fits limit fits fun _ _ _ => makes
      rw [Machine.run] at ran
      split at ran
      · rename_i next isNext
        rw [isNext] at fitsNext
        exact ih fitsNext ran
      · rename_i final last isFinal
        rw [isFinal] at fitsNext
        cases ran
        exact fitsNext

end Transitions

end Discipline

end ClassForge
