import ClassForge.Proofs.Code.ExceptionBlocks

/-!
# Frames in confined code

A frame that executes code which leads only to itself stays in it until it gets to the end of the
code, an exception reaches the frame, or the whole run fails.  What the frame has called runs on
top of it and does not matter for this.
-/

namespace ClassForge

/-- A frame that differs from another one only in its stack, its position and its later locals. -/
structure Frame.Alike (least : Nat) (base frame : Frame) : Prop where
  body : frame.body = base.body
  args : frame.args = base.args
  pending : frame.pending = base.pending
  locals : ∀ slot < least, frame.locals[slot]? = base.locals[slot]?

namespace Frame.Alike

variable {least : Nat} {base middle frame : Frame}

theorem refl (frame : Frame) : Frame.Alike least frame frame :=
  ⟨rfl, rfl, rfl, fun _ _ => rfl⟩

theorem trans (first : base.Alike least middle) (second : middle.Alike least frame) :
    base.Alike least frame where
  body := second.body.trans first.body
  args := second.args.trans first.args
  pending := second.pending.trans first.pending
  locals slot isLess := (second.locals slot isLess).trans (first.locals slot isLess)

theorem move (alike : base.Alike least frame) (position : Nat) (stack : List Value) :
    base.Alike least { frame with position, stack } :=
  ⟨alike.body, alike.args, alike.pending, alike.locals⟩

end Frame.Alike

/-! ## Instructions -/

namespace FrameStep

variable {α β : Type} {frame : Frame}

/-- What a step gives and leaves if it succeeds. -/
def Gives (step : FrameStep α) (frame : Frame) (post : α → Frame → Prop) : Prop :=
  ∀ store value after later, (step.run frame).run store = .ok (value, after) later → post value after

namespace Gives

variable {step : FrameStep α} {between post : α → Frame → Prop}

theorem pure {value : α} (holds : post value frame) : Gives (pure value) frame post := by
  rintro _ _ _ _ ⟨⟩
  exact holds

theorem bind {next : α → FrameStep β} {post : β → Frame → Prop} (first : step.Gives frame between)
    (second : ∀ value changed, between value changed → (next value).Gives changed post) :
    Gives (step >>= next) frame post := by
  intro store result after later ran
  rw [StateT.run_bind, EStateM.run_bind] at ran
  split at ran
  · rename_i early middle isEarly
    exact second early.1 early.2 (first store early.1 early.2 middle isEarly) _ _ _ _ ran
  · cases ran

theorem lift {action : Exec α} (holds : ∀ value, post value frame) :
    Gives (liftM action : FrameStep α) frame post := by
  intro store value after later ran
  have ran : (action >>= fun value => (Pure.pure (value, frame) : Exec (α × Frame))).run store =
    .ok (value, after) later := ran
  rw [EStateM.run_bind] at ran
  split at ran
  · cases ran
    exact holds _
  · cases ran

theorem get_bind {next : Frame → FrameStep β} {post : β → Frame → Prop}
    (gives : (next frame).Gives frame post) : Gives (get >>= next) frame post :=
  gives

theorem modify {change : Frame → Frame} {post : Unit → Frame → Prop}
    (holds : post () (change frame)) : Gives (modify change : FrameStep Unit) frame post := by
  rintro _ _ _ _ ⟨⟩
  exact holds

theorem imp {weaker : α → Frame → Prop} (gives : step.Gives frame post)
    (implies : ∀ value after, post value after → weaker value after) : step.Gives frame weaker :=
  fun store value after later ran => implies value after (gives store value after later ran)

end Gives

/-- A step leaves a frame alike, and at its place unless it goes to a target. -/
def Stays (least : Nat) (targets : List Label) (step : FrameStep α) (post : α → Prop) : Prop :=
  ∀ frame, step.Gives frame fun value after => frame.Alike least after ∧
    (after.position = frame.position ∨
      ∃ label ∈ targets, frame.body.target? label = some after.position) ∧ post value

namespace Stays

variable {step : FrameStep α} {between post : α → Prop} {least : Nat} {targets : List Label}

theorem pure {value : α} (holds : post value) : Stays least targets (pure value) post :=
  fun _ => .pure ⟨.refl _, .inl rfl, holds⟩

theorem bind {next : α → FrameStep β} {post : β → Prop} (first : step.Stays least targets between)
    (second : ∀ value, between value → (next value).Stays least targets post) :
    Stays least targets (step >>= next) post := by
  refine fun frame => (first frame).bind fun value changed ⟨alike, place, holds⟩ =>
    (second value holds changed).imp fun result after ⟨alike', place', done⟩ =>
      ⟨alike.trans alike', ?_, done⟩
  rcases place' with same | ⟨label, isTarget, found⟩
  · rw [same]
    exact place
  · exact .inr ⟨label, isTarget, alike.body ▸ found⟩

theorem andThen {next : α → FrameStep β} {post : β → Prop}
    (first : step.Stays least targets between)
    (second : ∀ value, (next value).Stays least targets post) :
    Stays least targets (step >>= next) post :=
  first.bind fun value _ => second value

theorem lift (action : Exec α) :
    Stays least targets (liftM action : FrameStep α) fun _ => True :=
  fun _ => .lift fun _ => ⟨.refl _, .inl rfl, trivial⟩

theorem get : Stays least targets (get : FrameStep Frame) fun _ => True :=
  fun _ => .get_bind (.pure ⟨.refl _, .inl rfl, trivial⟩)

theorem done {value : α} : Stays least targets (Pure.pure value) fun _ => True :=
  .pure trivial

/-- Only the stack changes. -/
theorem modifyStack (change : Frame → List Value) :
    Stays least targets (modify fun frame => { frame with stack := change frame } : FrameStep Unit)
      fun _ => True :=
  fun _ => .modify ⟨⟨rfl, rfl, rfl, fun _ _ => rfl⟩, .inl rfl, trivial⟩

theorem push (value : Value) : (push value).Stays least targets fun _ => True :=
  modifyStack _

theorem pop : pop.Stays least targets fun _ => True := by
  refine get.andThen fun frame => ?_
  split
  · exact lift _
  · exact (modifyStack _).andThen fun _ => done

theorem popMany (count : Nat) : (popMany count).Stays least targets fun _ => True := by
  refine get.andThen fun frame => ?_
  dsimp only
  split
  · exact (lift _).andThen fun _ => (modifyStack _).andThen fun _ => done
  · exact (modifyStack _).andThen fun _ => done

theorem takeArgs (count : Nat) (hasReceiver : Bool) :
    (takeArgs count hasReceiver).Stays least targets fun _ => True := by
  refine (popMany count).andThen fun args => ?_
  split
  · exact (lift _).andThen fun _ => done
  · exact lift _

theorem mapTop (action : Value → Exec Value) :
    (mapTop action).Stays least targets (· = .next) :=
  pop.andThen fun _ => (lift _).andThen fun _ => (push _).andThen fun _ => .pure rfl

theorem mapTop₂ (action : Value → Value → Exec Value) :
    (mapTop₂ action).Stays least targets (· = .next) :=
  pop.andThen fun _ => pop.andThen fun _ => (lift _).andThen fun _ => (push _).andThen
    fun _ => .pure rfl

theorem branch {label : Label} (isTarget : label ∈ targets) :
    (branch label).Stays least targets fun _ => True := by
  refine fun frame => .get_bind ?_
  cases found : frame.body.target? label with
  | none =>
      rintro _ _ _ _ ⟨⟩
  | some target =>
      exact .modify ⟨⟨rfl, rfl, rfl, fun _ _ => rfl⟩, .inr ⟨label, isTarget, found⟩, trivial⟩

theorem storeLocal {slot : Nat} (beyond : least ≤ slot) (value : Value) :
    (storeLocal slot value).Stays least targets fun _ => True := by
  refine (lift _).andThen fun copied frame => .get_bind ?_
  have stored : Frame.Alike least frame
      { frame with locals := frame.locals.setIfInBounds slot copied } := by
    refine ⟨rfl, rfl, rfl, fun other isLess => ?_⟩
    exact Array.getElem?_setIfInBounds_ne (Nat.ne_of_gt (isLess.trans_le beyond))
  split
  · exact .lift fun _ => ⟨.refl _, .inl rfl, trivial⟩
  · have sets : Gives (set { frame with locals := frame.locals.setIfInBounds slot copied }) frame
        fun _ after => frame.Alike least after ∧ (after.position = frame.position ∨
          ∃ label ∈ targets, frame.body.target? label = some after.position) ∧ True := by
      rintro _ _ _ _ ⟨⟩
      exact ⟨stored, .inl rfl, trivial⟩
    split
    · exact .bind (.lift fun _ => rfl) fun _ changed isSame => by
        subst isSame
        exact sets
    · exact sets

end Stays

/-- The frame goes on, if it has no other target after something on a level of its own. -/
def GoesOn (targets : List Label) (flow : Flow) : Prop :=
  flow = .next ∨ targets = [] ∧ ∃ request onReturn, flow = .enter request onReturn

theorem Stays.next {step : FrameStep Flow} {least : Nat} {targets : List Label}
    (stays : step.Stays least targets (· = .next)) : step.Stays least targets (GoesOn targets) :=
  fun frame => (stays frame).imp fun _ _ ⟨alike, place, isNext⟩ => ⟨alike, place, .inl isNext⟩

/-- An inner instruction leaves the frame alike, and goes on to the next one or to a target. -/
theorem execute_stays {image : Image} {current least : Nat} {instr : Instr}
    (inner : instr.isInner least = true) :
    (execute image current instr).Stays least instr.targets (GoesOn instr.targets) := by
  cases instr with
  | storeArg | ret | leave | endFinally => cases inner
  | call method tail =>
      cases tail with
      | true => cases inner
      | false =>
          refine (Stays.lift _).andThen fun info => (Stays.takeArgs _ _).andThen fun args => ?_
          exact .pure (.inr ⟨rfl, _, _, rfl⟩)
  | callVirtual method tail =>
      cases tail with
      | true => cases inner
      | false =>
          refine (Stays.lift _).andThen fun info => (Stays.takeArgs _ _).andThen fun args => ?_
          exact .pure (.inr ⟨rfl, _, _, rfl⟩)
  | newObject =>
      exact (Stays.lift _).andThen fun _ => (Stays.takeArgs _ _).andThen fun _ =>
        (Stays.lift _).andThen fun _ => .pure (.inr ⟨rfl, _, _, rfl⟩)
  | callCtor =>
      exact (Stays.lift _).andThen fun _ => (Stays.takeArgs _ _).andThen fun _ =>
        .pure (.inr ⟨rfl, _, _, rfl⟩)
  | nop => exact .pure (.inl rfl)
  | pop => exact (Stays.pop.andThen fun _ => .done).andThen fun _ => .pure (.inl rfl)
  | dup =>
      exact Stays.pop.andThen fun _ => (Stays.push _).andThen fun _ => (Stays.push _).andThen
        fun _ => .pure (.inl rfl)
  | const | loadFunction => exact (Stays.push _).andThen fun _ => .pure (.inl rfl)
  | loadArg | loadLocal =>
      exact Stays.get.andThen fun _ => (Stays.lift _).andThen fun _ => (Stays.push _).andThen
        fun _ => .pure (.inl rfl)
  | storeLocal slot =>
      exact Stays.pop.andThen fun _ => (Stays.storeLocal (of_decide_eq_true inner) _).andThen
        fun _ => .pure (.inl rfl)
  | loadField | neg | not | convert | newArray | arrayLength | loadIndirect | box | unbox
  | castClass | isInstance => exact (Stays.mapTop _).next
  | arith | compare | loadElement | elementAddress => exact (Stays.mapTop₂ _).next
  | storeField | storeIndirect =>
      exact Stays.pop.andThen fun _ => Stays.pop.andThen fun _ => (Stays.lift _).andThen
        fun _ => .pure (.inl rfl)
  | storeElement | copyBlock | fillBlock =>
      exact Stays.pop.andThen fun _ => Stays.pop.andThen fun _ => Stays.pop.andThen
        fun _ => (Stays.lift _).andThen fun _ => .pure (.inl rfl)
  | loadStatic =>
      exact (Stays.lift _).andThen fun _ => (Stays.push _).andThen fun _ => .pure (.inl rfl)
  | storeStatic =>
      exact Stays.pop.andThen fun _ => (Stays.lift _).andThen fun _ => .pure (.inl rfl)
  | branch label =>
      exact (Stays.branch List.mem_cons_self).andThen fun _ => .pure (.inl rfl)
  | branchTrue label =>
      refine Stays.pop.andThen fun value => ?_
      dsimp only
      split
      · exact (Stays.branch List.mem_cons_self).andThen fun _ => .pure (.inl rfl)
      · exact .pure (.inl rfl)
  | branchFalse label =>
      refine Stays.pop.andThen fun value => ?_
      dsimp only
      split
      · exact (Stays.branch List.mem_cons_self).andThen fun _ => .pure (.inl rfl)
      · exact .pure (.inl rfl)
  | switch labels =>
      refine Stays.pop.andThen fun value => (Stays.lift _).andThen fun selector => ?_
      dsimp only
      split
      · rename_i label isLabel
        exact (Stays.branch (List.mem_of_getElem? isLabel)).andThen fun _ => .pure (.inl rfl)
      · exact .pure (.inl rfl)
  | throw =>
      refine Stays.pop.andThen fun value => ?_
      dsimp only
      split
      · exact (Stays.lift _).andThen fun _ => by
          rintro _ _ _ _ _ ⟨⟩
      · rintro _ _ _ _ _ ⟨⟩

end FrameStep

/-! ## Parts -/

namespace Machine

/-- A frame that executes the code of a part, or waits for what it has called from there. -/
inductive Seat.Hosts (seat : Seat) (least : Nat) (base : Frame) (extent : Extent) : Config → Prop
  | executes {frame : Frame} {store : Store} (alike : base.Alike least frame)
      (start : extent.start ≤ frame.position) (done : frame.position ≤ extent.done) :
      Hosts seat least base extent ⟨.execute frame seat.isCtor, seat.levels, seat.room, store⟩
  | waits {frame : Frame} {focus : Focus} {above : List Level} {onReturn : OnReturn} {room : Nat}
      {store : Store} (alike : base.Alike least frame)
      (start : extent.start < frame.position) (done : frame.position ≤ extent.done)
      (total : above.length + 1 + room = seat.room) :
      Hosts seat least base extent
        ⟨focus, above ++ .caller frame seat.isCtor onReturn :: seat.levels, room, store⟩

/-- A run that stays in a part. -/
def Seat.RunsIn (image : Image) (limit : Nat) (seat : Seat) (least : Nat) (base : Frame)
    (extent : Extent) : Config → Config → Prop :=
  Relation.ReflTransGen fun config next =>
    step image limit config = .running next ∧ seat.Hosts least base extent next

/-- An exception reaches the frame of a seat: an instruction of the frame raises it, or what the
frame has called ends with it. -/
inductive Seat.Raises (image : Image) (seat : Seat) : Config → Frame → Value → Store → Prop
  | own {frame : Frame} {instr : Instr} {exception : Value} {store later : Store}
      (isInstr : frame.body.instrs[frame.position]? = some instr)
      (ran : ((FrameStep.execute image frame.position instr).run
        { frame with position := frame.position + 1 }).run store = .error (.throw exception) later) :
      Raises image seat ⟨.execute frame seat.isCtor, seat.levels, seat.room, store⟩
        { frame with position := frame.position + 1 } exception later
  | called {frame : Frame} {onReturn : OnReturn} {room : Nat} {exception : Value} {store : Store} :
      Raises image seat ⟨.raise exception, .caller frame seat.isCtor onReturn :: seat.levels, room,
        store⟩ frame exception store

/-- How a part goes on from a configuration. -/
inductive Seat.Proceeds (image : Image) (limit : Nat) (seat : Seat) (least : Nat) (base : Frame)
    (extent : Extent) (config : Config) : Prop
  | ends {frame : Frame} {store : Store}
      (isConfig : config = ⟨.execute frame seat.isCtor, seat.levels, seat.room, store⟩)
      (alike : base.Alike least frame) (done : frame.position = extent.done)
  | stays {next : Config} (isNext : step image limit config = .running next)
      (hosts : seat.Hosts least base extent next)
  | raises {frame : Frame} {exception : Value} {current : Nat} {store : Store}
      (raises : seat.Raises image config frame exception store) (alike : base.Alike least frame)
      (start : extent.start ≤ current) (done : current < extent.done)
      (isHandled : step image limit config =
        handle image frame seat.isCtor exception current 0 seat.levels seat.room store)
  | fails {error : RunError} {store : Store}
      (isLast : step image limit config = .finished (.error error) store)

namespace Seat

variable {image : Image} {limit : Nat} {seat : Seat} {least : Nat} {base frame : Frame}
variable {extent : Extent} {config : Config} {store : Store}

section Transitions

variable {isCtor : Bool} {levels : List Level} {room : Nat} {instr : Instr} {later : Store}

/-- A transition whose instruction leads on. -/
theorem step_flow {flow : Flow} {after : Frame}
    (isInstr : frame.body.instrs[frame.position]? = some instr)
    (ran : ((FrameStep.execute image frame.position instr).run
      { frame with position := frame.position + 1 }).run store = .ok (flow, after) later) :
    step image limit ⟨.execute frame isCtor, levels, room, store⟩ =
      follow image limit after isCtor flow levels room later := by
  unfold step
  dsimp only
  rw [isInstr]
  dsimp only
  rw [ran]

/-- A transition whose instruction raises an exception. -/
theorem step_throw {exception : Value}
    (isInstr : frame.body.instrs[frame.position]? = some instr)
    (ran : ((FrameStep.execute image frame.position instr).run
      { frame with position := frame.position + 1 }).run store = .error (.throw exception) later) :
    step image limit ⟨.execute frame isCtor, levels, room, store⟩ =
      handle image { frame with position := frame.position + 1 } isCtor exception frame.position 0
        levels room later := by
  unfold step
  dsimp only
  rw [isInstr]
  dsimp only
  rw [ran]

/-- A transition whose instruction fails. -/
theorem step_fatal {error : RunError}
    (isInstr : frame.body.instrs[frame.position]? = some instr)
    (ran : ((FrameStep.execute image frame.position instr).run
      { frame with position := frame.position + 1 }).run store = .error (.fatal error) later) :
    step image limit ⟨.execute frame isCtor, levels, room, store⟩ =
      fail error (frame :: levels.filterMap Level.frame?) later := by
  unfold step
  dsimp only
  rw [isInstr]
  dsimp only
  rw [ran]

/-- A frame calls something, unless there is no room for it. -/
theorem follow_enter (image : Image) (frame : Frame) (request : Request) (onReturn : OnReturn) :
    (∃ error last, follow image limit frame isCtor (.enter request onReturn) levels room store =
      .finished (.error error) last) ∨
    ∃ rest, room = rest + 1 ∧
      follow image limit frame isCtor (.enter request onReturn) levels room store =
        .running ⟨.begin request, .caller frame isCtor onReturn :: levels, rest, store⟩ := by
  cases room with
  | zero => exact .inl ⟨_, _, rfl⟩
  | succ rest => exact .inr ⟨rest, rfl, rfl⟩

end Transitions

/-- An instruction of the part. -/
theorem proceeds_execute (encloses : base.body.Encloses least extent.start extent.done)
    (alike : base.Alike least frame) (start : extent.start ≤ frame.position)
    (done : frame.position < extent.done) :
    seat.Proceeds image limit least base extent
      ⟨.execute frame seat.isCtor, seat.levels, seat.room, store⟩ := by
  obtain ⟨instr, isInstr, inner, targets⟩ := encloses _ start done
  have isInstr : frame.body.instrs[frame.position]? = some instr := alike.body ▸ isInstr
  cases ran : ((FrameStep.execute image frame.position instr).run
      { frame with position := frame.position + 1 }).run store with
  | error trap later =>
      cases trap with
      | throw exception =>
          exact .raises (.own isInstr ran) (alike.move _ _) start done (step_throw isInstr ran)
      | fatal error =>
          exact .fails (step_fatal isInstr ran)
  | ok result later =>
      obtain ⟨flow, after⟩ := result
      obtain ⟨stays, place, goesOn⟩ := FrameStep.execute_stays inner _ _ _ _ _ ran
      have stays := (alike.move (frame.position + 1) frame.stack).trans stays
      have isStep := @step_flow image limit frame store seat.isCtor seat.levels seat.room _ _ _ _
        isInstr ran
      rcases goesOn with rfl | ⟨noTargets, request, onReturn, rfl⟩
      · refine .stays isStep (.executes stays ?_ ?_)
        all_goals
          rcases place with same | ⟨label, isTarget, found⟩
          · have same : after.position = frame.position + 1 := same
            omega
          · obtain ⟨target, isFound, low, high⟩ := targets label isTarget
            have isFound : frame.body.target? label = some target := alike.body ▸ isFound
            cases isFound.symm.trans found
            assumption
      · have same : after.position = frame.position + 1 :=
          place.resolve_right (by simp [noTargets])
        rcases @follow_enter limit later seat.isCtor seat.levels seat.room image after request
          onReturn with ⟨error, last, isLast⟩ | ⟨rest, isRoom, isNext⟩
        · exact .fails (isStep.trans isLast)
        · refine .stays (isStep.trans isNext)
            (@Hosts.waits seat least base extent after _ [] onReturn rest later stays ?_ ?_ ?_)
          · omega
          · omega
          · rw [isRoom, List.length_nil]
            omega

/-- What the frame has called goes on. -/
theorem proceeds_above {focus : Focus} {above : List Level} {onReturn : OnReturn} {room : Nat}
    (alike : base.Alike least frame) (start : extent.start < frame.position)
    (done : frame.position ≤ extent.done) (total : above.length + 1 + room = seat.room)
    (goesOn : ¬ IsOver focus above) :
    seat.Proceeds image limit least base extent
      ⟨focus, above ++ .caller frame seat.isCtor onReturn :: seat.levels, room, store⟩ := by
  have lifts := @lifts_step image limit 0 room (.caller frame seat.isCtor onReturn :: seat.levels)
    above store focus goesOn
  have accounts := @step_accounts image limit
    ⟨focus, above ++ .caller frame seat.isCtor onReturn :: seat.levels, room, store⟩
  generalize isStep : step image limit
    ⟨focus, above ++ .caller frame seat.isCtor onReturn :: seat.levels, room, store⟩ = progress
    at lifts accounts
  generalize step image limit ⟨focus, above, room + 0, store⟩ = alone at lifts
  cases lifts with
  | running nextFocus nextLevels nextRoom nextStore =>
      have sameTotal : nextLevels.length + nextRoom = above.length + room := by
        simp only [Accounts, Config.depth, List.length_append] at accounts
        omega
      exact .stays isStep (.waits alike start done (by omega))
  | failed error store => exact .fails isStep
  | cutOff _ store => exact .fails isStep

/-- A part goes on until it ends or an exception gets to its frame. -/
theorem Hosts.proceeds (image : Image) (limit : Nat)
    (encloses : base.body.Encloses least extent.start extent.done)
    (hosts : seat.Hosts least base extent config) :
    seat.Proceeds image limit least base extent config := by
  cases hosts with
  | executes alike start done =>
      rcases Nat.lt_or_eq_of_le done with goesOn | ended
      · exact proceeds_execute encloses alike start goesOn
      · exact .ends rfl alike ended
  | @waits frame focus above onReturn room store alike start done total =>
      by_cases isOver : IsOver focus above
      · obtain ⟨rfl, value, rfl | rfl⟩ := isOver
        · have isRoom : room + 1 = seat.room := by
            rw [List.length_nil] at total
            omega
          have isNext : step image limit ⟨.deliver value, [] ++ .caller frame seat.isCtor onReturn ::
              seat.levels, room, store⟩ = .running ⟨.execute
                { frame with stack := onReturn.onto value frame.stack } seat.isCtor, seat.levels,
                seat.room, store⟩ := by
            rw [← isRoom]
            cases onReturn <;> rfl
          exact .stays isNext (.executes (alike.move frame.position _) (Nat.le_of_lt start) done)
        · have isRoom : room + 1 = seat.room := by
            rw [List.length_nil] at total
            omega
          have isHandled : step image limit ⟨.raise value, [] ++ .caller frame seat.isCtor onReturn ::
              seat.levels, room, store⟩ = handle image frame seat.isCtor value (frame.position - 1) 0
                seat.levels seat.room store := by
            rw [← isRoom]
            rfl
          exact .raises .called alike (by omega) (by omega) isHandled
      · exact proceeds_above alike start done total isOver

/-- The frame of the seat that runs is the one with the part. -/
theorem Hosts.alike (hosts : seat.Hosts least base extent
    ⟨.execute frame seat.isCtor, seat.levels, seat.room, store⟩) : base.Alike least frame := by
  generalize isConfig : Config.mk (.execute frame seat.isCtor) seat.levels seat.room store = config
    at hosts
  cases hosts with
  | executes alike =>
      cases isConfig
      exact alike
  | @waits other focus above onReturn room store alike =>
      have lengths := congrArg (List.length ∘ Config.levels) isConfig
      simp at lengths
      omega

/-- The frame that an exception reaches is the one with the part. -/
theorem Hosts.alike_of_raises {exception : Value} {later : Store}
    (hosts : seat.Hosts least base extent config)
    (raises : seat.Raises image config frame exception later) : base.Alike least frame := by
  cases raises with
  | @own other => exact hosts.alike.move (other.position + 1) other.stack
  | @called other onReturn room store =>
      generalize isConfig : Config.mk (.raise exception)
        (.caller frame seat.isCtor onReturn :: seat.levels) room later = config at hosts
      cases hosts with
      | executes => cases isConfig
      | @waits other focus above onReturn room store alike =>
          have levels := congrArg Config.levels isConfig
          dsimp only at levels
          cases above with
          | nil =>
              rw [List.nil_append] at levels
              cases levels
              exact alike
          | cons level above =>
              have lengths := congrArg List.length levels
              simp at lengths
              omega

end Seat

end Machine

end ClassForge
