import ClassForge.Proofs.Machine.MachineFaults

/-!
# Frames on balanced code

A frame stands at a position of its body.  If the depths of the body agree with its code, and
the stack of the frame has the depth of the position, then the instruction there finds all
the values that it takes, and the frame stands right again wherever control goes: at the next
instruction, at a target, at a handler, or before the position where it waits for a call.
-/

namespace ClassForge

/-! ## Steps of a frame -/

/-- Only the variables and the stack of a frame change. -/
structure Frame.Keeps (frame changed : Frame) : Prop where
  body : changed.body = frame.body
  position : changed.position = frame.position
  pending : changed.pending = frame.pending

namespace FrameStep

variable {value : Value} {count : Nat}

/-- A step from a frame ends with a value and a frame that have a property, or it breaks off
for no fault of control. -/
def Ends {α : Type} (step : FrameStep α) (frame : Frame) (post : α → Frame → Prop) : Prop :=
  Exec.Ends (step.run frame) fun result => post result.1 result.2

/-- A step changes the number of values on the stack, and keeps the place of the frame. -/
def Shifts {α : Type} (step : FrameStep α) (before after : Nat) (post : α → Prop) : Prop :=
  ∀ frame : Frame, frame.stack.length = before →
    step.Ends frame fun value changed =>
      post value ∧ frame.Keeps changed ∧ changed.stack.length = after

section

variable {α β : Type} {frame : Frame} {step : FrameStep α}
variable {next : α → FrameStep β} {post : β → Frame → Prop}

theorem Ends.bind {between : α → Frame → Prop} (first : step.Ends frame between)
    (second : ∀ value changed, between value changed → (next value).Ends changed post) :
    Ends (step >>= next) frame post := by
  unfold Ends
  rw [StateT.run_bind]
  exact Exec.Ends.bind first fun result holds => second result.1 result.2 holds

theorem Ends.imp {post weaker : α → Frame → Prop} (ends : step.Ends frame post)
    (implies : ∀ value changed, post value changed → weaker value changed) :
    step.Ends frame weaker :=
  Exec.Ends.imp ends fun result => implies result.1 result.2

theorem Ends.pure {value : α} {post : α → Frame → Prop} (holds : post value frame) :
    Ends (pure value) frame post :=
  Exec.Ends.pure holds

theorem Ends.set_bind {changed : Frame} {next : Unit → FrameStep β}
    (ends : (next ()).Ends changed post) : Ends (set changed >>= next) frame post :=
  ends

theorem Ends.set {changed : Frame} {post : Unit → Frame → Prop} (holds : post () changed) :
    Ends (set changed : FrameStep Unit) frame post :=
  Exec.Ends.pure holds

theorem Ends.modify {change : Frame → Frame} {post : Unit → Frame → Prop}
    (holds : post () (change frame)) : Ends (modify change : FrameStep Unit) frame post :=
  Exec.Ends.pure holds

theorem Ends.lift {action : Exec α} {post : α → Frame → Prop}
    (ends : action.Ends fun value => post value frame) :
    Ends (liftM action : FrameStep α) frame post :=
  Exec.Ends.bind ends fun _ holds => .pure holds

/-- Going on with the running frame. -/
theorem Ends.get_bind {next : Frame → FrameStep β} (ends : (next frame).Ends frame post) :
    Ends (get >>= next) frame post :=
  ends

/-- Going on with a value that is there. -/
theorem Ends.require_bind {value? : Option α} {value : α} {cause : Malformation}
    (isSome : value? = some value) (ends : (next value).Ends frame post) :
    Ends (liftM (Exec.require value? cause) >>= next) frame post := by
  rw [isSome]
  exact ends

theorem Ends.lift_bind {action : Exec α} (benign : action.Benign)
    (second : ∀ value, (next value).Ends frame post) : Ends (liftM action >>= next) frame post :=
  Ends.bind (Ends.lift (benign.imp fun _ _ => rfl)) fun value changed same =>
    (show frame = changed from same) ▸ second value

end

/-- Taking a value that is there. -/
theorem run_pop {frame : Frame} {stack : List Value} (shape : frame.stack = value :: stack) :
    pop.run frame = pure (value, { frame with stack }) := by
  unfold pop
  simp only [StateT.run_bind, StateT.run_get, pure_bind, shape]
  rfl

theorem run_popMany {frame : Frame} (enough : count ≤ frame.stack.length) :
    (popMany count).run frame =
      pure ((frame.stack.take count).reverse, { frame with stack := frame.stack.drop count }) := by
  unfold popMany
  simp only [StateT.run_bind, StateT.run_get, pure_bind, if_neg (Nat.not_lt.mpr enough)]
  rfl

namespace Shifts

variable {α β : Type} {before middle after : Nat} {post : α → Prop} {step : FrameStep α}

theorem pure {value : α} (holds : post value) : Shifts (pure value) before before post :=
  fun _ height => .pure ⟨holds, ⟨rfl, rfl, rfl⟩, height⟩

theorem bind {next : α → FrameStep β} {post : β → Prop} {between : α → Prop}
    (first : step.Shifts before middle between)
    (second : ∀ value, between value → (next value).Shifts middle after post) :
    Shifts (step >>= next) before after post := by
  intro frame height
  refine (first frame height).bind fun value changed ⟨holds, keeps, isHeight⟩ => ?_
  refine (second value holds changed isHeight).imp fun _ final ⟨done, stays, ends⟩ => ?_
  exact ⟨done, ⟨stays.body.trans keeps.body, stays.position.trans keeps.position,
    stays.pending.trans keeps.pending⟩, ends⟩

theorem andThen {next : α → FrameStep β} {post : β → Prop}
    (first : step.Shifts before middle fun _ => True)
    (second : ∀ value, (next value).Shifts middle after post) :
    Shifts (step >>= next) before after post :=
  first.bind fun value _ => second value

theorem lift {action : Exec α} (ends : action.Ends post) :
    Shifts (liftM action : FrameStep α) before before post :=
  fun _ height => .lift (ends.imp fun _ holds => ⟨holds, ⟨rfl, rfl, rfl⟩, height⟩)

theorem discard (shifts : step.Shifts before after fun _ => True) :
    Shifts (discard step) before after fun _ => True :=
  shifts.andThen fun _ => .pure trivial

theorem get : Shifts (get : FrameStep Frame) before before fun _ => True :=
  fun _ height => Exec.Ends.pure ⟨trivial, ⟨rfl, rfl, rfl⟩, height⟩

end Shifts

section

variable {before : Nat}

theorem push_shifts : (push value).Shifts before (before + 1) fun _ => True :=
  fun _ height => .modify ⟨trivial, ⟨rfl, rfl, rfl⟩, congrArg (· + 1) height⟩

theorem pop_shifts : pop.Shifts (before + 1) before fun _ => True := by
  intro frame height
  obtain ⟨value, stack, shape⟩ := List.exists_cons_of_length_eq_add_one height
  unfold Ends
  rw [run_pop shape]
  refine .pure ⟨trivial, ⟨rfl, rfl, rfl⟩, ?_⟩
  rw [shape] at height
  exact Nat.succ.inj height

theorem popMany_shifts :
    (popMany count).Shifts (before + count) before fun values =>
      values.length = count := by
  intro frame height
  unfold Ends
  rw [run_popMany (by omega)]
  refine .pure ⟨?_, ⟨rfl, rfl, rfl⟩, ?_⟩
  · simp only [List.length_reverse, List.length_take]
    omega
  · simp only [List.length_drop]
    omega

/-- The arguments of a call are as many as it takes. -/
theorem takeArgs_shifts {hasReceiver : Bool} :
    (takeArgs count hasReceiver).Shifts (before + count) before fun values =>
      values.length = count := by
  have copies : ∀ args : List Value, Exec.Ends (takeArgs.copyAll args) fun values =>
      values.length = args.length := fun _ => .mapM fun _ => Exec.copy_benign
  refine popMany_shifts.bind fun values isCount => ?_
  split
  · rename_i receiver args
    refine (Shifts.lift (copies args)).bind fun copied same => .pure ?_
    rw [List.length_cons, same, ← isCount, List.length_cons]
  · exact .lift ((copies values).imp fun _ same => same.trans isCount)

theorem storeLocal_shifts {slot : Nat} :
    (storeLocal slot value).Shifts before before fun _ => True := by
  intro frame height
  refine .lift_bind Exec.copy_benign fun copied => .get_bind ?_
  have stores : ∀ locals : Array Value,
      Ends (set { frame with locals } : FrameStep Unit) frame fun _ changed =>
        True ∧ frame.Keeps changed ∧ changed.stack.length = before :=
    fun _ => .set ⟨trivial, ⟨rfl, rfl, rfl⟩, height⟩
  split
  · exact .lift (.malformed id)
  · dsimp only
    split
    · exact .lift_bind Exec.modifyHeap_benign fun _ => stores _
    · exact stores _

theorem storeArg_shifts {slot : Nat} :
    (storeArg slot value).Shifts before before fun _ => True := by
  intro frame height
  refine .lift_bind Exec.copy_benign fun copied => .get_bind ?_
  split
  · exact .set ⟨trivial, ⟨rfl, rfl, rfl⟩, height⟩
  · exact .lift (.malformed id)

theorem mapTop_shifts {action : Value → Exec Value} (benign : ∀ value, (action value).Benign) :
    (mapTop action).Shifts (before + 1) (before + 1) (· = .next) :=
  pop_shifts.andThen fun value => (Shifts.lift (benign value)).andThen fun _ =>
    push_shifts.andThen fun _ => .pure rfl

theorem mapTop₂_shifts {action : Value → Value → Exec Value}
    (benign : ∀ left right, (action left right).Benign) :
    (mapTop₂ action).Shifts (before + 2) (before + 1) (· = .next) :=
  pop_shifts.andThen fun right => pop_shifts.andThen fun left =>
    (Shifts.lift (benign left right)).andThen fun _ => push_shifts.andThen fun _ => .pure rfl

end

end FrameStep

/-- An instruction that only works on values: it begins no call, and control goes on to the
next instruction. -/
def Instr.isPlain : Instr → Bool
  | ret | branch _ | branchTrue _ | branchFalse _ | switch _ | leave _ | endFinally | throw
  | call _ _ | callVirtual _ _ | newObject _ | callCtor _ => false
  | _ => true

namespace FrameStep

open Exec

/-- An instruction that only works on values has its effect on the stack. -/
theorem execute_shifts {image : Image} {current rest : Nat} {instr : Instr}
    {effect : StackEffect} (plain : instr.isPlain = true)
    (isEffect : instr.effect? image = some effect) :
    (execute image current instr).Shifts (rest + effect.takes) (rest + effect.gives)
      (· = .next) := by
  cases instr with
  | ret | branch | branchTrue | branchFalse | switch | leave | endFinally | throw | call
  | callVirtual | newObject | callCtor => cases plain
  | nop =>
      cases isEffect
      exact .pure rfl
  | pop =>
      cases isEffect
      exact (Shifts.discard pop_shifts).andThen fun _ => .pure rfl
  | dup =>
      cases isEffect
      exact pop_shifts.andThen fun _ => push_shifts.andThen fun _ => push_shifts.andThen
        fun _ => .pure rfl
  | const | loadFunction =>
      cases isEffect
      exact push_shifts.andThen fun _ => .pure rfl
  | loadArg | loadLocal =>
      cases isEffect
      exact Shifts.get.andThen fun _ => (Shifts.lift (.require id)).andThen fun _ =>
        push_shifts.andThen fun _ => .pure rfl
  | storeArg =>
      cases isEffect
      exact pop_shifts.andThen fun _ => storeArg_shifts.andThen fun _ => .pure rfl
  | storeLocal =>
      cases isEffect
      exact pop_shifts.andThen fun _ => storeLocal_shifts.andThen fun _ => .pure rfl
  | loadField =>
      cases isEffect
      exact mapTop_shifts fun _ => loadField_benign
  | storeField =>
      cases isEffect
      exact pop_shifts.andThen fun _ => pop_shifts.andThen fun _ =>
        (Shifts.lift storeField_benign).andThen fun _ => .pure rfl
  | loadStatic =>
      cases isEffect
      exact (Shifts.lift loadStatic_benign).andThen fun _ => push_shifts.andThen fun _ => .pure rfl
  | storeStatic =>
      cases isEffect
      exact pop_shifts.andThen fun _ => (Shifts.lift storeStatic_benign).andThen fun _ => .pure rfl
  | arith =>
      cases isEffect
      exact mapTop₂_shifts fun _ _ => ofArith_benign
  | neg | not =>
      cases isEffect
      exact mapTop_shifts fun _ => ofArith_benign
  | compare =>
      cases isEffect
      exact mapTop₂_shifts fun _ _ => ofArith_benign.andThen fun _ => .pure trivial
  | convert =>
      cases isEffect
      exact mapTop_shifts fun _ => convert_benign
  | newArray =>
      cases isEffect
      exact mapTop_shifts fun _ => lengthOperand_benign.andThen fun _ => newArray_benign
  | loadElement =>
      cases isEffect
      exact mapTop₂_shifts fun _ _ => loadElement_benign
  | storeElement =>
      cases isEffect
      exact pop_shifts.andThen fun _ => pop_shifts.andThen fun _ => pop_shifts.andThen fun _ =>
        (Shifts.lift storeElement_benign).andThen fun _ => .pure rfl
  | elementAddress =>
      cases isEffect
      exact mapTop₂_shifts fun _ _ => elementAddress_benign
  | arrayLength =>
      cases isEffect
      exact mapTop_shifts fun _ => arrayOperand_benign.andThen fun _ => .pure trivial
  | loadIndirect =>
      cases isEffect
      exact mapTop_shifts fun _ => loadIndirect_benign
  | storeIndirect =>
      cases isEffect
      exact pop_shifts.andThen fun _ => pop_shifts.andThen fun _ =>
        (Shifts.lift storeIndirect_benign).andThen fun _ => .pure rfl
  | copyBlock =>
      cases isEffect
      exact pop_shifts.andThen fun _ => pop_shifts.andThen fun _ => pop_shifts.andThen fun _ =>
        (Shifts.lift copyBlock_benign).andThen fun _ => .pure rfl
  | fillBlock =>
      cases isEffect
      exact pop_shifts.andThen fun _ => pop_shifts.andThen fun _ => pop_shifts.andThen fun _ =>
        (Shifts.lift fillBlock_benign).andThen fun _ => .pure rfl
  | box =>
      cases isEffect
      exact mapTop_shifts fun _ => box_benign
  | unbox =>
      cases isEffect
      exact mapTop_shifts fun _ => unbox_benign
  | castClass =>
      cases isEffect
      exact mapTop_shifts fun _ => castClass_benign
  | isInstance =>
      cases isEffect
      exact mapTop_shifts fun _ => isInstance_benign.andThen fun _ => .pure trivial

end FrameStep

/-! ## Places in a body -/

/-- A position of a body is inside it and has a depth. -/
def Body.HasDepth (body : Body) (depth : Nat → Nat) (position expected : Nat) : Prop :=
  position < body.instrs.size ∧ depth position = expected

/-- The positions that a running finally handler leads to have empty stacks. -/
def Pending.Leads (body : Body) (depth : Nat → Nat) : Pending → Prop
  | leave target rest _ =>
      body.HasDepth depth target 0 ∧ ∀ handler ∈ rest, body.HasDepth depth handler 0
  | unwind _ _ _ _ => True

/-- The body of a frame is balanced, and its finally handlers lead to places in it. -/
structure Frame.Sound (image : Image) (result : Nat) (depth : Nat → Nat) (frame : Frame) :
    Prop where
  balanced : frame.body.Balanced image result depth
  pending : ∀ pending ∈ frame.pending, pending.Leads frame.body depth

/-- A frame stands at a place of its body whose depth the stack has, once some more values are
pushed. -/
def Frame.Stands (depth : Nat → Nat) (frame : Frame) (missing : Nat) : Prop :=
  frame.body.HasDepth depth frame.position (frame.stack.length + missing)

/-- A virtual call of an instance method has a receiver. -/
def Request.HasReceiver (image : Image) : Request → Prop
  | method call => call.isVirtual = true → ∀ info, image.method? call.method = some info →
      info.attrs.isStatic = false → call.args ≠ []
  | ctor _ _ => True

/-- How many values a frame gets from what it called. -/
def OnReturn.weight : OnReturn → Nat
  | push | object _ => 1
  | drop => 0

theorem OnReturn.weight_of_isVoid {type : RunTy} :
    (if type.isVoid then OnReturn.drop else .push).weight = type.weight := by
  unfold Ty.weight
  split <;> rfl

/-- A frame goes on at the right place, and calls members with a receiver. -/
def Flow.Leads (image : Image) (depth : Nat → Nat) (frame : Frame) : Flow → Prop
  | next => frame.Stands depth 0
  | enter request onReturn => frame.Stands depth onReturn.weight ∧ request.HasReceiver image
  | tailCall call => (Request.method call).HasReceiver image
  | ret _ | resume _ _ _ => True

/-- What an instruction of a balanced body leads to. -/
def Flow.Lands (image : Image) (result : Nat) (depth : Nat → Nat) (flow : Flow) (frame : Frame) :
    Prop :=
  frame.Sound image result depth ∧ flow.Leads image depth frame

namespace Frame

variable {image : Image} {result : Nat} {depth : Nat → Nat} {frame changed : Frame}

theorem Sound.keep (sound : frame.Sound image result depth) (keeps : frame.Keeps changed) :
    changed.Sound image result depth := by
  refine ⟨keeps.body ▸ sound.balanced, ?_⟩
  rw [keeps.body, keeps.pending]
  exact sound.pending

/-- A finally handler starts at an empty stack. -/
theorem Sound.finalsBetween (sound : frame.Sound image result depth) {source target : Nat} :
    ∀ handler ∈ Frame.finalsBetween frame.body source target,
      frame.body.HasDepth depth handler 0 := by
  intro start member
  obtain ⟨region, isRegion, found⟩ := List.mem_filterMap.mp member
  split at found
  · obtain ⟨handler, isHandler, rfl⟩ := Option.map_eq_some_iff.mp found
    have isFinal : handler.kind = .final := by simpa using List.find?_some isHandler
    have enters :=
      sound.balanced.handlers region isRegion handler (List.mem_of_find?_eq_some isHandler)
    rw [isFinal] at enters
    exact enters
  · cases found

/-- Going to a place with an empty stack, by way of finally handlers. -/
theorem Sound.leaveThrough (sound : frame.Sound image result depth) {target : Nat}
    {handlers : List Nat} (isTarget : frame.body.HasDepth depth target 0)
    (areHandlers : ∀ handler ∈ handlers, frame.body.HasDepth depth handler 0) :
    (frame.leaveThrough target handlers).Sound image result depth ∧
      (frame.leaveThrough target handlers).Stands depth 0 := by
  cases handlers with
  | nil => exact ⟨⟨sound.balanced, sound.pending⟩, isTarget⟩
  | cons handler rest =>
      refine ⟨⟨sound.balanced, fun pending isPending => ?_⟩, areHandlers handler List.mem_cons_self⟩
      rcases List.mem_cons.mp isPending with rfl | early
      · exact ⟨isTarget, (List.forall_mem_cons.mp areHandlers).2⟩
      · exact sound.pending pending early

end Frame

namespace FrameStep

variable {image : Image} {result current : Nat} {depth : Nat → Nat} {frame : Frame}
variable {rest : Nat} {handle : CtorHandle}
variable {label : Label} {info : MethodInfo} {method : MethodHandle}

/-- Going to a label that has a depth. -/
theorem branch_lands {expected : Nat} (sound : frame.Sound image result depth)
    (reaches : frame.body.Reaches depth label expected) (height : frame.stack.length = expected) :
    Ends (do branch label; return .next) frame (Flow.Lands image result depth) := by
  obtain ⟨target, isTarget, within, isDepth⟩ := reaches
  have jumps : (branch label).Ends frame fun _ changed =>
      Flow.Lands image result depth .next changed :=
    .get_bind (.require_bind isTarget (.modify
      ⟨⟨sound.balanced, sound.pending⟩, within, isDepth.trans height.symm⟩))
  exact jumps.bind fun _ _ => .pure

/-- Taking a value that is there. -/
theorem pop_bind_ends {next : Value → FrameStep Flow} {post : Flow → Frame → Prop}
    (height : frame.stack.length = rest + 1)
    (goesOn : ∀ value changed, frame.Keeps changed → changed.stack.length = rest →
      (next value).Ends changed post) :
    (pop >>= next).Ends frame post :=
  (pop_shifts frame height).bind fun value changed ⟨_, keeps, isHeight⟩ =>
    goesOn value changed keeps isHeight

section

variable (sound : frame.Sound image result depth)
include sound

/-- Going to a label, or on to the next instruction, by the value on top. -/
theorem branchIf_lands {condition : Value → Bool}
    (height : frame.stack.length = rest + 1) (reaches : frame.body.Reaches depth label rest)
    (stands : ∀ changed : Frame, frame.Keeps changed → changed.stack.length = rest →
      changed.Stands depth 0) :
    Ends (do
      if condition (← pop) then
        branch label
      return .next) frame (Flow.Lands image result depth) := by
  refine pop_bind_ends height fun value changed keeps isHeight => ?_
  dsimp only
  split
  · exact branch_lands (sound.keep keeps) (keeps.body ▸ reaches) isHeight
  · exact .pure ⟨sound.keep keeps, stands changed keeps isHeight⟩

theorem switch_lands {labels : List Label}
    (height : frame.stack.length = rest + 1)
    (reaches : ∀ label ∈ labels, frame.body.Reaches depth label rest)
    (stands : ∀ changed : Frame, frame.Keeps changed → changed.stack.length = rest →
      changed.Stands depth 0) :
    (execute image current (.switch labels)).Ends frame (Flow.Lands image result depth) := by
  refine pop_bind_ends height fun value changed keeps isHeight => ?_
  refine .lift_bind (.require id) fun selector => ?_
  dsimp only
  split
  · rename_i label isLabel
    exact branch_lands (sound.keep keeps)
      (keeps.body ▸ reaches label (List.mem_of_getElem? isLabel)) isHeight
  · exact .pure ⟨sound.keep keeps, stands changed keeps isHeight⟩

theorem leave_lands (reaches : frame.body.Reaches depth label 0) :
    (execute image current (.leave label)).Ends frame (Flow.Lands image result depth) := by
  obtain ⟨target, isTarget, within, isDepth⟩ := reaches
  exact .get_bind (.require_bind isTarget (.set_bind (.pure
    (sound.leaveThrough ⟨within, isDepth⟩ sound.finalsBetween))))

/-- A finally handler leads on to the next one, to where control was going, or on with the
search for a handler. -/
theorem endFinally_lands :
    endFinally.Ends frame (Flow.Lands image result depth) := by
  refine .get_bind ?_
  split
  · exact .lift (.malformed id)
  · rename_i target rest handler pending isPending
    obtain ⟨isTarget, areHandlers⟩ := sound.pending _ (isPending ▸ List.mem_cons_self)
    have outer : Frame.Sound image result depth { frame with pending } := ⟨sound.balanced,
      fun other isOther => sound.pending other (isPending ▸ List.mem_cons_of_mem _ isOther)⟩
    exact .set_bind (.pure (outer.leaveThrough isTarget areHandlers))
  · rename_i exception position nextRegion handler pending isPending
    exact .set_bind (.pure ⟨⟨sound.balanced, fun other isOther =>
      sound.pending other (isPending ▸ List.mem_cons_of_mem _ isOther)⟩, trivial⟩)

end

/-- What is thrown ends the step. -/
theorem throw_ends {post : Flow → Frame → Prop} (height : frame.stack.length = rest + 1) :
    (execute image current .throw).Ends frame post := by
  refine pop_bind_ends height fun value changed keeps isHeight => ?_
  have throws : Ends (throw (.throw value) : FrameStep Flow) changed post := .lift (.throw id)
  dsimp only
  split
  · exact .lift_bind Exec.raise_ends fun _ => throws
  · exact throws

theorem method_ends {handle : MethodHandle} (found : image.method? handle = some info) :
    (Exec.ofImage (image.method handle)).Ends (· = info) :=
  .ofImage fun _ isOk => Option.some.inj ((Image.method_eq_ok.mp isOk).symm.trans found)

theorem ctor_ends {info : CtorInfo} (found : image.ctor? handle = some info) :
    (Exec.ofImage (image.ctor handle)).Ends (· = info) :=
  .ofImage fun _ isOk => Option.some.inj ((Image.ctor_eq_ok.mp isOk).symm.trans found)

/-- A call takes its arguments, and says what becomes of its value. -/
theorem call_shifts {tail isVirtual : Bool} (found : image.method? method = some info) :
    (call image method tail isVirtual).Shifts
      (rest + (info.params.length + (!info.attrs.isStatic).toNat)) rest
      fun flow => ∃ args : List Value,
        args.length = info.params.length + (!info.attrs.isStatic).toNat ∧
        flow = if tail then .tailCall ⟨method, args, isVirtual⟩
          else .enter (.method ⟨method, args, isVirtual⟩)
            (if info.ret.isVoid then .drop else .push) := by
  refine (Shifts.lift (method_ends found)).bind ?_
  rintro _ rfl
  refine takeArgs_shifts.bind fun args count => ?_
  dsimp only
  split
  · exact .pure ⟨args, count, rfl⟩
  · exact .pure ⟨args, count, rfl⟩

theorem newObject_shifts {info : CtorInfo} (found : image.ctor? handle = some info) :
    (execute image current (.newObject handle)).Shifts (rest + info.params.length) rest
      fun flow => ∃ args object, flow = .enter (.ctor handle args) (.object object) := by
  refine (Shifts.lift (ctor_ends found)).bind ?_
  rintro _ rfl
  refine takeArgs_shifts.bind fun args _ => ?_
  exact (Shifts.lift Exec.allocate_benign).andThen fun object => .pure ⟨_, object, rfl⟩

theorem callCtor_shifts {info : CtorInfo} (found : image.ctor? handle = some info) :
    (execute image current (.callCtor handle)).Shifts (rest + (info.params.length + 1)) rest
      fun flow => ∃ args, flow = .enter (.ctor handle args) .drop := by
  refine (Shifts.lift (ctor_ends found)).bind ?_
  rintro _ rfl
  exact takeArgs_shifts.bind fun args _ => .pure ⟨args, rfl⟩

/-- A call of a method leads to the place after it. -/
theorem call_lands {tail isVirtual : Bool} (sound : frame.Sound image result depth)
    (found : image.method? method = some info)
    (enough : info.params.length + (!info.attrs.isStatic).toNat ≤ frame.stack.length)
    (stands : tail = false → ∀ changed : Frame, frame.Keeps changed →
      changed.stack.length + (info.params.length + (!info.attrs.isStatic).toNat) =
        frame.stack.length → changed.Stands depth info.ret.weight) :
    (call image method tail isVirtual).Ends frame (Flow.Lands image result depth) := by
  obtain ⟨rest, isRest⟩ : ∃ rest, frame.stack.length =
      rest + (info.params.length + (!info.attrs.isStatic).toNat) :=
    ⟨_, (Nat.sub_add_cancel enough).symm⟩
  refine (call_shifts found frame isRest).imp ?_
  rintro flow changed ⟨⟨args, count, rfl⟩, keeps, height⟩
  have hasReceiver : (Request.method ⟨method, args, isVirtual⟩).HasReceiver image := by
    rintro - other isOther isInstance rfl
    obtain rfl := Option.some.inj (found.symm.trans isOther)
    simp [isInstance] at count
  refine ⟨sound.keep keeps, ?_⟩
  cases tail with
  | true => exact hasReceiver
  | false =>
      refine ⟨?_, hasReceiver⟩
      rw [OnReturn.weight_of_isVoid]
      exact stands rfl changed keeps (by omega)

/-- An instruction of a balanced body leads to a place in it. -/
theorem execute_lands {instr : Instr} (sound : frame.Sound image result depth)
    (isInstr : frame.body.instrs[current]? = some instr)
    (height : frame.stack.length = depth current) (position : frame.position = current + 1) :
    (execute image current instr).Ends frame (Flow.Lands image result depth) := by
  obtain ⟨effect, isEffect, enough, falls, targets, -, -⟩ :=
    sound.balanced.flows current instr isInstr
  obtain ⟨rest, isRest⟩ : ∃ rest, depth current = rest + effect.takes :=
    ⟨depth current - effect.takes, by omega⟩
  rw [isRest, Nat.add_sub_cancel] at targets
  rw [isRest] at height
  -- Where control goes on, the next place has the depth that the effect leaves.
  have stands : instr.fallsThrough = true → ∀ (changed : Frame) (missing : Nat),
      frame.Keeps changed → changed.stack.length + missing = rest + effect.gives →
      changed.Stands depth missing := by
    intro goesOn changed missing keeps isHeight
    refine ⟨?_, ?_⟩
    · rw [keeps.body, keeps.position, position]
      exact sound.balanced.inside current instr isInstr goesOn
    · rw [keeps.position, position, falls goesOn]
      omega
  have plain : instr.isPlain = true →
      (execute image current instr).Ends frame (Flow.Lands image result depth) := by
    intro isPlain
    refine (execute_shifts isPlain isEffect frame height).imp ?_
    rintro _ changed ⟨rfl, keeps, isHeight⟩
    refine ⟨sound.keep keeps, stands ?_ changed 0 keeps isHeight⟩
    cases instr <;> first | rfl | cases isPlain
  cases instr with
  | ret => exact .get_bind (.pure ⟨sound, trivial⟩)
  | branch label =>
      cases isEffect
      exact branch_lands sound (targets label List.mem_cons_self) height
  | branchTrue label | branchFalse label =>
      cases isEffect
      exact branchIf_lands sound height (targets label List.mem_cons_self)
        fun changed keeps isHeight => stands rfl changed 0 keeps isHeight
  | switch labels =>
      cases isEffect
      exact switch_lands sound height targets fun changed => stands rfl changed 0
  | leave label => exact leave_lands sound (targets label List.mem_cons_self)
  | endFinally => exact endFinally_lands sound
  | throw =>
      cases isEffect
      exact throw_ends height
  | call method tail | callVirtual method tail =>
      obtain ⟨info, found, rfl⟩ := Option.map_eq_some_iff.mp isEffect
      have enough : info.params.length + (!info.attrs.isStatic).toNat ≤ frame.stack.length := by
        rw [height]
        exact Nat.le_add_left _ _
      refine call_lands sound found enough fun notTail changed keeps isHeight => ?_
      rw [height] at isHeight
      refine stands ?_ changed _ keeps (congrArg (· + info.ret.weight) ?_)
      · rw [notTail]
        rfl
      · exact Nat.add_right_cancel isHeight
  | newObject handle =>
      obtain ⟨info, found, rfl⟩ := Option.map_eq_some_iff.mp isEffect
      refine (newObject_shifts found frame height).imp ?_
      rintro _ changed ⟨⟨args, object, rfl⟩, keeps, isHeight⟩
      exact ⟨sound.keep keeps, stands rfl changed 1 keeps (by rw [isHeight]), trivial⟩
  | callCtor handle =>
      obtain ⟨info, found, rfl⟩ := Option.map_eq_some_iff.mp isEffect
      refine (callCtor_shifts found frame height).imp ?_
      rintro _ changed ⟨⟨args, rfl⟩, keeps, isHeight⟩
      exact ⟨sound.keep keeps, stands rfl changed 0 keeps (by rw [isHeight]), trivial⟩
  | _ => exact plain rfl

end FrameStep

end ClassForge
