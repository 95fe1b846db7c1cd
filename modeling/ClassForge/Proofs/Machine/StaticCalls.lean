import ClassForge.Proofs.Machine.MachineHistory
import ClassForge.Proofs.Machine.WaitingLevels

/-!
# Static methods, called from outside and from code

An instruction copies the instances of value types that it passes; a host passes values as they
are.  Where there are no such instances among the arguments, a host that calls a static method gets
what code would get that calls it in the same state, and the store is the same.  An instance that a
host passes is the one that the method works on.
-/

namespace ClassForge

open FrameStep

/-! ## Calling a static method from code -/

/-- References are their own copies. -/
theorem FrameStep.run_copyAll {args : List Value}
    (references : ∀ value ∈ args, ∀ ref, value ≠ .struct ref) (store : Store) :
    (takeArgs.copyAll args).run store = .ok args store := by
  unfold takeArgs.copyAll
  induction args with
  | nil => rfl
  | cons value args ih =>
      obtain ⟨other, rest⟩ := List.forall_mem_cons.mp references
      rw [List.mapM_cons, EStateM.run_bind, Exec.run_copy, Heap.copy_of_ne_struct other]
      dsimp only
      rw [EStateM.run_bind, ih rest]
      rfl

theorem FrameStep.copyAll_length {args copies : List Value} {store later : Store}
    (copied : (takeArgs.copyAll args).run store = .ok copies later) :
    copies.length = args.length := by
  have ends : (takeArgs.copyAll args).Ends fun copies => copies.length = args.length :=
    .mapM fun _ => Exec.copy_benign
  have isLength := ends store
  rwa [copied] at isLength

section Sequencing

variable {α β : Type} {frame changed : Frame} {store later : Store} {value : α}

theorem FrameStep.run_lift {action : Exec α} (ran : action.run store = .ok value later) :
    ((liftM action : FrameStep α).run frame).run store = .ok (value, frame) later := by
  change (action >>= fun value => pure (value, frame)).run store = _
  rw [EStateM.run_bind, ran]
  rfl

theorem FrameStep.run_bind {first : FrameStep α} {next : α → FrameStep β}
    (ran : (first.run frame).run store = .ok (value, changed) later) :
    ((first >>= next).run frame).run store = ((next value).run changed).run later := by
  rw [StateT.run_bind, EStateM.run_bind, ran]

end Sequencing

/-- The arguments of a static method are taken off the stack. -/
theorem FrameStep.run_takeArgs {frame : Frame} {args copies rest : List Value} {store later : Store}
    (onStack : frame.stack = args.reverse ++ rest)
    (copied : (takeArgs.copyAll args).run store = .ok copies later) :
    ((takeArgs args.length false).run frame).run store =
      .ok (copies, { frame with stack := rest }) later := by
  have enough : args.length ≤ frame.stack.length := by
    rw [onStack, List.length_append, List.length_reverse]
    exact Nat.le_add_right _ _
  have isTop : (frame.stack.take args.length).reverse = args := by
    rw [onStack, List.take_left' List.length_reverse, List.reverse_reverse]
  have isRest : frame.stack.drop args.length = rest := by
    rw [onStack, List.drop_left' List.length_reverse]
  unfold takeArgs
  rw [StateT.run_bind, run_popMany enough, pure_bind, isTop, isRest]
  exact run_lift copied

/-- The frame that waits for a static method. -/
def Frame.calling (frame : Frame) (rest : List Value) : Frame :=
  { frame with stack := rest, position := frame.position + 1 }

/-- What a method without a result gives is dropped. -/
def MethodInfo.onReturn (info : MethodInfo) : OnReturn :=
  if info.ret.isVoid then .drop else .push

/-- The levels that wait for a static method.  A frame that ends in the call is not among them. -/
def Frame.waiting (frame : Frame) (rest : List Value) (info : MethodInfo) (levels : List Level) :
    (tail isCtor : Bool) → List Level
  | false, isCtor => .caller (frame.calling rest) isCtor info.onReturn :: levels
  | true, true => .passing :: levels
  | true, false => levels

/-- The store that a called method begins with.  A frame that ends in the call has released its
pins. -/
def Frame.storeAtCall (frame : Frame) (store : Store) : (tail : Bool) → Store
  | false => store
  | true => store.releasePins frame

namespace Machine

section Instruction

variable {image : Image} {limit room : Nat} {frame : Frame} {isCtor tail : Bool}
variable {levels : List Level} {store later : Store} {method : MethodHandle} {info : MethodInfo}
variable {args copies rest : List Value}

theorem execute_call (isMethod : image.method? method = some info)
    (isStatic : info.attrs.isStatic = true) (count : args.length = info.params.length)
    (onStack : frame.stack = args.reverse ++ rest)
    (copied : (takeArgs.copyAll args).run store = .ok copies later) :
    ((execute image frame.position (.call method tail)).run
      { frame with position := frame.position + 1 }).run store =
        .ok (if tail then .tailCall ⟨method, copies, false⟩
          else .enter (.method ⟨method, copies, false⟩) info.onReturn, frame.calling rest) later := by
  have isInfo : (Exec.ofImage (image.method method)).run store = .ok info store := by
    rw [Image.method_eq_ok.mpr isMethod]
    rfl
  have taken : ((takeArgs info.params.length false).run
      { frame with position := frame.position + 1 }).run store =
        .ok (copies, frame.calling rest) later := count ▸ run_takeArgs onStack copied
  change ((call image method tail false).run _).run store = _
  unfold call
  rw [FrameStep.run_bind (run_lift isInfo)]
  dsimp only
  rw [isStatic]
  refine (FrameStep.run_bind taken).trans ?_
  cases tail with
  | false => rfl
  | true => rfl

/-- A call instruction begins its method on top of the levels that wait, if there is room. -/
theorem step_call (isMethod : image.method? method = some info)
    (isStatic : info.attrs.isStatic = true) (count : args.length = info.params.length)
    (isCall : frame.body.instrs[frame.position]? = some (.call method tail))
    (onStack : frame.stack = args.reverse ++ rest)
    (copied : (takeArgs.copyAll args).run store = .ok copies later)
    (isLimit : levels.length + 1 + room = limit) :
    (∃ spare, (frame.waiting rest info levels tail isCtor).length + 1 + spare = limit ∧
      step image limit ⟨.execute frame isCtor, levels, room, store⟩ =
        .running ⟨.begin (.method ⟨method, copies, false⟩),
          frame.waiting rest info levels tail isCtor, spare, frame.storeAtCall later tail⟩) ∨
      ∃ last, step image limit ⟨.execute frame isCtor, levels, room, store⟩ =
        .finished (.error (.stackOverflow limit)) last := by
  have opens (level : Level) (begun : Store) :
      (∃ spare, (level :: levels).length + 1 + spare = limit ∧
        enter limit (.method ⟨method, copies, false⟩) (level :: levels) room begun =
          .running ⟨.begin (.method ⟨method, copies, false⟩), level :: levels, spare, begun⟩) ∨
        ∃ last, enter limit (.method ⟨method, copies, false⟩) (level :: levels) room begun =
          .finished (.error (.stackOverflow limit)) last := by
    cases room with
    | zero => exact .inr ⟨_, rfl⟩
    | succ spare => exact .inl ⟨spare, by rw [List.length_cons]; omega, rfl⟩
  have goes : step image limit ⟨.execute frame isCtor, levels, room, store⟩ =
      follow image limit (frame.calling rest) isCtor
        (if tail then .tailCall ⟨method, copies, false⟩
          else .enter (.method ⟨method, copies, false⟩) info.onReturn) levels room later := by
    unfold step
    dsimp only
    rw [isCall]
    dsimp only
    rw [execute_call isMethod isStatic count onStack copied]
  rw [goes]
  cases tail with
  | false => exact opens _ later
  | true =>
      cases isCtor with
      | false => exact .inl ⟨room, isLimit, rfl⟩
      | true => exact opens .passing (later.releasePins frame)

end Instruction

/-! ## Calling it from outside -/

section Resolution

variable {machine : Machine} {typeName name : Name} {args : List Value} {method : MethodHandle}

/-- The method that is found is static and takes as many values as are passed. -/
theorem findStatic_sound (resolves : machine.findStatic typeName name args = .ok method) :
    ∃ info, machine.image.method? method = some info ∧ info.attrs.isStatic = true ∧
      args.length = info.params.length := by
  unfold findStatic at resolves
  obtain ⟨⟨_, type⟩, -, resolves⟩ := bind_eq_ok.mp resolves
  dsimp only at resolves
  split at resolves
  · rename_i handle info isFound
    cases resolves
    have test := List.find?_some isFound
    simp only [Bool.and_eq_true, argsFit, beq_iff_eq] at test
    obtain ⟨⟨isStatic, -⟩, count, -⟩ := test
    exact ⟨info, (Image.mem_methodsOf.mp (List.mem_of_find?_eq_some isFound)).2, isStatic, count⟩
  · cases resolves

end Resolution

/-- An instruction that calls a static method gives the levels that wait what a host gets that
passes copies of the values: the value or the exception, and an error ends the levels.  The stores
are the same.  Only the levels that wait may leave too little room. -/
theorem invokeStatic_copies {machine later : Machine} {typeName name : Name}
    {args copies : List Value} {method : MethodHandle} {fuel : Nat}
    {answer : Except RunError Value} {frame : Frame} {isCtor tail : Bool} {levels : List Level}
    {room : Nat} {rest : List Value} {store begun : Store}
    (copied : (takeArgs.copyAll args).run store = .ok copies begun)
    (resolves : machine.findStatic typeName name copies = .ok method)
    (isCall : frame.body.instrs[frame.position]? = some (.call method tail))
    (onStack : frame.stack = args.reverse ++ rest)
    (isDepth : levels.length + 1 + room = machine.maxDepth)
    (sameStore : machine.store = frame.storeAtCall begun tail)
    (replied : machine.invokeStatic fuel typeName name copies = some (answer, later)) :
    ∃ info, machine.image.method? method = some info ∧
      EndsAs machine.image machine.maxDepth ⟨.execute frame isCtor, levels, room, store⟩
        (frame.waiting rest info levels tail isCtor) answer later.store := by
  obtain ⟨info, isMethod, isStatic, count⟩ := findStatic_sound resolves
  have sameCount := copyAll_length copied
  unfold invokeStatic at replied
  rw [resolves, sameStore] at replied
  refine ⟨info, isMethod, ?_⟩
  have opens := @step_call machine.image machine.maxDepth room frame isCtor tail levels store begun
    method info args copies rest isMethod isStatic (sameCount.symm.trans count) isCall onStack copied
    isDepth
  rcases opens with ⟨spare, isTotal, goes⟩ | ⟨last, fails⟩
  · exact (perform_endsAs isTotal replied).head goes
  · exact .inr ⟨last, _, .refl, fails⟩

/-- Where no instance of a value type is among them, the values that a host passes are copies
already, and both ways of calling agree. -/
theorem invokeStatic_agrees {machine later : Machine} {typeName name : Name} {args : List Value}
    {method : MethodHandle} {fuel : Nat} {answer : Except RunError Value}
    {frame : Frame} {isCtor tail : Bool} {levels : List Level} {room : Nat} {rest : List Value}
    {store : Store} (resolves : machine.findStatic typeName name args = .ok method)
    (references : ∀ value ∈ args, ∀ ref, value ≠ .struct ref)
    (isCall : frame.body.instrs[frame.position]? = some (.call method tail))
    (onStack : frame.stack = args.reverse ++ rest)
    (isDepth : levels.length + 1 + room = machine.maxDepth)
    (sameStore : machine.store = frame.storeAtCall store tail)
    (replied : machine.invokeStatic fuel typeName name args = some (answer, later)) :
    ∃ info, machine.image.method? method = some info ∧
      EndsAs machine.image machine.maxDepth ⟨.execute frame isCtor, levels, room, store⟩
        (frame.waiting rest info levels tail isCtor) answer later.store :=
  invokeStatic_copies (run_copyAll references store) resolves isCall onStack isDepth sameStore
    replied

end Machine

/-! ## An instance that is passed -/

/-- A value type, a class with a field of it, and a class with two static methods: one writes to
the field of the instance that it is given. -/
def passing : List Image.Command :=
  [.declareType "Point" .publicValueType none [],
    .declareField ⟨45⟩ "x" .int32 { isPublic := true },
    .sealType ⟨45⟩,
    .declareType "Holder" .publicClass none [],
    .declareField ⟨46⟩ "p" (.declared ⟨45⟩) { isPublic := true },
    .declareCtor ⟨46⟩ [],
    .defineCtor ⟨35⟩ { instrs := #[.ret], labels := #[], locals := #[], regions := [] },
    .sealType ⟨46⟩,
    .declareType "Probe" .publicClass none [],
    .declareMethod ⟨47⟩ "set" .publicStatic [.declared ⟨45⟩] .void,
    .declareMethod ⟨47⟩ "next" .publicStatic [.int32] .int32,
    .defineMethod ⟨56⟩
      { instrs := #[.loadArg 0, .const (.int32 5), .storeField ⟨2⟩, .ret]
        labels := #[]
        locals := #[]
        regions := [] },
    .defineMethod ⟨57⟩
      { instrs := #[.loadArg 0, .const (.int32 1), .arith .add, .ret]
        labels := #[]
        locals := #[]
        regions := [] },
    .sealType ⟨47⟩]

/-- The machine in which they run. -/
def passingMachine : Machine :=
  .start (passing.foldl Image.after .library) 10

/-- A frame that is about to call a method with a value and to return what it gives. -/
def passingFrame (method : MethodHandle) (value : Value) : Frame where
  body := { instrs := #[.call method false, .ret], labels := #[], locals := #[], regions := [] }
  args := #[]
  locals := #[]
  stack := [value]
  position := 0
  pending := []

namespace Machine

/-- Both ways of calling a method with a number agree. -/
theorem invokeStatic_agrees_next :
    EndsAs passingMachine.image 10
      ⟨.execute (passingFrame ⟨57⟩ (.int32 6)) false, [], 9, passingMachine.store⟩
      [.caller ((passingFrame ⟨57⟩ (.int32 6)).calling []) false .push] (.ok (.int32 7))
      passingMachine.store := by
  have resolves : passingMachine.findStatic "Probe" "next" [.int32 6] = .ok ⟨57⟩ := by
    decide +kernel
  have evaluates : (passingMachine.invokeStatic 10 "Probe" "next" [.int32 6]).any
      (fun reply => reply.1 = .ok (.int32 7) ∧ reply.2.store = passingMachine.store) = true := by
    decide +kernel
  obtain ⟨⟨_, later⟩, replied, answered⟩ := (Option.any_eq_true _ _).mp evaluates
  obtain ⟨rfl, sameStore⟩ : _ = Except.ok _ ∧ later.store = _ := of_decide_eq_true answered
  have onReturn : (passingMachine.image.method? ⟨57⟩).map MethodInfo.onReturn = some .push := by
    decide +kernel
  obtain ⟨info, isMethod, ends⟩ := @invokeStatic_agrees _ _ _ _ _ _ _ _
    (passingFrame ⟨57⟩ (.int32 6)) false false [] 9 [] _ resolves
    (by simp) rfl rfl rfl rfl replied
  rw [isMethod] at onReturn
  have isPush : info.onReturn = .push := Option.some.inj onReturn
  unfold Frame.waiting at ends
  rwa [isPush, show later.store = passingMachine.store from sameStore] at ends

/-- A method that a host calls writes to an object that was there before: the instance that a field
of another object holds.  Called from code with the same instance it does not. -/
theorem passed_instance_shared :
    ∃ machine : Machine,
      Leads machine.image 10 (.rest passingMachine.store) (.rest machine.store) ∧
      machine.getField? (.ref ⟨1⟩) "p" = some (.struct ⟨0⟩) ∧
      machine.findStatic "Probe" "set" [.struct ⟨0⟩] = .ok ⟨56⟩ ∧
      machine.store.heap.get? ⟨0⟩ = some (.instance ⟨45⟩ #[.int32 0]) ∧
      (∃ later, machine.invokeStatic 10 "Probe" "set" [.struct ⟨0⟩] = some (.ok .null, later) ∧
        later.store.heap.get? ⟨0⟩ = some (.instance ⟨45⟩ #[.int32 5])) ∧
      ∃ last, run machine.image 10 10
          ⟨.execute (passingFrame ⟨56⟩ (.struct ⟨0⟩)) false, [], 9, machine.store⟩ =
            some (.value .null, last) ∧
        last.heap.get? ⟨0⟩ = some (.instance ⟨45⟩ #[.int32 0]) := by
  have evaluates : (passingMachine.construct 10 "Holder" []).any (fun made =>
      made.2.getField? (.ref ⟨1⟩) "p" = some (.struct ⟨0⟩) ∧
      made.2.findStatic "Probe" "set" [.struct ⟨0⟩] = .ok ⟨56⟩ ∧
      made.2.store.heap.get? ⟨0⟩ = some (.instance ⟨45⟩ #[.int32 0]) ∧
      (made.2.invokeStatic 10 "Probe" "set" [.struct ⟨0⟩]).any (fun reply =>
        reply.1 = .ok .null ∧ reply.2.store.heap.get? ⟨0⟩ = some (.instance ⟨45⟩ #[.int32 5])) ∧
      (run made.2.image 10 10
          ⟨.execute (passingFrame ⟨56⟩ (.struct ⟨0⟩)) false, [], 9, made.2.store⟩).any
        (fun ending => ending.1 = .value .null ∧
          ending.2.heap.get? ⟨0⟩ = some (.instance ⟨45⟩ #[.int32 0]))) = true := by
    decide +kernel
  obtain ⟨⟨answer, machine⟩, replied, holds⟩ := (Option.any_eq_true _ _).mp evaluates
  obtain ⟨field, resolves, before, called, ran⟩ := of_decide_eq_true holds
  obtain ⟨⟨_, later⟩, isCall, answered⟩ := (Option.any_eq_true _ _).mp called
  obtain ⟨rfl, written⟩ := of_decide_eq_true answered
  obtain ⟨⟨_, last⟩, isEnd, ended⟩ := (Option.any_eq_true _ _).mp ran
  obtain ⟨rfl, unwritten⟩ := of_decide_eq_true ended
  have covered : (EntryCall.construct "Holder" []).Covered passingMachine.store.heap := nofun
  have leads := call_leads covered replied
  have isReply : (EntryCall.construct "Holder" []).perform passingMachine 10 =
      some (answer, machine) := replied
  have isImage : machine.image = passingMachine.image := by
    rw [EntryCall.perform_machine isReply]
  rw [← isImage] at leads
  exact ⟨machine, leads, field, resolves, before, ⟨later, isCall, written⟩, last, isEnd, unwritten⟩

end Machine

end ClassForge
