import ClassForge.Machine.Host
import ClassForge.Proofs.Code.BalancedBuilds
import ClassForge.Proofs.Machine.FrameSteps

/-!
# Running balanced code

If all code in an image is balanced, a machine that runs it always finds the values that it
takes off a stack, and always finds code where control goes: every step leads from a safe
configuration to a safe one.  So no call from outside ends with a fault of control, whatever
was called before.
-/

namespace ClassForge

open Schedule

/-- All code in an image is balanced. -/
structure Image.Balanced (image : Image) : Prop where
  methods : ∀ handle info body, image.method? handle = some info →
    info.implementation = .code body → ∃ depth, body.Balanced image info.ret.weight depth
  ctors : ∀ handle info body, image.ctor? handle = some info →
    info.implementation = .code body → ∃ depth, body.Balanced image 0 depth

/-- What a search finds is an item of the list. -/
theorem Exec.Ends.findM? {α : Type} {items : List α} {test : α → Exec Bool}
    (each : ∀ item, (test item).Benign) :
    (items.findM? test).Ends fun found? => ∀ found ∈ found?, found ∈ items := by
  induction items with
  | nil => exact .pure nofun
  | cons item items ih =>
      refine (each item).andThen fun isFound => ?_
      cases isFound with
      | true =>
          refine .pure fun found same => ?_
          rw [Option.some.inj same]
          exact List.mem_cons_self
      | false => exact ih.imp fun found? areItems found isFound =>
          List.mem_cons_of_mem _ (areItems found isFound)

/-- A frame of balanced code that can go on once it gets some more values. -/
def Frame.Ready (image : Image) (frame : Frame) (missing : Nat) : Prop :=
  ∃ result depth, frame.Sound image result depth ∧ frame.Stands depth missing

/-- A frame that waits can go on when it gets what it waits for. -/
def Level.Safe (image : Image) : Level → Prop
  | caller frame _ onReturn => frame.Ready image onReturn.weight
  | passing => True

/-- What the machine is at goes on without a fault of control. -/
def Focus.Safe (image : Image) : Focus → Prop
  | execute frame _ => frame.Ready image 0
  | begin request => request.HasReceiver image
  | deliver _ | raise _ => True

/-- The frame that runs and all that wait can go on. -/
structure Config.Safe (image : Image) (config : Config) : Prop where
  focus : config.focus.Safe image
  levels : ∀ level ∈ config.levels, level.Safe image

/-- A run does not end with a fault of control. -/
def Outcome.Safe : Outcome → Prop
  | error failure => ¬ failure.OfControl
  | value _ | exception _ => True

/-- A run has had no fault of control. -/
def Progress.Safe (image : Image) : Progress → Prop
  | running config => config.Safe image
  | finished outcome _ => outcome.Safe

namespace Frame

variable {image : Image} {result : Nat} {depth : Nat → Nat} {frame : Frame}
variable {exception : Value} {position : Nat}
variable {region : Region} {regions : List (Region × Nat)}

/-! ## Handlers -/

section

variable (sound : frame.Sound image result depth)
include sound

theorem Sound.enterCatch {type : RunTy} {handler : Handler} (isRegion : region ∈ frame.body.regions)
    (isHandler : (type, handler) ∈ region.catches) :
    (frame.enterCatch region handler exception).Ready image 0 := by
  obtain ⟨other, isOther, found⟩ := List.mem_filterMap.mp isHandler
  obtain ⟨caught, isCaught, same⟩ := Option.map_eq_some_iff.mp found
  cases same
  have isDepth : handler.kind.entryDepth = 1 := by
    cases kind : handler.kind with
    | catching => rfl
    | final => simp [kind, HandlerKind.caught?] at isCaught
  have enters := sound.balanced.handlers region isRegion handler isOther
  rw [isDepth] at enters
  refine ⟨result, depth, ⟨sound.balanced, fun pending isPending => ?_⟩, enters⟩
  exact sound.pending pending (List.mem_of_mem_filter isPending)

theorem Sound.enterFinal {handler : Handler} {nextRegion : Nat}
    (isRegion : region ∈ frame.body.regions) (isHandler : region.final? = some handler) :
    (frame.enterFinal handler exception position nextRegion).Ready image 0 := by
  have isFinal : handler.kind = .final := by simpa using List.find?_some isHandler
  have enters :=
    sound.balanced.handlers region isRegion handler (List.mem_of_find?_eq_some isHandler)
  rw [isFinal] at enters
  refine ⟨result, depth, ⟨sound.balanced, fun pending isPending => ?_⟩, enters⟩
  rcases List.mem_cons.mp isPending with rfl | early
  · trivial
  · exact sound.pending pending early

/-- A region without a catch handler for an exception hands it to its finally handler or to
the regions around it. -/
theorem Sound.finalAmong_ends {index : Nat}
    (isRegion : region ∈ frame.body.regions)
    (rest : (frame.handlerAmong image exception position regions).Ends fun found? =>
      ∀ found ∈ found?, found.Ready image 0) :
    Exec.Ends (do
      if region.finalCovers position then
        if let some handler := region.final? then
          return some (frame.enterFinal handler exception position (index + 1))
      frame.handlerAmong image exception position regions) fun found? =>
        ∀ found ∈ found?, found.Ready image 0 := by
  split
  · split
    · rename_i handler isHandler
      refine .pure fun found isFound => ?_
      obtain rfl := Option.some.inj isFound
      exact sound.enterFinal isRegion isHandler
    · exact rest
  · exact rest

/-- An exception leads to a handler of the frame, if it is handled there. -/
theorem Sound.handlerAmong_ends (areRegions : ∀ entry ∈ regions, entry.1 ∈ frame.body.regions) :
    (frame.handlerAmong image exception position regions).Ends fun found? =>
      ∀ found ∈ found?, found.Ready image 0 := by
  induction regions with
  | nil => exact .pure nofun
  | cons entry regions ih =>
      obtain ⟨region, index⟩ := entry
      have isRegion := areRegions _ List.mem_cons_self
      have rest := ih (List.forall_mem_cons.mp areRegions).2
      unfold handlerAmong
      dsimp only
      split
      · refine (Exec.Ends.findM? fun _ => Exec.isInstance_benign).bind fun handler? isHandler => ?_
        split
        · rename_i type handler
          refine .pure fun found isFound => ?_
          obtain rfl := Option.some.inj isFound
          exact sound.enterCatch isRegion (isHandler _ rfl)
        · exact sound.finalAmong_ends isRegion rest
      · exact sound.finalAmong_ends isRegion rest

theorem Sound.unwind_ends {firstRegion : Nat} :
    (frame.unwind image exception position firstRegion).Ends fun found? =>
      ∀ found ∈ found?, found.Ready image 0 :=
  sound.handlerAmong_ends fun _ isEntry =>
    (List.mem_zipIdx (List.mem_of_mem_drop isEntry)).2.2 ▸ List.getElem_mem _

end

/-- Balanced code can start with an empty stack. -/
theorem start_ends {body : Body} (balanced : body.Balanced image result depth)
    {args : List Value} :
    (Frame.start image body args).Ends fun frame => frame.Ready image 0 := by
  refine (Exec.Ends.mapM fun _ => Exec.defaultValue_benign).bind fun locals _ => .pure ?_
  exact ⟨result, depth, ⟨balanced, nofun⟩, balanced.entry⟩

end Frame

namespace Machine

variable {image : Image} {limit : Nat} {levels : List Level} {room : Nat} {store : Store}
variable {args : List Value}
variable {request : Request}

/-! ## Calls -/

theorem dispatch_benign {method : MethodHandle}
    (hasReceiver : (Request.method ⟨method, args, true⟩).HasReceiver image) :
    (dispatch image method args).Benign := by
  refine (Exec.Ends.ofImage fun _ => id).bind fun info isMethod => ?_
  have isInfo := Image.method_eq_ok.mp isMethod
  dsimp only
  split
  · exact .pure trivial
  · rename_i isInstance
    have hasArgs : args ≠ [] := hasReceiver rfl info isInfo (by simpa using isInstance)
    obtain ⟨receiver, rest, rfl⟩ := List.exists_cons_of_ne_nil hasArgs
    refine Exec.Ends.bind (Exec.Ends.pure rfl) ?_
    rintro _ rfl
    split
    · exact Exec.raise_bind_ends
    · split
      · exact .pure trivial
      · refine Exec.heap_benign.andThen fun heap => ?_
        split
        · exact .pure trivial
        · split
          · exact Exec.Ends.andThen (.throw id) fun _ => .pure trivial
          · exact .pure trivial

/-- A method that has been selected begins with the frame of its code, or ends at once. -/
theorem beginSelected_ends (balanced : image.Balanced) (method : MethodHandle)
    (args : List Value) :
    Exec.Ends (do
      let info ← Exec.ofImage (image.method method)
      if !info.attrs.isStatic && args.head?.all Value.isNull then
        Exec.raise image .nullReference
      match info.implementation with
      | .missing => throw (.fatal (.noBody (image.methodLabel info)))
      | .native native =>
          match ← native.run image args with
          | .value value => return Focus.deliver value
          | .call method args =>
              return .begin (.method { method, args, isVirtual := false })
      | .code body => return .execute (← Frame.start image body args) false)
      fun focus => focus.Safe image := by
  refine (Exec.Ends.ofImage fun _ => id).bind fun info isMethod => ?_
  dsimp only
  split
  · exact Exec.raise_bind_ends
  · split
    · exact .throw id
    · refine Native.run_benign.andThen fun outcome => ?_
      split
      · exact .pure trivial
      · exact .pure fun isVirtual => absurd isVirtual Bool.false_ne_true
    · rename_i body isCode
      obtain ⟨depth, agrees⟩ :=
        balanced.methods method info body (Image.method_eq_ok.mp isMethod) isCode
      exact (Frame.start_ends agrees).bind fun frame ready => .pure ready

/-- A member begins with the frame of its code, or ends at once. -/
theorem begin_ends (balanced : image.Balanced) (hasReceiver : request.HasReceiver image) :
    (begin image request).Ends fun focus => focus.Safe image := by
  cases request with
  | method call =>
      unfold begin beginMethod
      dsimp only
      split
      · rename_i isVirtual
        exact (dispatch_benign fun _ => hasReceiver isVirtual).andThen
          fun method => beginSelected_ends balanced method call.args
      · exact beginSelected_ends balanced call.method call.args
  | ctor handle args =>
      refine (Exec.Ends.ofImage fun _ => id).bind fun info isCtor => ?_
      split
      · exact .throw id
      · exact Exec.Ends.andThen (Exec.Ends.andThen Native.run_benign fun _ => .pure trivial)
          fun _ => .pure trivial
      · rename_i body isCode
        obtain ⟨depth, agrees⟩ :=
          balanced.ctors handle info body (Image.ctor_eq_ok.mp isCtor) isCode
        exact (Frame.start_ends agrees).bind fun frame ready => .pure ready

/-! ## Transitions -/

theorem enter_safe (hasReceiver : request.HasReceiver image)
    (areSafe : ∀ level ∈ levels, level.Safe image) :
    (enter limit request levels room store).Safe image := by
  cases room with
  | zero => exact id
  | succ room => exact ⟨hasReceiver, areSafe⟩

theorem handle_safe {result : Nat} {depth : Nat → Nat} {frame : Frame}
    (sound : frame.Sound image result depth) {isCtor : Bool} {exception : Value}
    {position firstRegion : Nat} (areSafe : ∀ level ∈ levels, level.Safe image) :
    (handle image frame isCtor exception position firstRegion levels room store).Safe image := by
  have ends := (sound.unwind_ends :
    (frame.unwind image exception position firstRegion).Ends _) store
  unfold handle
  split at ends
  · rename_i found? after ran
    rw [ran]
    cases found? with
    | none => exact ⟨trivial, areSafe⟩
    | some found => exact ⟨ends found rfl, areSafe⟩
  · rename_i trap after ran
    rw [ran]
    cases trap with
    | throw exception => exact ⟨trivial, areSafe⟩
    | fatal error => exact ends

theorem follow_safe {result : Nat} {depth : Nat → Nat} {frame : Frame} {flow : Flow}
    (lands : flow.Lands image result depth frame) {isCtor : Bool}
    (areSafe : ∀ level ∈ levels, level.Safe image) :
    (follow image limit frame isCtor flow levels room store).Safe image := by
  obtain ⟨sound, leads⟩ := lands
  cases flow with
  | next => exact ⟨⟨result, depth, sound, leads⟩, areSafe⟩
  | ret value => exact ⟨trivial, areSafe⟩
  | tailCall call =>
      unfold follow
      dsimp only
      split
      · refine enter_safe leads fun level isLevel => ?_
        rcases List.mem_cons.mp isLevel with rfl | early
        · trivial
        · exact areSafe level early
      · exact ⟨leads, areSafe⟩
  | enter request onReturn =>
      obtain ⟨stands, hasReceiver⟩ := leads
      refine enter_safe hasReceiver fun level isLevel => ?_
      rcases List.mem_cons.mp isLevel with rfl | early
      · exact ⟨result, depth, sound, stands⟩
      · exact areSafe level early
  | resume exception position nextRegion => exact handle_safe sound areSafe

/-- A step from a safe configuration leads to a safe one, or to an end for another reason than
a fault of control. -/
theorem step_safe (balanced : image.Balanced) {config : Config} (safe : config.Safe image) :
    (step image limit config).Safe image := by
  obtain ⟨focus, levels, room, store⟩ := config
  obtain ⟨isSafe, areSafe⟩ := safe
  cases focus with
  | execute frame isCtor =>
      obtain ⟨result, depth, sound, stands⟩ := isSafe
      obtain ⟨instr, isInstr⟩ : ∃ instr, frame.body.instrs[frame.position]? = some instr :=
        ⟨_, Array.getElem?_eq_getElem stands.1⟩
      have next : Frame.Sound image result depth { frame with position := frame.position + 1 } :=
        ⟨sound.balanced, sound.pending⟩
      have ends := FrameStep.execute_lands next isInstr stands.2.symm rfl store
      simp only [step, isInstr]
      split at ends
      · rename_i outcome after ran
        obtain ⟨flow, changed⟩ := outcome
        rw [ran]
        exact follow_safe ends areSafe
      · rename_i trap after ran
        rw [ran]
        cases trap with
        | throw exception => exact handle_safe next areSafe
        | fatal error => exact ends
  | begin request =>
      have ends := begin_ends balanced isSafe store
      simp only [step]
      split at ends
      · rename_i focus after ran
        rw [ran]
        exact ⟨ends, areSafe⟩
      · rename_i trap after ran
        rw [ran]
        cases trap with
        | throw exception => exact ⟨trivial, areSafe⟩
        | fatal error => exact ends
  | deliver value => 
      cases levels with
      | nil => trivial
      | cons level levels =>
        have rest : ∀ level ∈ levels, level.Safe image := (List.forall_mem_cons.mp areSafe).2
        cases level with
        | passing => exact ⟨trivial, rest⟩
        | caller frame isCtor onReturn =>
          obtain ⟨result, depth, sound, stands⟩ := areSafe _ List.mem_cons_self
          refine ⟨⟨result, depth, ⟨sound.balanced, sound.pending⟩, ?_⟩, rest⟩
          cases onReturn <;> exact stands
  | raise exception =>
      cases levels with
      | nil => trivial
      | cons level levels =>
        have rest : ∀ level ∈ levels, level.Safe image := (List.forall_mem_cons.mp areSafe).2
        cases level with
        | passing => exact ⟨trivial, rest⟩
        | caller frame isCtor onReturn =>
          obtain ⟨result, depth, sound, stands⟩ := areSafe _ List.mem_cons_self
          exact handle_safe sound rest

/-- A run from a safe configuration does not end with a fault of control. -/
theorem run_safe (balanced : image.Balanced) {fuel : Nat} {config : Config}
    (safe : config.Safe image) {outcome : Outcome} {after : Store}
    (ran : run image limit fuel config = some (outcome, after)) : outcome.Safe := by
  induction fuel generalizing config with
  | zero => cases ran
  | succ fuel ih =>
      have leads : (step image limit config).Safe image := step_safe balanced safe
      rw [run] at ran
      split at ran
      · rename_i next isNext
        rw [isNext] at leads
        exact ih leads ran
      · rename_i final last isFinal
        rw [isFinal] at leads
        cases ran
        exact leads

/-! ## Calls from outside -/

/-- The answer to a call from outside is no fault of control. -/
def Reply.Safe (reply : Reply) : Prop :=
  ∀ error after, reply = some (.error error, after) → ¬ error.OfControl

variable {machine : Machine} {fuel : Nat}

theorem refuse_safe {error : RunError} (benign : ¬ error.OfControl) :
    Reply.Safe (machine.refuse error) := by
  rintro _ _ ⟨⟩
  exact benign

theorem perform_safe (balanced : machine.image.Balanced)
    (hasReceiver : request.HasReceiver machine.image) :
    Reply.Safe (machine.perform fuel request store) := by
  have ends : ∀ outcome after, (match enter machine.maxDepth request [] machine.maxDepth store with
      | .running config => run machine.image machine.maxDepth fuel config
      | .finished outcome store => some (outcome, store)) = some (outcome, after) →
      outcome.Safe := by
    intro outcome after ended
    have enters : (enter machine.maxDepth request [] machine.maxDepth store).Safe machine.image :=
      enter_safe hasReceiver nofun
    split at ended
    · rename_i config isConfig
      rw [isConfig] at enters
      exact run_safe balanced enters ended
    · rename_i last store isLast
      rw [isLast] at enters
      cases ended
      exact enters
  intro error after replied
  obtain ⟨⟨outcome, store⟩, ended, answers⟩ := Option.map_eq_some_iff.mp replied
  have safe := ends outcome store ended
  cases outcome with
  | value value => cases answers
  | exception exception =>
      cases answers
      exact id
  | error error =>
      cases answers
      exact safe

/-- Members that a host does not find are no fault of control. -/
theorem completeType_safe {name : Name} {error : RunError}
    (failed : machine.completeType name = .error error) : ¬ error.OfControl := by
  unfold completeType at failed
  split at failed
  · cases failed
    exact id
  · split at failed
    · cases failed
      exact id
    · split at failed
      · cases failed
      · cases failed
        exact id

variable (balanced : machine.image.Balanced)
include balanced

theorem invokeStatic_safe {typeName method : Name} :
    Reply.Safe (machine.invokeStatic fuel typeName method args) := by
  unfold invokeStatic
  split
  · rename_i error failed
    refine refuse_safe ?_
    rcases bind_eq_error.mp failed with failed | ⟨found, -, failed⟩
    · exact completeType_safe failed
    · dsimp only at failed
      split at failed
      · cases failed
      · cases failed
        exact id
  · exact perform_safe balanced nofun

theorem construct_safe {typeName : Name} :
    Reply.Safe (machine.construct fuel typeName args) := by
  unfold construct
  split
  · rename_i error failed
    refine refuse_safe ?_
    rcases bind_eq_error.mp failed with failed | ⟨found, -, failed⟩
    · exact completeType_safe failed
    · dsimp only at failed
      split at failed
      · cases failed
      · cases failed
        exact id
  · rename_i type ctor isFound
    have performs : ∀ args store, Reply.Safe (machine.perform fuel (.ctor ctor args) store) :=
      fun _ _ => perform_safe balanced trivial
    have allocates :=
      (Exec.allocate_benign : (Exec.allocate machine.image type).Benign) machine.store
    split
    · intro error after replied
      obtain ⟨⟨answer, last⟩, ended, answers⟩ := Option.map_eq_some_iff.mp replied
      cases answer with
      | ok value => cases answers
      | error failure =>
          cases answers
          exact performs _ _ _ _ ended
    · rename_i error after ran
      rw [ran] at allocates
      rintro _ _ ⟨⟩
      exact allocates
    · rintro _ _ ⟨⟩
      exact id

theorem invokeInstance_safe {receiver : Value} {method : Name} :
    Reply.Safe (machine.invokeInstance fuel receiver method args) := by
  unfold invokeInstance
  split
  · rename_i error failed
    refine refuse_safe ?_
    unfold findInstance at failed
    dsimp only at failed
    split at failed
    · cases failed
    · cases failed
      exact id
  · exact perform_safe balanced fun _ _ _ _ => nofun

theorem invokeDelegate_safe {delegate : Value} :
    Reply.Safe (machine.invokeDelegate fuel delegate args) :=
  invokeInstance_safe balanced

end Machine

/-! ## Compiled modules -/

/-- The library has no code, so an image with balanced code beyond it has only balanced code. -/
theorem Image.BalancedBeyond.balanced {image : Image} (unchanged : Image.library.Unchanged image)
    (beyond : Image.library.BalancedBeyond image) : image.Balanced := by
  constructor
  · intro handle info body isInfo isCode
    have builtIn : ∀ entry ∈ Image.library.methods, entry.implementation.body? = none := by
      decide +kernel
    cases before : Image.library.method? handle with
    | none => exact beyond.methods handle info body before isInfo isCode
    | some entry =>
        obtain ⟨_, same, rfl⟩ := unchanged.methods _ entry before
        cases same.symm.trans isInfo
        have isBuiltIn := builtIn _ (Array.mem_of_getElem? before)
        rw [isCode] at isBuiltIn
        cases isBuiltIn
  · intro handle info body isInfo isCode
    have builtIn : ∀ entry ∈ Image.library.ctors, entry.implementation.body? = none := by
      decide +kernel
    cases before : Image.library.ctor? handle with
    | none => exact beyond.ctors handle info body before isInfo isCode
    | some entry =>
        obtain ⟨_, same, rfl⟩ := unchanged.ctors _ entry before
        cases same.symm.trans isInfo
        have isBuiltIn := builtIn _ (Array.mem_of_getElem? before)
        rw [isCode] at isBuiltIn
        cases isBuiltIn

/-- No call on a compiled module ends with a fault of control: whatever the state of the machine
and whatever the arguments, the stack never runs out of values, control never leaves a body, no
branch goes to a label without a position, and every virtual call has a receiver. -/
theorem Module.calls_safe {module : Module} {after : Image} {program : Program}
    {options : CompileOptions} {compiled : CompiledModule} (returned : module.VoidOnlyReturned)
    (checked : module.check .library = .ok program) (binds : program.BindsValues)
    (done : module.compile options .library = (.ok compiled, after))
    (maxDepth : Nat) (store : Store) (fuel : Nat) (name member : Name) (receiver : Value)
    (args : List Value) :
    Machine.Reply.Safe (Machine.construct ⟨after, maxDepth, store⟩ fuel name args) ∧
    Machine.Reply.Safe (Machine.invokeStatic ⟨after, maxDepth, store⟩ fuel name member args) ∧
    Machine.Reply.Safe (Machine.invokeInstance ⟨after, maxDepth, store⟩ fuel receiver member args) ∧
    Machine.Reply.Safe (Machine.invokeDelegate ⟨after, maxDepth, store⟩ fuel receiver args) := by
  obtain ⟨unchanged, beyond, -⟩ := Module.compile_balanced .library returned checked binds done
  have balanced : after.Balanced := beyond.balanced unchanged
  exact ⟨Machine.construct_safe balanced, Machine.invokeStatic_safe balanced,
    Machine.invokeInstance_safe balanced, Machine.invokeDelegate_safe balanced⟩

theorem Module.counter_calls_safe :
    Module.counter.VoidOnlyReturned ∧ ∃ program compiled after,
      Module.counter.check .library = .ok program ∧ program.BindsValues ∧
      Module.counter.compile {} .library = (.ok compiled, after) ∧
      Machine.Reply.Safe
        (Machine.invokeStatic (.start after 5) 100 "Counter" "next" [.int32 41]) := by
  have returned : Module.counter.VoidOnlyReturned := by decide +kernel
  obtain ⟨program, checked⟩ := exists_ok_of_isOk Module.counter_isOk
  have binds : (Module.counter.check .library).toOption.all
      (fun program => decide program.BindsValues) = true := by decide +kernel
  rw [checked] at binds
  obtain ⟨compiled, done⟩ := Module.counter_compiles
  exact ⟨returned, program, compiled, _, checked, of_decide_eq_true binds, done,
    (Module.calls_safe returned checked (of_decide_eq_true binds) done 5
      (.initial (Module.counter.compile {} .library).2) 100 "Counter" "next" .null
      [.int32 41]).2.1⟩

/-- A function reads a variable of a group before the variable gets its value. -/
def Module.early : Module where
  classes := [
    { name := "Early"
      attrs := .publicClass
      base := none
      interfaces := []
      fields := []
      methods := [
        { name := "sum"
          attrs := .publicStatic
          params := []
          ret := .prim .int32
          body := some (.letRec
            [(⟨"x", .prim .int32⟩, .binary (.op .add)
                (.invoke (.lambda 0 [] (.var "y")) []) (.literal (.int32 1))),
              (⟨"y", .prim .int32⟩, .literal (.int32 2))]
            (.var "x")) }]
      ctors := []
      properties := [] }]

/-- A variable that lives in a cell has no value before it gets one, while one that does not is
zero: here a null is taken for a number. -/
theorem Module.early_cell_is_null :
    ∃ compiled after machine, Module.early.compile {} .library = (.ok compiled, after) ∧
      Machine.invokeStatic (.start after 5) 100 "Early" "sum" [] =
        some (.error (.invalidProgram (.operands "add" .null (.int32 1))), machine) := by
  have evaluates : (Module.early.compile {} .library).1.isOk = true ∧
      ((Machine.invokeStatic (.start (Module.early.compile {} .library).2 5) 100 "Early" "sum"
        []).any fun reply => match reply.1 with
          | .ok _ => false
          | .error error =>
              error == .invalidProgram (.operands "add" .null (.int32 1))) = true := by
    decide +kernel
  obtain ⟨compiles, fails⟩ := evaluates
  obtain ⟨compiled, isCompiled⟩ := exists_ok_of_isOk compiles
  obtain ⟨⟨answer, machine⟩, replied, isError⟩ := (Option.any_eq_true _ _).mp fails
  cases answer with
  | ok value => cases isError
  | error error =>
      rw [beq_iff_eq.mp isError] at replied
      exact ⟨compiled, _, machine, Prod.ext isCompiled rfl, replied⟩

end ClassForge
