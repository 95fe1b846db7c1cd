import ClassForge.Proofs.Image.Transactions
import ClassForge.Proofs.Machine.EntryCalls
import ClassForge.Proofs.Machine.IntactHeaps

/-!
# The history of a machine

A machine is at rest between calls, and in some configuration while a call runs.  A host opens
calls, takes transitions until they end, makes arrays and takes the console text.  Over all of
this the heap stays intact: every value refers to an object that exists, instances have the fields
of their types, arrays have whole elements, and objects are neither removed nor changed in kind,
except that the constructor of a function makes one of an instance.
-/

namespace ClassForge

/-- What a machine is at. -/
inductive Moment where
  | rest (store : Store)
  | busy (config : Config)

/-- The values in a configuration that are not in its store: in locals, in arguments, on stacks
and on their way. -/
def Config.values (config : Config) : List Value :=
  config.frames.flatMap (fun frame => frame.locals.toList) ++
    (config.focus.temps ++ config.levels.flatMap Level.temps)

namespace Moment

/-- The store at a moment. -/
def store : Moment → Store
  | rest store => store
  | busy config => config.store

/-- The objects at a moment. -/
def heap (moment : Moment) : Heap :=
  moment.store.heap

/-- All values that are there. -/
def values : Moment → List Value
  | rest store => store.values
  | busy config => config.store.values ++ config.values

/-- Where a transition leads. -/
def ofProgress : Progress → Moment
  | .running config => .busy config
  | .finished _ store => .rest store

/-- The constructor of a function begins. -/
def ConstructsFunction (image : Image) : Moment → Prop
  | rest _ => False
  | busy config => ∃ handle args info, config.focus = .begin (.ctor handle args) ∧
      image.ctor? handle = some info ∧ info.implementation = .native .delegateCtor

end Moment

/-- A host passes values that refer to objects which exist. -/
def EntryCall.Covered (call : EntryCall) (heap : Heap) : Prop :=
  ∀ value ∈ call.args ++ call.receiver?.toList, heap.Covers value

namespace Machine

/-- What can happen next to a machine. -/
inductive Happens (image : Image) (limit : Nat) : Moment → Moment → Prop where
  | opens {store later : Store} {call : EntryCall} {request : Request} :
      call.Covered store.heap →
      call.opening? ⟨image, limit, store⟩ = some (request, later) →
      Happens image limit (.rest store) (.ofProgress (enter limit request [] limit later))
  | steps (config : Config) :
      Happens image limit (.busy config) (.ofProgress (step image limit config))
  | makesArray (store : Store) (prim : Prim) (values : List Value) :
      Happens image limit (.rest store) (.rest (newArray ⟨image, limit, store⟩ prim values).2.store)
  | takesOutput (store : Store) :
      Happens image limit (.rest store) (.rest (takeOutput ⟨image, limit, store⟩).2.store)

/-- What happens over any time. -/
def Leads (image : Image) (limit : Nat) : Moment → Moment → Prop :=
  Relation.ReflTransGen (Happens image limit)

/-! ## Whole calls -/

section Calls

variable {image : Image} {limit : Nat} {machine later : Machine} {store last : Store}
variable {fuel : Nat} {answer : Except RunError Value}
variable {handle : TypeHandle} {call : EntryCall}

theorem run_leads {config : Config} {outcome : Outcome}
    (ran : run image limit fuel config = some (outcome, last)) :
    Leads image limit (.busy config) (.rest last) := by
  induction fuel generalizing config with
  | zero => cases ran
  | succ fuel ih =>
      have first : Happens image limit (.busy config) _ := .steps config
      rw [run] at ran
      split at ran
      · rename_i next isNext
        rw [isNext] at first
        exact .head first (ih ran)
      · rename_i final final_store isFinal
        rw [isFinal] at first
        cases ran
        exact .single first

theorem allocInstance_error {trap : Trap}
    (failed : (Exec.allocInstance image handle).run store = .error trap last) : last = store := by
  unfold Exec.allocInstance at failed
  rw [EStateM.run_bind] at failed
  cases isInfo : image.type handle with
  | error error =>
      rw [isInfo] at failed
      cases failed
      rfl
  | ok info =>
      rw [isInfo] at failed
      change EStateM.run (if info.isComplete = true then _ else _) store = _ at failed
      split at failed
      · cases failed
      · cases failed
        rfl

/-- An object is allocated, or nothing has happened. -/
theorem allocate_error {trap : Trap}
    (failed : (Exec.allocate image handle).run store = .error trap last) : last = store := by
  unfold Exec.allocate at failed
  rw [EStateM.run_bind] at failed
  split at failed
  · cases failed
  · rename_i isError
    cases failed
    exact allocInstance_error isError

/-- A request that a call has opened is carried out. -/
theorem perform_leads {request : Request} {fuel : Nat} {answer : Except RunError Value}
    (covered : call.Covered machine.store.heap)
    (isOpening : call.opening? machine = some (request, store))
    (replied : machine.perform fuel request store = some (answer, later)) :
    Leads machine.image machine.maxDepth (.rest machine.store) (.rest later.store) := by
  obtain ⟨⟨outcome, last⟩, ended, answers⟩ := Option.map_eq_some_iff.mp replied
  cases answers
  have opens : Happens machine.image machine.maxDepth (.rest machine.store) _ :=
    .opens covered isOpening
  split at ended
  · rename_i config isConfig
    rw [isConfig] at opens
    exact .head opens (run_leads ended)
  · rename_i final finalStore isFinal
    rw [isFinal] at opens
    cases ended
    exact .single opens

/-- A call of an instance method. -/
theorem instanceCall_leads {receiver : Value} {method : Name}
    {args : List Value} (covered : call.Covered machine.store.heap)
    (isOpening : call.opening? machine =
      (EntryCall.instanceRequest? machine receiver method args).map (·, machine.store))
    (replied : machine.invokeInstance fuel receiver method args = some (answer, later)) :
    Leads machine.image machine.maxDepth (.rest machine.store) (.rest later.store) := by
  unfold Machine.invokeInstance at replied
  unfold EntryCall.instanceRequest? at isOpening
  split at replied
  · cases replied
    exact .refl
  · rename_i found isFound
    rw [isFound] at isOpening
    exact perform_leads covered isOpening replied

/-- A call that has an answer is a way from rest to rest. -/
theorem call_leads (covered : call.Covered machine.store.heap)
    (replied : call.perform machine fuel = some (answer, later)) :
    Leads machine.image machine.maxDepth (.rest machine.store) (.rest later.store) := by
  have leads {request : Request} {store : Store} {last : Machine}
      {answer : Except RunError Value} :=
    @perform_leads machine last store call request fuel answer covered
  cases call with
  | construct typeName args =>
      unfold EntryCall.perform Machine.construct at replied
      unfold EntryCall.opening? at leads
      dsimp only at replied leads
      split at replied
      · cases replied
        exact .refl
      · rename_i type ctor isFound
        rw [isFound] at leads
        dsimp only at leads
        split at replied
        · rename_i object store isAllocated
          rw [isAllocated] at leads
          obtain ⟨⟨_, last⟩, ended, same⟩ := Option.map_eq_some_iff.mp replied
          cases same
          exact leads rfl ended
        · rename_i failed
          cases replied
          rw [allocate_error failed]
          exact .refl
        · rename_i failed
          cases replied
          rw [allocate_error failed]
          exact .refl
  | invokeStatic typeName method args =>
      unfold EntryCall.perform Machine.invokeStatic at replied
      unfold EntryCall.opening? at leads
      dsimp only at replied leads
      split at replied
      · cases replied
        exact .refl
      · rename_i found isFound
        rw [isFound] at leads
        exact leads rfl replied
  | invokeInstance receiver method args => exact instanceCall_leads covered rfl replied
  | invokeDelegate delegate args => exact instanceCall_leads covered rfl replied

end Calls

end Machine

/-! ## Built-in members -/

namespace Image

variable {image extended : Image}

/-- Requests add no built-in methods. -/
theorem Request.native {handle : MethodHandle} {info : MethodInfo} {native : Native}
    (request : Request image extended) (found : extended.method? handle = some info)
    (isNative : info.implementation = .native native) :
    ∃ earlier, image.method? handle = some earlier ∧ earlier.implementation = .native native := by
  cases request with
  | declareType done =>
      obtain ⟨_, _, -, -, -, -, rfl⟩ := declareType_shape done
      exact ⟨info, found, isNative⟩
  | declareField done =>
      obtain ⟨_, -, -, -, -, rfl⟩ := declareField_shape done
      exact ⟨info, found, isNative⟩
  | declareMethod done =>
      obtain ⟨_, -, -, -, -, rfl⟩ := declareMethod_shape done
      refine ⟨info, getElem?_of_push found ?_, isNative⟩
      rintro rfl
      cases isNative
  | declareCtor done =>
      obtain ⟨_, -, -, -, -, rfl⟩ := declareCtor_shape done
      exact ⟨info, found, isNative⟩
  | declareProperty done =>
      obtain ⟨_, -, -, -, -, rfl⟩ := declareProperty_shape done
      exact ⟨info, found, isNative⟩
  | defineMethod done =>
      obtain ⟨_, _, -, -, -, rfl⟩ := defineMethod_shape done
      unfold method? at found
      rw [Array.getElem?_modify] at found
      split at found
      · obtain ⟨_, -, rfl⟩ := Option.map_eq_some_iff.mp found
        cases isNative
      · exact ⟨info, found, isNative⟩
  | defineCtor done =>
      obtain ⟨_, _, -, -, -, rfl⟩ := defineCtor_shape done
      exact ⟨info, found, isNative⟩
  | sealType done =>
      obtain ⟨_, _, _, -, -, -, -, -, -, rfl⟩ := sealType_shape done
      exact ⟨info, found, isNative⟩

/-- No method of the library makes a function. -/
theorem library_methods_make_no_function :
    ∀ info ∈ library.methods, info.implementation ≠ .native .delegateCtor := by
  decide +kernel

/-- So no method does: functions are made by constructors. -/
theorem Built.method_makes_no_function (built : image.Built) {handle : MethodHandle}
    {info : MethodInfo} (found : image.method? handle = some info) :
    info.implementation ≠ .native .delegateCtor := by
  have requests := built_iff_requests.mp built
  induction requests generalizing info with
  | refl => exact library_methods_make_no_function info (Array.mem_of_getElem? found)
  | tail earlier request ih =>
      intro isNative
      obtain ⟨before, isBefore, isNative⟩ := request.native found isNative
      exact ih (Requests.built earlier .library) isBefore isNative

end Image

/-! ## Arrays from outside -/

namespace Memory

theorem length_toBytes (count word : Nat) : (toBytes count word).length = count := by
  induction count generalizing word with
  | zero => rfl
  | succ count ih => rw [toBytes, List.length_cons, ih]

end Memory

/-- A host gives the elements of an array as whole words. -/
theorem Machine.length_elementBytes {prim : Prim} {values : List Value} {bytes : List UInt8}
    (isOk : elementBytes prim values = .ok bytes) :
    ∃ count, bytes.length = count * prim.size := by
  obtain ⟨words, -, ended⟩ := bind_eq_ok.mp isOk
  cases ended
  refine ⟨words.length, ?_⟩
  simp [List.length_flatMap, Memory.length_toBytes]

/-! ## Intact moments -/

namespace Moment

variable {image : Image} {limit : Nat} {base : Heap} {makes : Prop} {before after : Moment}
variable {receivers : List Bool}

/-- The heap is intact, whatever the machine is at. -/
def Intact (image : Image) (base : Heap) (makes : Prop) : Moment → Prop
  | rest store => Intact.Held image base makes store []
  | busy config => ∃ receivers, (intactDiscipline image base makes).Fits config receivers

theorem intact_ofProgress {progress : Progress}
    (leads : (intactDiscipline image base makes).Leads receivers progress) :
    (ofProgress progress).Intact image base makes := by
  cases progress with
  | running next => exact ⟨_, leads⟩
  | finished outcome store => exact leads

theorem Intact.hold_all {store : Store} {args : List Value}
    (intact : (rest store).Intact image base makes)
    (covered : ∀ value ∈ args, store.heap.Covers value) :
    ClassForge.Intact.Held image base makes store args := by
  induction args with
  | nil => exact intact
  | cons value args ih =>
      obtain ⟨covers, coveredRest⟩ := List.forall_mem_cons.mp covered
      exact (ih coveredRest).hold covers

theorem Intact.next (built : image.Built) (happens : Machine.Happens image limit before after)
    (intact : before.Intact image base makes) (allowed : before.ConstructsFunction image → makes) :
    after.Intact image base makes := by
  cases happens with
  | @opens store later call request covered isOpening =>
      have offers : @Discipline.Offers ⟨image, limit, store⟩ (intactDiscipline image base makes)
          call := by
        refine ⟨intact.hold_all fun value member => covered value (List.mem_append_left _ member), ?_⟩
        intro receiver isReceiver _
        refine covered receiver (List.mem_append_right _ ?_)
        rw [isReceiver]
        exact List.mem_singleton_self receiver
      exact intact_ofProgress (Discipline.enter_leads (Discipline.opening_admits offers isOpening))
  | steps config =>
      obtain ⟨receivers, fits⟩ := intact
      have fitsNext := Discipline.step_fits limit fits fun request isBegin isMaking => by
        refine allowed ?_
        cases request with
        | method call =>
            obtain ⟨handle, info, found, isNative⟩ := isMaking
            exact (built.method_makes_no_function found isNative).elim
        | ctor handle args =>
            obtain ⟨info, found, isNative⟩ := isMaking
            exact ⟨handle, args, info, isBegin, found, isNative⟩
      revert fitsNext
      cases Machine.step image limit config with
      | running next => exact fun fitsNext => ⟨_, fitsNext⟩
      | finished outcome store => exact id
  | makesArray store prim values =>
      unfold Machine.newArray
      cases isBytes : Machine.elementBytes prim values with
      | error error => exact intact
      | ok bytes =>
          obtain ⟨count, isSize⟩ := Machine.length_elementBytes isBytes
          have fits : (ArrayData.bytes prim bytes.toArray).Fits (.prim prim) :=
            ⟨rfl, count, isSize⟩
          have made := @Discipline.allocArray _ (intactDiscipline image base makes) store [] []
            (.prim prim) (.bytes prim bytes.toArray) intact fits
          exact Intact.Held.weaken made List.nil_subperm
  | takesOutput store => exact ⟨intact.lasts, intact.covers, intact.formed⟩

/-- What happens over any time keeps the heap intact; functions may be made. -/
theorem Intact.later (built : image.Built) (leads : Machine.Leads image limit before after)
    (intact : before.Intact image base True) : after.Intact image base True := by
  induction leads with
  | refl => exact intact
  | tail _ happens ih => exact ih.next built happens fun _ => trivial

/-- Objects last from now on. -/
theorem Intact.rebase (intact : before.Intact image base True) (makes : Prop) :
    before.Intact image before.heap makes := by
  cases before with
  | rest store => exact ⟨.refl _, intact.covers, intact.formed⟩
  | busy config =>
      obtain ⟨receivers, count, held, known⟩ := intact
      exact ⟨receivers, count, ⟨.refl _, held.covers, held.formed⟩, known⟩

theorem Intact.held (intact : before.Intact image base makes) :
    ClassForge.Intact.Held image base makes before.store [] := by
  cases before with
  | rest store => exact intact
  | busy config =>
      obtain ⟨receivers, fits⟩ := intact
      exact ClassForge.Intact.Held.weaken fits.held List.nil_subperm

theorem mem_storages {frames : List Frame} {frame : Frame} {value : Value}
    (count : receivers.length = frames.length) (isFrame : frame ∈ frames)
    (isLocal : value ∈ frame.locals.toList) : value ∈ Frame.storages frames receivers := by
  rw [← List.map_fst_zip (Nat.le_of_eq count.symm)] at isFrame
  obtain ⟨⟨_, hasReceiver⟩, isPaired, rfl⟩ := List.mem_map.mp isFrame
  exact List.mem_flatMap.mpr ⟨_, isPaired, List.mem_append_left _ isLocal⟩

/-- All values that are there refer to objects that exist. -/
theorem Intact.covers (intact : before.Intact image base makes) {value : Value}
    (member : value ∈ before.values) : before.heap.Covers value := by
  cases before with
  | rest store => exact intact.held.covers value (List.mem_append_left _ member)
  | busy config =>
      obtain ⟨receivers, fits⟩ := intact
      rcases List.mem_append.mp member with isStored | isElsewhere
      · exact ClassForge.Intact.Held.covers fits.held value (List.mem_append_left _ isStored)
      · rcases List.mem_append.mp isElsewhere with isLocal | isTemp
        · obtain ⟨frame, isFrame, isLocal⟩ := List.mem_flatMap.mp isLocal
          refine ClassForge.Intact.Held.covers fits.held value (List.mem_append_right _ ?_)
          exact List.mem_append_right _ (mem_storages fits.count isFrame isLocal)
        · exact fits.known value isTemp

/-- A machine that has not run anything. -/
theorem intact_start (image : Image) : (rest (.initial image)).Intact image .empty True := by
  refine @Discipline.initial_held image (intactDiscipline image .empty True) fun count => ?_
  have values : ∀ value ∈ Store.values
      { heap := Heap.empty, statics := Array.replicate count Value.null, output := "" } ++ [],
      value = Value.null := by
    simp [Store.values, Heap.values, Heap.empty]
  refine ⟨.refl _, fun value member => ?_, fun ref object found => ?_⟩
  · rw [values value member]
    exact Heap.covers_plain rfl
  · simp [Heap.get?, Heap.empty] at found

end Moment

/-- The heap of a machine is intact at every moment, and objects are never removed or replaced: an
object keeps its kind, its type and its size, and only the constructor of a function makes an
instance a function of the same type. -/
theorem Machine.heap_well_formed {image : Image} (built : image.Built) {limit : Nat}
    {earlier later : Moment} (reached : Leads image limit (.rest (.initial image)) earlier)
    (leads : Leads image limit earlier later) :
    (∀ value ∈ later.values, ∀ ref, value.target? = some ref →
      ∃ object, later.heap.get? ref = some object) ∧
    (∀ ref type fields, later.heap.get? ref = some (.instance type fields) →
      ∃ info, image.type? type = some info ∧ info.isComplete = true ∧
        fields.size = info.instanceSlots) ∧
    (∀ ref element prim content pins,
      later.heap.get? ref = some (.array element (.bytes prim content) pins) →
      element.prim? = some prim ∧
        content.size = (ArrayData.bytes prim content).size * prim.size) ∧
    earlier.heap.Grows later.heap ∧
    ∀ next, Happens image limit later next →
      later.ConstructsFunction image ∨
        ∀ ref type fields, later.heap.get? ref = some (.instance type fields) →
          ∃ fields, next.heap.get? ref = some (.instance type fields) := by
  have intactThen := (Moment.intact_start image).later built reached
  have intactSince := (intactThen.rebase True).later built leads
  refine ⟨fun value member => intactSince.covers member, fun ref type fields found => ?_,
    fun ref element prim content pins found => ?_, intactSince.held.lasts.grows,
    fun next happens => or_iff_not_imp_left.mpr fun other ref type fields found => ?_⟩
  · exact intactSince.held.formed ref _ found
  · obtain ⟨isPrim, count, isSize⟩ := intactSince.held.formed ref _ found
    exact ⟨isPrim, (Nat.div_mul_cancel ⟨count, isSize.trans (Nat.mul_comm _ _)⟩).symm⟩
  · have intactNext := (intactSince.rebase False).next built happens other
    obtain ⟨after, isAfter, grows, wasFunction⟩ := intactNext.held.lasts ref.index _ found
    cases grows with
    | refl => exact ⟨fields, isAfter⟩
    | fields => exact ⟨_, isAfter⟩
    | delegate =>
        rcases wasFunction rfl with ⟨⟨⟩⟩ | ⟨⟨⟩⟩

/-- A class with a method that makes a function of itself. -/
def functional : List Image.Command :=
  [.declareType "Probe" .publicClass none [],
    .declareMethod ⟨45⟩ "make" .publicStatic [] .object,
    .defineMethod ⟨56⟩
      { instrs := #[.const .null, .loadFunction ⟨56⟩, .newObject ⟨17⟩, .ret]
        labels := #[]
        locals := #[]
        regions := [] },
    .sealType ⟨45⟩]

/-- The machine in which it runs. -/
def functionalMachine : Machine :=
  .start (functional.foldl Image.after .library) 10

/-- The function is there after the call, and refers to nothing that is not. -/
theorem Machine.heap_well_formed_function :
    ∃ later, Leads (functional.foldl Image.after .library) 10
        (.rest (.initial (functional.foldl Image.after .library))) later ∧
      later.heap.get? ⟨0⟩ = some (.delegate ⟨27⟩ .null ⟨56⟩) ∧
      ∀ value ∈ later.values, ∀ ref, value.target? = some ref →
        ∃ object, later.heap.get? ref = some object := by
  have evaluates : ((EntryCall.invokeStatic "Probe" "make" []).perform functionalMachine 10).any
      (fun reply => reply.2.store.heap.get? ⟨0⟩ = some (.delegate ⟨27⟩ .null ⟨56⟩)) = true := by
    decide +kernel
  obtain ⟨⟨answer, later⟩, replied, isFunction⟩ := (Option.any_eq_true _ _).mp evaluates
  have covered : (EntryCall.invokeStatic "Probe" "make" []).Covered
      functionalMachine.store.heap := nofun
  have leads := call_leads covered replied
  exact ⟨.rest later.store, leads, of_decide_eq_true isFunction,
    (heap_well_formed (Image.built_foldl_after functional) .refl leads).1⟩

end ClassForge
