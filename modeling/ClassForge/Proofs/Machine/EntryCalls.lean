import ClassForge.Machine.Host
import ClassForge.Proofs.Machine.DisciplinedRuns

/-!
# Entry calls

A host has a machine make an object, or call a method or a function.  Such a call runs one
request, unless it is refused before.  A discipline that holds of a machine at rest and of what the
host passes holds in every configuration that the run goes through, and of the machine after the
call, however the call ends.
-/

namespace ClassForge

/-- A call from outside. -/
inductive EntryCall where
  | construct (typeName : Name) (args : List Value)
  | invokeStatic (typeName method : Name) (args : List Value)
  | invokeInstance (receiver : Value) (method : Name) (args : List Value)
  | invokeDelegate (delegate : Value) (args : List Value)

namespace EntryCall

/-- Carry out a call. -/
def perform (machine : Machine) (fuel : Nat) : EntryCall → Machine.Reply
  | construct typeName args => machine.construct fuel typeName args
  | invokeStatic typeName method args => machine.invokeStatic fuel typeName method args
  | invokeInstance receiver method args => machine.invokeInstance fuel receiver method args
  | invokeDelegate delegate args => machine.invokeDelegate fuel delegate args

/-- The values that a host passes as arguments. -/
def args : EntryCall → List Value
  | construct _ args | invokeStatic _ _ args | invokeInstance _ _ args | invokeDelegate _ args =>
      args

/-- The object that a host calls a method of. -/
def receiver? : EntryCall → Option Value
  | construct _ _ | invokeStatic _ _ _ => none
  | invokeInstance receiver _ _ | invokeDelegate receiver _ => some receiver

/-- The request that a call of an instance method runs. -/
def instanceRequest? (machine : Machine) (receiver : Value) (method : Name) (args : List Value) :
    Option Request :=
  match machine.findInstance receiver method args with
  | .error _ => none
  | .ok method => some (.method { method, args := receiver :: args, isVirtual := true })

/-- The request that a call runs and the store that it begins with, unless it is refused. -/
def opening? (machine : Machine) : EntryCall → Option (Request × Store)
  | construct typeName args =>
      match machine.findCtor typeName args with
      | .error _ => none
      | .ok (type, ctor) =>
          match (Exec.allocate machine.image type).run machine.store with
          | .ok object store => some (.ctor ctor (object :: args), store)
          | .error _ _ => none
  | invokeStatic typeName method args =>
      match machine.findStatic typeName method args with
      | .error _ => none
      | .ok method => some (.method { method, args, isVirtual := false }, machine.store)
  | invokeInstance receiver method args =>
      (instanceRequest? machine receiver method args).map (·, machine.store)
  | invokeDelegate delegate args =>
      (instanceRequest? machine delegate "Invoke" args).map (·, machine.store)

/-- The configuration that a call is in after some transitions, with what is known of the frames
in it. -/
def visited? (machine : Machine) (call : EntryCall) (steps : Nat) : Option (Config × List Bool) := do
  let (request, store) ← call.opening? machine
  match Machine.enter machine.maxDepth request [] machine.maxDepth store with
  | .running start => start.afterSteps? machine.image machine.maxDepth steps []
  | .finished _ _ => none

/-- The configurations that a call goes through. -/
def Visits (machine : Machine) (call : EntryCall) (config : Config) (receivers : List Bool) :
    Prop :=
  ∃ steps, call.visited? machine steps = some (config, receivers)

theorem visits_iff {machine : Machine} {call : EntryCall} {config : Config}
    {receivers : List Bool} : call.Visits machine config receivers ↔
      ∃ request store start steps, call.opening? machine = some (request, store) ∧
        Machine.enter machine.maxDepth request [] machine.maxDepth store = .running start ∧
        start.afterSteps? machine.image machine.maxDepth steps [] = some (config, receivers) := by
  constructor
  · rintro ⟨steps, isVisited⟩
    obtain ⟨⟨request, store⟩, isOpening, goes⟩ := Option.bind_eq_some_iff.mp isVisited
    dsimp only at goes
    split at goes
    · rename_i start isStart
      exact ⟨request, store, start, steps, isOpening, isStart, goes⟩
    · cases goes
  · rintro ⟨request, store, start, steps, isOpening, isStart, goes⟩
    refine ⟨steps, Option.bind_eq_some_iff.mpr ⟨(request, store), isOpening, ?_⟩⟩
    dsimp only
    rwa [isStart]

end EntryCall

/-! ## Depth -/

/-- The number of levels that are open. -/
def Config.depth (config : Config) : Nat :=
  config.levels.length + 1

namespace Machine

variable {image : Image} {limit total room : Nat} {levels : List Level} {store : Store}
variable {isLast : Prop}

/-- A transition opens levels only where there is room, and gives the room back when it closes
them.  A run that does not end with an error ends on its last level. -/
def Accounts (total : Nat) (isLast : Prop) : Progress → Prop
  | .running next => next.depth + next.room = total
  | .finished outcome _ => isLast ∨ ∃ error, outcome = .error error

theorem enter_accounts {request : Request} (isTotal : levels.length + room = total) :
    Accounts total isLast (enter limit request levels room store) := by
  cases room with
  | zero => exact .inr ⟨_, rfl⟩
  | succ room =>
      subst isTotal
      exact Nat.add_right_comm levels.length 1 room

theorem handle_accounts {frame : Frame} {isCtor : Bool} {exception : Value}
    {position firstRegion : Nat} (isTotal : levels.length + 1 + room = total) :
    Accounts total isLast
      (handle image frame isCtor exception position firstRegion levels room store) := by
  unfold handle
  split
  · exact isTotal
  · exact isTotal
  · exact isTotal
  · exact .inr ⟨_, rfl⟩

theorem follow_accounts {frame : Frame} {isCtor : Bool} {flow : Flow}
    (isTotal : levels.length + 1 + room = total) :
    Accounts total isLast (follow image limit frame isCtor flow levels room store) := by
  cases flow with
  | next => exact isTotal
  | ret value => exact isTotal
  | tailCall call =>
      unfold follow
      dsimp only
      split
      · exact enter_accounts isTotal
      · exact isTotal
  | enter request onReturn => exact enter_accounts isTotal
  | resume exception position nextRegion => exact handle_accounts isTotal

theorem step_accounts (config : Config) :
    Accounts (config.depth + config.room) (config.depth = 1) (step image limit config) := by
  obtain ⟨focus, levels, room, store⟩ := config
  cases focus with
  | execute frame isCtor =>
      unfold step
      dsimp only
      split
      · exact .inr ⟨_, rfl⟩
      · split
        · exact follow_accounts rfl
        · exact handle_accounts rfl
        · exact .inr ⟨_, rfl⟩
  | begin request =>
      unfold step
      dsimp only
      split
      · exact rfl
      · exact rfl
      · exact .inr ⟨_, rfl⟩
  | deliver value =>
      cases levels with
      | nil => exact .inl rfl
      | cons level levels =>
          have reopened : levels.length + 1 + (room + 1) = levels.length + 1 + 1 + room := by omega
          cases level with
          | passing => exact reopened
          | caller frame isCtor onReturn => exact reopened
  | raise exception =>
      cases levels with
      | nil => exact .inl rfl
      | cons level levels =>
          have reopened : levels.length + 1 + (room + 1) = levels.length + 1 + 1 + room := by omega
          cases level with
          | passing => exact reopened
          | caller frame isCtor onReturn => exact handle_accounts reopened

theorem afterSteps?_depth {steps : Nat} {config last : Config} {receivers lastReceivers : List Bool}
    (isLast : config.afterSteps? image limit steps receivers = some (last, lastReceivers)) :
    last.depth + last.room = config.depth + config.room := by
  induction steps generalizing config receivers with
  | zero =>
      cases isLast
      rfl
  | succ steps ih =>
      have accounts : Accounts (config.depth + config.room) (config.depth = 1)
          (step image limit config) := step_accounts config
      rw [Config.afterSteps?] at isLast
      split at isLast
      · rename_i next isNext
        rw [isNext] at accounts
        exact (ih isLast).trans accounts
      · cases isLast

end Machine

namespace EntryCall

variable {machine : Machine} {call : EntryCall} {config : Config} {receivers : List Bool}

/-- The levels that are open take up all the room that there is not. -/
theorem Visits.depth (visits : call.Visits machine config receivers) :
    config.depth + config.room = machine.maxDepth := by
  obtain ⟨request, store, start, steps, -, isStart, goes⟩ := visits_iff.mp visits
  have accounts : Machine.Accounts machine.maxDepth False (.running start) :=
    isStart ▸ Machine.enter_accounts (Nat.zero_add _)
  exact (Machine.afterSteps?_depth goes).trans accounts

/-- A call only changes the store of a machine. -/
theorem perform_machine {fuel : Nat} {answer : Except RunError Value} {later : Machine}
    (replied : call.perform machine fuel = some (answer, later)) :
    later = { machine with store := later.store } := by
  have ofPerform {request : Request} {store : Store} {answer : Except RunError Value}
      {later : Machine} (replied : machine.perform fuel request store = some (answer, later)) :
      later = { machine with store := later.store } := by
    obtain ⟨_, -, same⟩ := Option.map_eq_some_iff.mp replied
    cases same
    rfl
  have ofInstance {receiver : Value} {method : Name} {args : List Value}
      (replied : machine.invokeInstance fuel receiver method args = some (answer, later)) :
      later = { machine with store := later.store } := by
    unfold Machine.invokeInstance at replied
    split at replied
    · cases replied
      rfl
    · exact ofPerform replied
  cases call with
  | construct typeName args =>
      unfold perform Machine.construct at replied
      dsimp only at replied
      split at replied
      · cases replied
        rfl
      · split at replied
        · obtain ⟨_, ended, same⟩ := Option.map_eq_some_iff.mp replied
          cases same
          exact ofPerform ended
        · cases replied
          rfl
        · cases replied
          rfl
  | invokeStatic typeName method args =>
      unfold perform Machine.invokeStatic at replied
      dsimp only at replied
      split at replied
      · cases replied
        rfl
      · exact ofPerform replied
  | invokeInstance receiver method args => exact ofInstance replied
  | invokeDelegate delegate args => exact ofInstance replied

end EntryCall

namespace Discipline

variable {machine : Machine} {rule : Discipline machine.image} {fuel : Nat} {store : Store}
variable {owned : List Value}
variable {request : Request} {answer : Except RunError Value}
variable {later : Machine} {call : EntryCall}

/-- A request can run when its arguments are held, but for a receiver, and known. -/
structure Admits (rule : Discipline machine.image) (request : Request) (store : Store) : Prop where
  held : rule.held store (request.storage machine.image) []
  known : ∀ value ∈ request.args, rule.known store.heap value

theorem enter_leads (admits : rule.Admits request store) :
    rule.Leads [] (Machine.enter machine.maxDepth request [] machine.maxDepth store) := by
  refine leads_enter leads_staying ?_ admits.known ⟨rfl, nofun⟩
  exact rule.weaken admits.held (List.Perm.of_eq (List.append_nil _)).subperm (.refl _)

/-- A request leaves the discipline behind when it ends. -/
theorem perform_held (makes : rule.makesFunctions) (admits : rule.Admits request store)
    (replied : machine.perform fuel request store = some (answer, later)) :
    rule.held later.store [] [] := by
  obtain ⟨⟨outcome, last⟩, ended, answers⟩ := Option.map_eq_some_iff.mp replied
  cases answers
  have leads := enter_leads admits
  split at ended
  · rename_i config isConfig
    rw [isConfig] at leads
    exact run_held makes leads ended
  · rename_i outcome store isLast
    rw [isLast] at leads
    cases ended
    exact leads

/-- A host passes values that can be held, to an object that can be there. -/
structure Offers (rule : Discipline machine.image) (call : EntryCall) : Prop where
  held : rule.held machine.store call.args []
  receiver : ∀ receiver, call.receiver? = some receiver →
    (Store.typeOf? machine.image machine.store.heap receiver).isSome →
    rule.known machine.store.heap receiver

/-- The call may make functions, too. -/
structure Accepts (rule : Discipline machine.image) (call : EntryCall) : Prop
    extends rule.Offers call where
  makes : rule.makesFunctions

theorem instanceRequest_admits {receiver : Value} {method : Name} {args : List Value}
    (held : rule.held machine.store args [])
    (known : (Store.typeOf? machine.image machine.store.heap receiver).isSome →
      rule.known machine.store.heap receiver)
    (isRequest : EntryCall.instanceRequest? machine receiver method args = some request) :
    rule.Admits request machine.store := by
  unfold EntryCall.instanceRequest? Machine.findInstance at isRequest
  dsimp only at isRequest
  split at isRequest
  · cases isRequest
  rename_i handle isFound
  cases isRequest
  split at isFound
  · rename_i found candidate isCandidate
    obtain rfl := Except.ok.inj isFound
    obtain ⟨type, isAncestor, isMethod⟩ :=
      List.mem_flatMap.mp (List.mem_of_find?_eq_some isCandidate)
    have isInstance : candidate.attrs.isStatic = false := by
      have fits := List.find?_some isCandidate
      simp only [Bool.and_eq_true, Bool.not_eq_true'] at fits
      exact fits.1.1
    have hasType : (Store.typeOf? machine.image machine.store.heap receiver).isSome := by
      split at isAncestor
      · rename_i handle isType
        rw [isType]
        rfl
      · cases isAncestor
    have passes : (Request.method ⟨found, receiver :: args, true⟩).passesReceiver machine.image =
        true := by
      simp only [Request.passesReceiver, (Image.mem_methodsOf.mp isMethod).2, Option.any_some,
        isInstance, Bool.not_false]
    constructor
    · rw [Request.storage, passes]
      exact held
    · exact List.forall_mem_cons.mpr ⟨known hasType, fun _ => known_owned held⟩
  · cases isFound

/-- The request of a call can run. -/
theorem opening_admits (offers : rule.Offers call)
    (isOpening : call.opening? machine = some (request, store)) : rule.Admits request store := by
  obtain ⟨held, known⟩ := offers
  cases call with
  | construct typeName args =>
      unfold EntryCall.opening? at isOpening
      dsimp only at isOpening
      split at isOpening
      · cases isOpening
      · rename_i type ctor _
        have runs : rule.Runs args [] (Exec.allocate machine.image type) machine.store
            fun object later => rule.held later (object :: args) [] := allocate_runs held
        unfold Runs at runs
        revert runs isOpening
        cases (Exec.allocate machine.image type).run machine.store with
        | error trap later => exact nofun
        | ok object later =>
            rintro ⟨⟩ ⟨grows, made⟩
            exact ⟨drop made, fun _ => known_owned made⟩
  | invokeStatic typeName method args =>
      unfold EntryCall.opening? at isOpening
      dsimp only at isOpening
      split at isOpening
      · cases isOpening
      · cases isOpening
        exact ⟨rule.weaken held (List.drop_sublist _ _).subperm (.refl _), fun _ => known_owned held⟩
  | invokeInstance receiver method args =>
      obtain ⟨_, isRequest, same⟩ := Option.map_eq_some_iff.mp isOpening
      cases same
      exact instanceRequest_admits held (known receiver rfl) isRequest
  | invokeDelegate delegate args =>
      obtain ⟨_, isRequest, same⟩ := Option.map_eq_some_iff.mp isOpening
      cases same
      exact instanceRequest_admits held (known delegate rfl) isRequest

/-- A discipline holds in every configuration that a call goes through. -/
theorem visits_fits (accepts : rule.Accepts call) {config : Config} {receivers : List Bool}
    (visits : call.Visits machine config receivers) : rule.Fits config receivers := by
  obtain ⟨request, store, start, steps, isOpening, isStart, goes⟩ := EntryCall.visits_iff.mp visits
  have leads := enter_leads (opening_admits accepts.toOffers isOpening)
  rw [isStart, Leads, List.drop_nil] at leads
  exact afterSteps?_fits accepts.makes leads goes

theorem instanceCall_held {receiver : Value} {method : Name} {args : List Value}
    (held : rule.held machine.store args [])
    (known : (Store.typeOf? machine.image machine.store.heap receiver).isSome →
      rule.known machine.store.heap receiver) (makes : rule.makesFunctions)
    (replied : machine.invokeInstance fuel receiver method args = some (answer, later)) :
    rule.held later.store [] [] := by
  have admits : ∀ {request : Request},
      EntryCall.instanceRequest? machine receiver method args = some request →
      rule.Admits request machine.store := instanceRequest_admits held known
  unfold EntryCall.instanceRequest? at admits
  unfold Machine.invokeInstance at replied
  split at replied
  · cases replied
    exact rule.weaken held List.nil_subperm (.refl _)
  · rename_i found isFound
    rw [isFound] at admits
    exact perform_held makes (admits rfl) replied

/-- A discipline holds of the machine after a call. -/
theorem call_held (accepts : rule.Accepts call)
    (replied : call.perform machine fuel = some (answer, later)) :
    rule.held later.store [] [] := by
  have admits : ∀ {request : Request} {store : Store},
      call.opening? machine = some (request, store) → rule.Admits request store :=
    opening_admits accepts.toOffers
  obtain ⟨⟨held, known⟩, makes⟩ := accepts
  have atRest : rule.held machine.store [] [] := rule.weaken held List.nil_subperm (.refl _)
  cases call with
  | construct typeName args =>
      unfold EntryCall.opening? at admits
      unfold EntryCall.perform Machine.construct at replied
      dsimp only at replied admits
      split at replied
      · cases replied
        exact atRest
      · rename_i type ctor isFound
        have runs : rule.Runs args [] (Exec.allocate machine.image type) machine.store
            fun object later => rule.held later (object :: args) [] := allocate_runs held
        rw [isFound] at admits
        unfold Runs at runs
        revert runs replied admits
        dsimp only
        cases (Exec.allocate machine.image type).run machine.store with
        | ok object store =>
            rintro admits replied -
            obtain ⟨⟨_, last⟩, ended, same⟩ := Option.map_eq_some_iff.mp replied
            cases same
            exact perform_held makes (admits rfl) ended
        | error trap store =>
            rintro - replied ⟨-, heldNow, -⟩
            have atEnd : rule.held store [] [] := rule.weaken heldNow List.nil_subperm (.refl _)
            cases trap <;> cases replied <;> exact atEnd
  | invokeStatic typeName method args =>
      unfold EntryCall.opening? at admits
      unfold EntryCall.perform Machine.invokeStatic at replied
      dsimp only at replied admits
      split at replied
      · cases replied
        exact atRest
      · rename_i found isFound
        rw [isFound] at admits
        exact perform_held makes (admits rfl) replied
  | invokeInstance receiver method args =>
      exact instanceCall_held held (known receiver rfl) makes replied
  | invokeDelegate delegate args =>
      exact instanceCall_held held (known delegate rfl) makes replied

/-! ## Starting -/

section Starting

variable {image : Image} {rule : Discipline image}

/-- The static fields get their defaults one after the other. -/
theorem fill_statics (fields : List FieldInfo) (heap : Heap) (statics : Array Value)
    (held : rule.held { heap, statics, output := "" } [] []) :
    let filled := (fields.foldlM (fun statics field =>
        if field.attrs.isStatic && image.isComplete field.owner then do
          let value ← Exec.defaultUpTo image (image.types.size + 1) field.type
          return statics.setIfInBounds field.slot value
        else
          return statics) statics : StateM Heap _).run heap
    rule.held { heap := filled.2, statics := filled.1, output := "" } [] [] := by
  induction fields generalizing heap statics with
  | nil => exact held
  | cons field fields ih =>
      rw [List.foldlM_cons]
      split
      · obtain ⟨-, given, -⟩ := defaultUpTo_allots (image.types.size + 1) field.type _ _ _ held
        exact ih _ _ (rule.setStatic given)
      · exact ih _ _ held

/-- A discipline of empty stores holds of the store that a program starts with. -/
theorem initial_held (empty : ∀ count, rule.held
      { heap := .empty, statics := Array.replicate count .null, output := "" } [] []) :
    rule.held (Store.initial image) [] [] := by
  have filled := fill_statics image.fields.toList .empty _ (empty image.staticCount)
  rw [Array.foldlM_toList] at filled
  exact filled

end Starting

end Discipline

end ClassForge
