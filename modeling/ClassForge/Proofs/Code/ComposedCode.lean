import ClassForge.Proofs.Code.LoweringDepth

/-!
# Properties of generated code that its parts hand on

The code of an expression is put together from a few actions: instructions, labels, new locals,
look-ups in the build so far and requests to the platform.  `Lower.Compositional` says of a property
of actions that it is handed on by putting actions together and holds of these few; the code of
every expression then has the property.  `Lower.Sequential` leaves out labels, for properties that
hold of a mark only where its label is known, and `Lower.Slotless` leaves out new locals too.
Requests are a matter of the members that are asked for, which `Core.platformMembers` lists for each
node.
-/

namespace ClassForge

/-! ## Members that code asks the platform for -/

/-- A member of a platform type, as code names it. -/
inductive PlatformMember where
  | method (owner : SourceTy) (name : Name) (isInstance : Bool) (params : List SourceTy)
  | ctor (owner : SourceTy) (params : List SourceTy)
  | field (owner : SourceTy) (name : Name)

namespace PlatformMember

/-- The constructor of a function type. -/
def delegateCtor (delegate : SourceTy) : PlatformMember :=
  .ctor delegate [.object, .intPtr]

/-- The call of a function type. -/
def delegateInvoke? (delegate : SourceTy) : Option PlatformMember :=
  delegate.signature?.map fun signature =>
    .method delegate Closure.invokeName true signature.1

/-- The field of a cell that holds the value. -/
def cellField (content : SourceTy) : PlatformMember :=
  .field (.cell content) "Value"

/-- A constructor of a cell. -/
def cellCtor (content : SourceTy) (filled : Bool) : PlatformMember :=
  .ctor (.cell content) (if filled then [content] else [])

end PlatformMember

/-- What a call asks for, when the method has no key. -/
def Callee.platformMethod (callee : Callee) : PlatformMember :=
  .method callee.owner callee.name callee.isInstance callee.params

/-- What a call asks for, when the constructor has no key. -/
def Callee.platformCtor (callee : Callee) : PlatformMember :=
  .ctor callee.owner callee.params

/-- What an access asks for, when the field has no key. -/
def FieldTarget.platformField (field : FieldTarget) : PlatformMember :=
  .field field.owner field.name

/-- The member behind a member use, when it has no key. -/
def MemberUse.platformMember : MemberUse → PlatformMember
  | loadField field | storeField field => field.platformField
  | call callee | write callee => callee.platformMethod
  | new callee => callee.platformCtor

/-- The routine that an action calls. -/
def Action.platformMembers : Action → List PlatformMember
  | routine owner name params => [.method owner name false params]
  | _ => []

/-- The members that the code of a node asks for, apart from those of cells and those that its
parts ask for. -/
def Core.platformMembers : Core → List PlatformMember
  | loop _ function vars ret _ _ =>
      .delegateCtor (.delegate ((vars.map (·.1)).map Binder.type) ret) ::
        (PlatformMember.delegateInvoke? function.type).toList
  | lambda _ params _ body => [.delegateCtor (.delegate (params.map Binder.type) body.type)]
  | invoke _ function _ => (PlatformMember.delegateInvoke? function.type).toList
  | apply _ action _ => action.platformMembers
  | member _ use _ => if use.key?.isSome then [] else [use.platformMember]
  | _ => []

/-! ## Look-ups -/

theorem argSlot_isOwn (index : Nat) : Yields Diagnostic.IsOwn (argSlot index) fun _ => True := by
  unfold argSlot
  split
  · trivial
  · exact nofun

theorem LowerContext.bindFields_isOwn (context : LowerContext) (closure : Closure)
    (captures : List Param) (env : Scope Binding) :
    Yields Diagnostic.IsOwn (context.bindFields closure captures env) fun _ => True := by
  induction captures generalizing env with
  | nil => trivial
  | cons capture captures ih =>
      exact (Resolution.lookup_isOwn _ _).bind fun _ _ => ih _

theorem Scope.lookup_isOwn {α : Type} (scope : Scope α) (name : Name) :
    Yields Diagnostic.IsOwn (scope.lookup name) fun _ => True := by
  unfold Scope.lookup
  split
  · trivial
  · exact nofun

/-! ## Properties that are handed on -/

/-- A property of actions that is handed on when they are put together, and holds of requests for
members that are offered. -/
structure Lower.Slotless (context : LowerContext) (offered : PlatformMember → Prop)
    (holds : ∀ {α : Type}, Lower α → Prop) : Prop where
  pure {α : Type} (value : α) : holds (pure value : Lower α)
  bind {α β : Type} {action : Lower α} {next : α → Lower β} :
    holds action → (∀ value, holds (next value)) → holds (action >>= next)
  lift {α : Type} {outcome : Except Diagnostic α} :
    Yields Diagnostic.IsOwn outcome (fun _ => True) → holds (liftM outcome : Lower α)
  throw {α : Type} {diagnostic : Diagnostic} :
    diagnostic.IsOwn → holds (throw diagnostic : Lower α)
  emit (instr : Instr) : holds (Lower.emit instr)
  method {owner : SourceTy} {name : Name} {isInstance : Bool} {params : List SourceTy} :
    offered (.method owner name isInstance params) →
      holds (context.platformMethod owner name isInstance params)
  ctor {owner : SourceTy} {params : List SourceTy} :
    offered (.ctor owner params) → holds (context.platformCtor owner params)
  field {owner : SourceTy} {name : Name} :
    offered (.field owner name) → holds (do
      let type ← context.runTy owner
      Lower.ofImage (context.image.resolveField type name))
  cellField (content : SourceTy) : offered (.cellField content)
  cellCtor (content : SourceTy) (filled : Bool) : offered (.cellCtor content filled)

/-- A property that is handed on and holds of new locals. -/
structure Lower.Sequential (context : LowerContext) (offered : PlatformMember → Prop)
    (holds : ∀ {α : Type}, Lower α → Prop) : Prop
    extends Lower.Slotless context offered holds where
  newLocal (type : RunTy) : holds (Lower.ofEmit (Emitter.declareLocal type false))

/-- A property that is handed on and holds of new labels and of marks, whichever label is marked. -/
structure Lower.Compositional (context : LowerContext) (offered : PlatformMember → Prop)
    (holds : ∀ {α : Type}, Lower α → Prop) : Prop
    extends Lower.Sequential context offered holds where
  label : holds Lower.label
  mark (label : Label) : holds (Lower.mark label)

namespace Lower.Slotless

variable {context : LowerContext} {offered : PlatformMember → Prop}
variable {holds : ∀ {α : Type}, Lower α → Prop}
variable (handsOn : Lower.Slotless context offered holds)
include handsOn

/-! ### Lists of actions -/

theorem forM {items : List α} {action : α → Lower Unit} (each : ∀ item, holds (action item)) :
    holds (items.forM action) := by
  induction items with
  | nil => exact handsOn.pure ()
  | cons item items ih => exact handsOn.bind (each item) fun _ => ih

theorem mapM {β : Type} {items : List α} {action : α → Lower β}
    (each : ∀ item, holds (action item)) : holds (items.mapM action) := by
  induction items with
  | nil => exact handsOn.pure []
  | cons item items ih =>
      rw [List.mapM_cons]
      exact handsOn.bind (each item) fun _ => handsOn.bind ih fun _ => handsOn.pure _

theorem emitAll (instrs : List Instr) : holds (Lower.emitAll instrs) :=
  handsOn.forM handsOn.emit

theorem emitCall (method : MethodHandle) (isVirtual tail : Bool) :
    holds (Lower.emitCall method isVirtual tail) := by
  refine handsOn.bind (handsOn.emit _) fun _ => ?_
  split
  · exact handsOn.emit _
  · exact handsOn.pure _

theorem popValue (type : SourceTy) : holds (Lower.popValue type) := by
  unfold Lower.popValue
  split
  · exact handsOn.pure _
  · exact handsOn.emit _

/-! ### Handles -/

theorem runTy (type : SourceTy) : holds (liftM (context.runTy type) : Lower RunTy) :=
  handsOn.lift (Resolution.runTy_isOwn type)

theorem lookup (env : Scope Binding) (name : Name) :
    holds (liftM (env.lookup name) : Lower Binding) :=
  handsOn.lift (env.lookup_isOwn name)

theorem calleeMethod {callee : Callee}
    (asks : callee.methodKey? = none → offered callee.platformMethod) :
    holds (context.method callee) := by
  unfold LowerContext.method
  split
  · exact handsOn.lift (Resolution.lookup_isOwn _ _)
  · exact handsOn.method (asks ‹_›)

theorem calleeCtor {callee : Callee}
    (asks : callee.ctorKey? = none → offered callee.platformCtor) :
    holds (context.ctor callee) := by
  unfold LowerContext.ctor
  split
  · exact handsOn.lift (Resolution.lookup_isOwn _ _)
  · exact handsOn.ctor (asks ‹_›)

theorem targetField {target : FieldTarget}
    (asks : target.key? = none → offered target.platformField) :
    holds (context.field target) := by
  unfold LowerContext.field
  split
  · exact handsOn.lift (Resolution.lookup_isOwn _ _)
  · exact handsOn.field (asks ‹_›)

theorem delegateInvoke {delegate : SourceTy}
    (asks : ∀ member ∈ PlatformMember.delegateInvoke? delegate, offered member) :
    holds (context.delegateInvoke delegate) := by
  unfold LowerContext.delegateInvoke
  split
  · rename_i params ret signature
    exact handsOn.method (asks _ (by simp [PlatformMember.delegateInvoke?, signature]))
  · exact handsOn.throw nofun

/-! ### Storage -/

theorem fieldOfCell (content : SourceTy) : holds (context.cellField content) :=
  handsOn.field (handsOn.cellField content)

theorem load (place : Place) : holds place.load := by
  cases place with
  | argument slot => exact handsOn.emit _
  | localSlot slot => exact handsOn.emit _
  | receiverField field => exact handsOn.emitAll _

theorem fetch (binding : Binding) : holds (context.fetch binding) := by
  refine handsOn.bind (handsOn.load binding.place) fun _ => ?_
  split
  · exact handsOn.bind (handsOn.fieldOfCell _) fun _ => handsOn.emit _
  · exact handsOn.pure _

theorem store (binding : Binding) {value : Lower Unit} (pushes : holds value) :
    holds (context.store binding value) := by
  unfold LowerContext.store
  split
  · exact handsOn.bind (handsOn.load _) fun _ => handsOn.bind pushes fun _ =>
      handsOn.bind (handsOn.fieldOfCell _) fun _ => handsOn.emit _
  · unfold Place.store
    split
    · exact handsOn.bind pushes fun _ => handsOn.emit _
    · exact handsOn.bind pushes fun _ => handsOn.emit _
    · exact handsOn.bind (handsOn.emit _) fun _ => handsOn.bind pushes fun _ => handsOn.emit _

theorem fetchCells (env : Scope Binding) (captures : List Param) :
    holds (env.fetchCells captures) := by
  refine handsOn.forM fun capture => handsOn.bind (handsOn.lookup env _) fun binding => ?_
  unfold Binding.fetchCell
  split
  · exact handsOn.load _
  · exact handsOn.throw nofun

/-! ### Nodes without their parts -/

theorem lowerAction {action : Action}
    (asks : ∀ member ∈ action.platformMembers, offered member) :
    holds (context.lowerAction action) := by
  cases action with
  | code instrs => exact handsOn.emitAll _
  | routine owner name params =>
      exact handsOn.bind (handsOn.method (asks _ List.mem_cons_self)) fun _ => handsOn.emit _
  | onType action type => exact handsOn.bind (handsOn.runTy type) fun _ => handsOn.emitAll _

theorem lowerClosure {closure : Closure} (asks : offered (.delegateCtor closure.delegateType))
    (env : Scope Binding) : holds (context.lowerClosure closure env) :=
  handsOn.bind (handsOn.fetchCells env _) fun _ =>
    handsOn.bind (handsOn.lift (Resolution.lookup_isOwn _ _)) fun _ =>
      handsOn.bind (handsOn.emit _) fun _ =>
        handsOn.bind (handsOn.lift (Resolution.lookup_isOwn _ _)) fun _ =>
          handsOn.bind (handsOn.emit _) fun _ => handsOn.bind (handsOn.ctor asks) fun _ =>
            handsOn.emit _

theorem lowerBlockCall (block : Option Block) (captures : List Param) {arrays : Lower Unit}
    (pushes : holds arrays) (env : Scope Binding) :
    holds (context.lowerBlockCall block captures arrays env) := by
  refine handsOn.bind (handsOn.fetchCells env _) fun _ => handsOn.bind pushes fun _ => ?_
  split
  · exact handsOn.bind (handsOn.lift (Resolution.lookup_isOwn _ _)) fun _ => handsOn.emit _
  · exact handsOn.pure _

theorem lowerMember {use : MemberUse} (asks : use.key? = none → offered use.platformMember)
    {operands : Lower Unit} (pushes : holds operands) (tail : Bool) :
    holds (context.lowerMember use operands tail) := by
  have keyless : ∀ {κ : Type} {key? : Option κ} {view : κ → Key}, key? = none →
      key?.map view = none := by
    rintro _ _ _ rfl
    rfl
  cases use with
  | loadField target =>
      exact handsOn.bind (handsOn.targetField fun none => asks (keyless none)) fun _ =>
        handsOn.bind pushes fun _ => handsOn.emit _
  | storeField target =>
      exact handsOn.bind (handsOn.targetField fun none => asks (keyless none)) fun _ =>
        handsOn.bind pushes fun _ => handsOn.emit _
  | call callee =>
      exact handsOn.bind (handsOn.calleeMethod fun none => asks (keyless none)) fun _ =>
        handsOn.bind pushes fun _ => handsOn.emitCall _ _ _
  | write callee =>
      exact handsOn.bind (handsOn.calleeMethod fun none => asks (keyless none)) fun _ =>
        handsOn.bind pushes fun _ => handsOn.emitCall _ _ _
  | new callee =>
      exact handsOn.bind (handsOn.calleeCtor fun none => asks (keyless none)) fun _ =>
        handsOn.bind pushes fun _ => handsOn.emit _

/-! ### Parts of bodies -/

theorem storeCells (closure : Closure) (captures : List Param) (first : Nat) :
    holds (closure.storeCells context captures first) := by
  induction captures generalizing first with
  | nil => exact handsOn.pure _
  | cons capture captures ih =>
      exact handsOn.bind (handsOn.lift (Resolution.lookup_isOwn _ _)) fun _ =>
        handsOn.bind (handsOn.lift (argSlot_isOwn first)) fun _ =>
          handsOn.bind (handsOn.emitAll _) fun _ => ih _

end Lower.Slotless

namespace Lower.Sequential

variable {context : LowerContext} {offered : PlatformMember → Prop}
variable {holds : ∀ {α : Type}, Lower α → Prop}
variable (handsOn : Lower.Sequential context offered holds)
variable {clauses : List (Binder × Core)}
variable {items : List Core}

include handsOn

/-! ### New locals -/

theorem declareLocal (type : SourceTy) : holds (context.declareLocal type) :=
  handsOn.bind (handsOn.runTy type) fun _ => handsOn.newLocal _

theorem storeTop (type : SourceTy) : holds (context.storeTop type) :=
  handsOn.bind (handsOn.declareLocal type) fun _ => handsOn.bind (handsOn.emit _) fun _ =>
    handsOn.pure _

theorem newCell (content : SourceTy) (filled : Bool) : holds (context.newCell content filled) :=
  handsOn.bind (handsOn.ctor (handsOn.cellCtor content filled)) fun _ =>
    handsOn.bind (handsOn.emit _) fun _ => handsOn.bind (handsOn.storeTop _) fun _ => handsOn.pure _

theorem bindTop (type : SourceTy) (boxed : Bool) : holds (context.bindTop type boxed) := by
  unfold LowerContext.bindTop
  split
  · exact handsOn.newCell _ _
  · exact handsOn.bind (handsOn.storeTop _) fun _ => handsOn.pure _

theorem bindFresh (type : SourceTy) (boxed : Bool) : holds (context.bindFresh type boxed) := by
  unfold LowerContext.bindFresh
  split
  · exact handsOn.newCell _ _
  · exact handsOn.bind (handsOn.declareLocal _) fun _ => handsOn.pure _

theorem lowerLoopCall {closure : Closure} {function : Binder}
    (makes : offered (.delegateCtor closure.delegateType))
    (calls : ∀ member ∈ PlatformMember.delegateInvoke? function.type, offered member)
    (slots : List Nat) (env : Scope Binding) (tail : Bool) :
    holds (context.lowerLoopCall closure function slots env tail) :=
  handsOn.bind (handsOn.bindFresh _ _) fun _ =>
    handsOn.bind (handsOn.store _ (handsOn.lowerClosure makes _)) fun _ =>
      handsOn.bind (handsOn.fetch _) fun _ =>
        handsOn.bind (handsOn.forM fun _ => handsOn.emit _) fun _ =>
          handsOn.bind (handsOn.delegateInvoke calls) fun _ => handsOn.emitCall _ _ _

/-! ### Lists of parts -/

variable {env : Scope Binding}

theorem lowerAll (each : ∀ item ∈ items, ∀ env, holds (item.lower context env false)) :
    holds (Core.lowerAll context items env) := by
  induction items with
  | nil => exact handsOn.pure _
  | cons item items ih =>
      refine handsOn.bind (each item List.mem_cons_self env) fun _ => ?_
      exact ih (List.forall_mem_cons.mp each).2

theorem lowerSeq {tail : Bool}
    (each : ∀ item ∈ items, ∀ env tail, holds (item.lower context env tail)) :
    holds (Core.lowerSeq context items env tail) := by
  induction items with
  | nil => exact handsOn.pure _
  | cons item items ih =>
      cases items with
      | nil => exact each item List.mem_cons_self env tail
      | cons next items =>
          refine handsOn.bind (each item List.mem_cons_self env false) fun _ =>
            handsOn.bind (handsOn.popValue _) fun _ => ?_
          exact ih (List.forall_mem_cons.mp each).2

theorem lowerLogic {connective : Connective} {stop : Label}
    (each : ∀ item ∈ items, ∀ env, holds (item.lower context env false)) :
    holds (Core.lowerLogic context items connective stop env) := by
  induction items with
  | nil => exact handsOn.pure _
  | cons item items ih =>
      cases items with
      | nil => exact each item List.mem_cons_self env
      | cons next items =>
          refine handsOn.bind (each item List.mem_cons_self env) fun _ =>
            handsOn.bind (handsOn.emitAll _) fun _ => ?_
          exact ih (List.forall_mem_cons.mp each).2

section

variable (each : ∀ init ∈ clauses.map (·.2), ∀ env, holds (init.lower context env false))
include each

theorem lowerNamed :
    holds (Core.lowerNamed context clauses env) := by
  induction clauses with
  | nil => exact handsOn.pure _
  | cons clause clauses ih =>
      obtain ⟨binder, init⟩ := clause
      refine handsOn.bind (each init List.mem_cons_self env) fun _ =>
        handsOn.bind (handsOn.bindTop _ _) fun _ => handsOn.bind ?_ fun _ => handsOn.pure _
      exact ih (List.forall_mem_cons.mp each).2

theorem lowerClauses :
    holds (Core.lowerClauses context clauses env) := by
  induction clauses generalizing env with
  | nil => exact handsOn.pure _
  | cons clause clauses ih =>
      obtain ⟨binder, init⟩ := clause
      refine handsOn.bind (each init List.mem_cons_self env) fun _ =>
        handsOn.bind (handsOn.bindTop _ _) fun _ => ?_
      exact ih (List.forall_mem_cons.mp each).2

theorem lowerStores :
    holds (Core.lowerStores context clauses env) := by
  induction clauses with
  | nil => exact handsOn.pure _
  | cons clause clauses ih =>
      obtain ⟨binder, init⟩ := clause
      refine handsOn.bind (handsOn.lookup env _) fun binding =>
        handsOn.bind (handsOn.store binding (each init List.mem_cons_self env)) fun _ => ?_
      exact ih (List.forall_mem_cons.mp each).2

end

theorem lowerTemps {vars : List (Binder × Core)}
    (each : ∀ init ∈ vars.map (·.2), ∀ env, holds (init.lower context env false)) :
    holds (Core.lowerTemps context vars env) := by
  induction vars with
  | nil => exact handsOn.pure _
  | cons var vars ih =>
      obtain ⟨binder, init⟩ := var
      refine handsOn.bind (each init List.mem_cons_self env) fun _ =>
        handsOn.bind (handsOn.storeTop _) fun _ => handsOn.bind ?_ fun _ => handsOn.pure _
      exact ih (List.forall_mem_cons.mp each).2

/-! ### Parts of bodies -/

theorem bindParams (params : List Binder) (first : Nat) (env : Scope Binding) :
    holds (context.bindParams params first env) := by
  induction params generalizing first env with
  | nil => exact handsOn.pure _
  | cons param params ih =>
      refine handsOn.bind (handsOn.lift (argSlot_isOwn first)) fun slot => ?_
      dsimp only
      split
      · exact handsOn.bind (handsOn.emit _) fun _ => handsOn.bind (handsOn.newCell _ _) fun _ =>
          ih _ _
      · exact handsOn.bind (handsOn.pure _) fun _ => ih _ _

theorem lowerResult {body : Core} (lowers : ∀ tail, holds (body.lower context env tail))
    (ret : SourceTy) : holds (context.lowerResult body ret env) := by
  refine handsOn.bind (lowers _) fun _ => ?_
  split
  · exact handsOn.bind (handsOn.popValue _) fun _ => handsOn.emit _
  · exact handsOn.emit _

end Lower.Sequential

/-! ## Expressions -/

/-- Whether the code of a node itself jumps to labels. -/
def Core.hasLabels : Core → Bool
  | logic _ _ | when _ _ | cond _ _ _ | .while _ _ | switch _ _ _ => true
  | _ => false

/-- The code of an expression has a property that is handed on, if the members that its nodes ask
for are offered and the code of nodes with labels has it as soon as that of their parts does. -/
theorem Lower.Sequential.lower {context : LowerContext} {offered : PlatformMember → Prop}
    {holds : ∀ {α : Type}, Lower α → Prop} (handsOn : Lower.Sequential context offered holds)
    (labelled : ∀ node : Core, node.hasLabels = true →
      (∀ part ∈ node.parts, ∀ env tail, holds (part.lower context env tail)) →
        ∀ env tail, holds (node.lower context env tail))
    (core : Core) (asks : ∀ node ∈ core.preorder, ∀ member ∈ node.platformMembers, offered member)
    (env : Scope Binding) (tail : Bool) : holds (core.lower context env tail) := by
  induction core using Core.partInduction generalizing env tail with
  | step core ih =>
      have own := asks core core.mem_preorder_self
      have each : ∀ part ∈ core.parts, ∀ env tail, holds (part.lower context env tail) :=
        fun part isPart => ih part isPart fun node inPart =>
          asks node (Core.mem_preorder_of_mem_parts isPart inPart)
      have operands : ∀ part ∈ core.operands, ∀ env, holds (part.lower context env false) :=
        fun part isOperand env => each part (core.operands_subset isOperand) env false
      cases core with
      | logic | when | cond | «while» | switch => exact labelled _ rfl each env tail
      | literal value => exact handsOn.emitAll _
      | var name type => exact handsOn.bind (handsOn.lookup env _) fun _ => handsOn.fetch _
      | set name value =>
          exact handsOn.bind (handsOn.lookup env _) fun _ =>
            handsOn.store _ (operands value List.mem_cons_self env)
      | seq items => exact handsOn.lowerSeq each
      | letPar clauses body =>
          exact handsOn.bind (handsOn.lowerNamed operands) fun _ =>
            each body (by simp [Core.parts]) _ tail
      | letSeq clauses body =>
          exact handsOn.bind (handsOn.lowerClauses operands) fun _ =>
            each body (by simp [Core.parts]) _ tail
      | letRec clauses body =>
          refine handsOn.bind (handsOn.mapM fun clause => ?_) fun _ =>
            handsOn.bind (handsOn.lowerStores operands) fun _ =>
              each body (by simp [Core.parts]) _ tail
          exact handsOn.bind (handsOn.bindFresh _ _) fun _ => handsOn.pure _
      | loop id function vars result captures body =>
          exact handsOn.bind (handsOn.lowerTemps operands) fun _ =>
            handsOn.lowerLoopCall (own _ List.mem_cons_self)
              (fun member isMember => own member
                (List.mem_cons_of_mem _ (Option.mem_toList.mpr isMember))) _ _ _
      | lambda id params captures body => exact handsOn.lowerClosure (own _ List.mem_cons_self) _
      | invoke type function args =>
          exact handsOn.bind (operands function List.mem_cons_self env) fun _ =>
            handsOn.bind (handsOn.lowerAll (List.forall_mem_cons.mp operands).2) fun _ =>
                handsOn.bind (handsOn.delegateInvoke fun member isMember =>
                  own member (Option.mem_toList.mpr isMember)) fun _ => handsOn.emitCall _ _ _
      | apply type action args =>
          exact handsOn.bind (handsOn.lowerAll operands) fun _ => handsOn.lowerAction own
      | member type use args =>
          refine handsOn.lowerMember (fun keyless => own _ ?_) (handsOn.lowerAll operands) _
          simp [Core.platformMembers, keyless]
      | tryCatch id captures body catches =>
          exact handsOn.lowerBlockCall _ _ (handsOn.pure _) _
      | tryFinally id captures body catches final =>
          exact handsOn.lowerBlockCall _ _ (handsOn.pure _) _
      | pin id captures arrays body =>
          rw [Core.lower, Core.lowerArrays_eq_lowerAll]
          exact handsOn.lowerBlockCall _ _ (handsOn.lowerAll operands) _

namespace Lower.Compositional

variable {context : LowerContext} {offered : PlatformMember → Prop}
variable {holds : ∀ {α : Type}, Lower α → Prop}
variable (handsOn : Lower.Compositional context offered holds)
include handsOn

theorem lowerArms {arms : List (List UInt32 × Core)} {labels : List Label} {stop : Label}
    {tail : Bool} {env : Scope Binding}
    (each : ∀ arm ∈ arms.map (·.2), ∀ env tail, holds (arm.lower context env tail)) :
    holds (Core.lowerArms context arms labels stop env tail) := by
  induction arms generalizing labels with
  | nil => exact handsOn.pure _
  | cons arm arms ih =>
      obtain ⟨values, arm⟩ := arm
      cases labels with
      | nil => exact handsOn.pure _
      | cons label labels =>
          refine handsOn.bind (handsOn.mark _) fun _ =>
            handsOn.bind (each arm List.mem_cons_self env tail) fun _ =>
              handsOn.bind (handsOn.emit _) fun _ => ?_
          exact ih (List.forall_mem_cons.mp each).2

/-- The code of an expression has a property that its parts hand on, if the members that its nodes
ask for are offered. -/
theorem lower (core : Core)
    (asks : ∀ node ∈ core.preorder, ∀ member ∈ node.platformMembers, offered member)
    (env : Scope Binding) (tail : Bool) : holds (core.lower context env tail) := by
  refine handsOn.toSequential.lower (fun core isLabelled each env tail => ?_) core asks env tail
  have operands : ∀ part ∈ core.operands, ∀ env, holds (part.lower context env false) :=
    fun part isOperand env => each part (core.operands_subset isOperand) env false
  cases core with
  | logic connective items =>
      unfold Core.lower
      split
      · exact handsOn.emit _
      · exact handsOn.bind handsOn.label fun _ =>
          handsOn.bind (handsOn.lowerLogic operands) fun _ => handsOn.mark _
  | when test body =>
      exact handsOn.bind handsOn.label fun _ =>
        handsOn.bind (operands test List.mem_cons_self env) fun _ =>
          handsOn.bind (handsOn.emit _) fun _ =>
            handsOn.bind (each body (by simp [Core.parts, Core.inPlace]) env tail) fun _ =>
              handsOn.mark _
  | cond test yes no =>
      exact handsOn.bind handsOn.label fun _ =>
        handsOn.bind (operands test List.mem_cons_self env) fun _ =>
          handsOn.bind handsOn.label fun _ => handsOn.bind (handsOn.emit _) fun _ =>
            handsOn.bind (each yes (by simp [Core.parts, Core.inPlace]) env tail) fun _ =>
              handsOn.bind (handsOn.emit _) fun _ => handsOn.bind (handsOn.mark _) fun _ =>
                handsOn.bind (each no (by simp [Core.parts, Core.inPlace]) env tail) fun _ =>
                  handsOn.mark _
  | «while» test body =>
      exact handsOn.bind handsOn.label fun _ => handsOn.bind handsOn.label fun _ =>
        handsOn.bind (handsOn.mark _) fun _ =>
          handsOn.bind (operands test List.mem_cons_self env) fun _ =>
            handsOn.bind (handsOn.emit _) fun _ =>
              handsOn.bind (each body (by simp [Core.parts, Core.inPlace]) env false) fun _ =>
                handsOn.bind (handsOn.popValue _) fun _ =>
                  handsOn.bind (handsOn.emit _) fun _ => handsOn.mark _
  | switch selector arms default =>
      have isDefault : default ∈ (Core.switch selector arms default).parts := by
        simp [Core.parts, Core.inPlace]
      unfold Core.lower
      refine handsOn.bind (operands selector List.mem_cons_self env) fun _ => ?_
      split
      · exact handsOn.bind (handsOn.emit _) fun _ => each default isDefault env tail
      · refine handsOn.bind handsOn.label fun _ => handsOn.bind handsOn.label fun _ =>
          handsOn.bind (handsOn.mapM fun _ =>
            handsOn.bind handsOn.label fun _ => handsOn.pure _) fun _ =>
              handsOn.bind (handsOn.emit _) fun _ => handsOn.bind (handsOn.emit _) fun _ =>
                handsOn.bind (handsOn.lowerArms fun arm isArm => each arm ?_) fun _ =>
                  handsOn.bind (handsOn.mark _) fun _ =>
                    handsOn.bind (each default isDefault env tail) fun _ => handsOn.mark _
        exact Core.branches_subset (Core.switch selector arms default) isArm
  | _ => cases isLabelled

end Lower.Compositional

end ClassForge
