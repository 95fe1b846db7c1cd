import ClassForge.Proofs.Code.WrittenCode
import ClassForge.Proofs.Simulation.Meaning
import ClassForge.Proofs.Simulation.RunningCalls

/-!
# How the machine represents what expressions mean

A location of the store of the meaning is a variable of the machine.  It has a type, and if a
boundary captures it, a cell that holds its value for as long as anything refers to it.  Other
variables are in slots of the frame that runs.  Numbers and truth values are represented by
integers, functions by objects that hold the cells of the variables that they captured.
-/

namespace ClassForge

variable {linkage : Linkage} {contents : Contents}
variable {context : TypeContext} {location : Location}

/-! ## What code is linked against -/

/-- The outcome of a build, with what its expressions were checked against. -/
structure Linkage where
  typing : TypeContext
  image : Image
  resolution : Resolution
  /-- The class that the source of the code stands in. -/
  host : Name
  cell : TypeHandle
  built : image.Built
  isCell : image.IsCell cell

/-- Code is generated during the build. -/
structure Linkage.Admits (linkage : Linkage) (context : LowerContext) : Prop where
  built : context.image.Built
  resolution : context.resolution.Within linkage.resolution
  host : context.host = linkage.host

/-- What became of the class behind a function. -/
structure Closure.Layout (linkage : Linkage) (closure : Closure) where
  owner : TypeHandle
  info : TypeInfo
  ctor : CtorHandle
  ctorInfo : CtorInfo
  ctorBody : Body
  invoke : MethodHandle
  invokeInfo : MethodInfo
  invokeBody : Body
  isOwner : linkage.image.type? owner = some info
  complete : info.isComplete = true
  isClass : info.attrs.isValueType = false
  isDeclared : info.origin = .declared
  isCtor : linkage.resolution.ctor closure.ctorKey = .ok ctor
  isCtorInfo : linkage.image.ctor? ctor = some ctorInfo
  ctorOwner : ctorInfo.owner = owner
  ctorCount : ctorInfo.params.length = closure.captures.length
  ctorIsCode : ctorInfo.implementation = .code ctorBody
  ctorCode : ∃ context, linkage.Admits context ∧ closure.ctorCode context = .ok ctorBody
  isInvoke : linkage.resolution.method closure.invokeKey = .ok invoke
  isInvokeInfo : linkage.image.method? invoke = some invokeInfo
  isInstance : invokeInfo.attrs.isStatic = false
  invokeIsCode : invokeInfo.implementation = .code invokeBody
  invokeCode : ∃ context, linkage.Admits context ∧ closure.invokeCode context = .ok invokeBody
  /-- Each captured variable has a field of its own. -/
  field : ∀ capture ∈ closure.captures, ∃ handle info',
    linkage.resolution.field (closure.fieldKey capture) = .ok handle ∧
      linkage.image.field? handle = some info' ∧ info'.slot < info.instanceSlots
  apart : ∀ capture ∈ closure.captures, ∀ other ∈ closure.captures, ∀ handle otherHandle field other',
    linkage.resolution.field (closure.fieldKey capture) = .ok handle →
      linkage.resolution.field (closure.fieldKey other) = .ok otherHandle →
        linkage.image.field? handle = some field → linkage.image.field? otherHandle = some other' →
          field.slot = other'.slot → capture = other

/-- Every function of an expression has a class. -/
def Linkage.Furnishes (linkage : Linkage) (core : Core) : Prop :=
  ∀ node ∈ core.preorder, ∀ closure, node.closure? linkage.host = some closure →
    Nonempty (closure.Layout linkage)

/-- The variables of an expression hold values. -/
structure Core.HoldsValues (core : Core) : Prop where
  binders : core.BindsValues
  loops : ∀ id function vars ret captures body,
    Core.loop id function vars ret captures body ∈ core.preorder →
      ∀ var ∈ vars, var.1.type.isVoid = false

/-! ## Locations -/

/-- What the machine keeps a location in: a cell, if there is one, else a slot of a frame. -/
structure Storage where
  type : SourceTy
  cell : Option ObjRef

/-- The storage of each location. -/
abbrev World := List Storage

/-- A function of the source and the class that was made for it. -/
structure Closure.Renders (linkage : Linkage) (closure : Closure) (types : Scope SourceTy)
    (params : List Name) (body : Expr) (returns : Bool) : Prop where
  params : params = closure.params.map Binder.name
  checked : body.Checks linkage.typing
    (types.bindAll (closure.params.map fun param => (param.name, param.type))) closure.body
  result : closure.ret.isVoid = true ∨
    linkage.typing.isAssignable closure.body.type closure.ret = true
  returns : closure.ret.isVoid = false → returns = true
  furnished : linkage.Furnishes closure.body
  values : closure.body.HoldsValues
  paramValues : ∀ param ∈ closure.params, param.type.isVoid = false
  captured : ∀ capture ∈ closure.captures, types.get? capture.name = some capture.type

/-- The objects of a function: the function itself, and the receiver of its method, which holds the
cells of the captured variables. -/
structure Closure.MadeOf (linkage : Linkage) (closure : Closure) (heap : Heap) (object : ObjRef)
    (cells : Param → ObjRef) : Prop where
  shape : ∃ (layout : closure.Layout linkage) (definition : Name) (args : List SourceTy)
    (type : TypeHandle) (target : ObjRef) (fields : Array Value),
    closure.delegateType = .generic definition args ∧
      linkage.image.generic? definition args.length = some type ∧
      heap.get? object = some (.delegate type (.ref target) layout.invoke) ∧
      heap.get? target = some (.instance layout.owner fields) ∧
      ∀ capture ∈ closure.captures, ∃ handle field,
        linkage.resolution.field (closure.fieldKey capture) = .ok handle ∧
          linkage.image.field? handle = some field ∧
          fields[field.slot]? = some (.ref (cells capture))

/-- The objects of a function, with the variables around it in the cells. -/
structure Closure.StandsAt (linkage : Linkage) (closure : Closure) (world : World) (heap : Heap)
    (env : Scope Location) (object : ObjRef) (cells : Param → ObjRef) : Prop where
  made : closure.MadeOf linkage heap object cells
  captured : ∀ capture ∈ closure.captures, ∃ location, env.get? capture.name = some location ∧
    world[location]? = some ⟨capture.type, some (cells capture)⟩

/-- A value of the machine represents a datum in a variable of a type. -/
inductive Represents (linkage : Linkage) (world : World) (heap : Heap) :
    SourceTy → Datum → Value → Prop where
  | number (value : Int32) : Represents linkage world heap .int32 (.number value) (.int32 value)
  | truth (value : Bool) : Represents linkage world heap .bool (.truth value) (.ofBool value)
  | function {closure : Closure} {types : Scope SourceTy} {params : List Name} {body : Expr}
      {returns : Bool} {env : Scope Location} {object : ObjRef} {cells : Param → ObjRef}
      {type : SourceTy} (renders : closure.Renders linkage types params body returns)
      (stands : closure.StandsAt linkage world heap env object cells)
      (typed : type = closure.delegateType ∨ ∃ builtin, type = .builtin builtin) :
      Represents linkage world heap type (.function params body returns env) (.ref object)

/-! ## Objects over time -/

/-- Objects stay as they are, but for what cells hold. -/
def Heap.Evolves (cell : TypeHandle) (heap later : Heap) : Prop :=
  ∀ ref object, heap.get? ref = some object → later.get? ref = some object ∨
    ∃ before after, object = .instance cell #[before] ∧ later.get? ref = some (.instance cell #[after])

namespace Heap

variable {cell : TypeHandle} {heap middle later : Heap}
variable {ref : ObjRef}

theorem Retains.evolves (retains : heap.Retains later) : heap.Evolves cell later :=
  fun ref object found => .inl (retains ref object found)

theorem Evolves.refl (heap : Heap) : heap.Evolves cell heap :=
  (Retains.refl heap).evolves

theorem Evolves.trans (early : heap.Evolves cell middle) (late : middle.Evolves cell later) :
    heap.Evolves cell later := by
  intro ref object found
  rcases early ref object found with same | ⟨before, between, isCell, found⟩
  · exact late ref object same
  · rcases late ref _ found with same | ⟨_, after, -, found⟩
    · exact .inr ⟨before, between, isCell, same⟩
    · exact .inr ⟨before, after, isCell, found⟩

theorem Evolves.delegate (evolves : heap.Evolves cell later) {type : TypeHandle} {target : Value}
    {method : MethodHandle} (found : heap.get? ref = some (.delegate type target method)) :
    later.get? ref = some (.delegate type target method) := by
  rcases evolves ref _ found with same | ⟨_, _, isCell, -⟩
  · exact same
  · cases isCell

theorem Evolves.instance (evolves : heap.Evolves cell later) {type : TypeHandle}
    {fields : Array Value} (other : type ≠ cell)
    (found : heap.get? ref = some (.instance type fields)) :
    later.get? ref = some (.instance type fields) := by
  rcases evolves ref _ found with same | ⟨_, _, isCell, -⟩
  · exact same
  · cases isCell
    exact (other rfl).elim

theorem evolves_setField {before : Value}
    (found : heap.get? ref = some (.instance cell #[before])) (value : Value) :
    heap.Evolves cell (heap.setField ref 0 value) := by
  intro other object isObject
  rw [setField, get?_modify]
  split
  · next same =>
      subst same
      cases found.symm.trans isObject
      exact .inr ⟨before, value, rfl, by rw [found]; rfl⟩
  · exact .inl isObject

end Heap

/-- The class behind a function is not the type of cells. -/
theorem Closure.Layout.ne_cell {closure : Closure} (layout : closure.Layout linkage) :
    layout.owner ≠ linkage.cell := by
  intro same
  obtain ⟨info, isInfo, isOrigin, -⟩ := linkage.built.installed linkage.isCell rfl
  rw [← same, layout.isOwner] at isInfo
  cases isInfo
  cases layout.isDeclared.symm.trans isOrigin

/-- The objects of a function last. -/
theorem Closure.MadeOf.mono {closure : Closure} {heap later : Heap} {object : ObjRef}
    {cells : Param → ObjRef} (made : closure.MadeOf linkage heap object cells)
    (heaps : heap.Evolves linkage.cell later) : closure.MadeOf linkage later object cells := by
  obtain ⟨layout, definition, args, type, target, fields, isDelegate, isType, isObject, isTarget,
    holds⟩ := made.shape
  exact ⟨layout, definition, args, type, target, fields, isDelegate, isType,
    heaps.delegate isObject, heaps.instance layout.ne_cell isTarget, holds⟩

/-- A type of the platform has only plain types of the platform above it. -/
theorem TypeContext.builtin_of_supertypes {lower upper : SourceTy}
    (platform : lower.declared? = none) (above : upper ∈ context.supertypes lower) :
    ∃ builtin, upper = .builtin builtin := by
  cases TypeContext.above_of_mem_supertypes above with
  | base | interface => cases platform
  | array => exact ⟨_, rfl⟩
  | platform above =>
      obtain rfl | ⟨_, -, builtin, -, rfl⟩ := Image.builtin_above above
      · exact ⟨_, rfl⟩
      · exact ⟨_, rfl⟩

theorem TypeContext.builtin_of_ancestors {lower upper : SourceTy}
    (platform : lower.declared? = none) (above : upper ∈ context.ancestors lower) :
    ∃ builtin, upper = .builtin builtin := by
  have reaches := TypeContext.mem_ancestors_iff.mp above
  induction reaches with
  | single below => exact builtin_of_supertypes platform below
  | tail _ below ih =>
      obtain ⟨builtin, rfl⟩ := ih (TypeContext.mem_ancestors_iff.mpr ‹_›)
      exact builtin_of_supertypes rfl below

namespace Represents

variable {linkage : Linkage} {world later : World} {heap after : Heap} {type goal : SourceTy}
variable {datum : Datum} {value : Value}

variable (represents : Represents linkage world heap type datum value)
include represents

/-- A representation lasts. -/
theorem mono (worlds : world <+: later) (heaps : heap.Evolves linkage.cell after) :
    Represents linkage later after type datum value := by
  cases represents with
  | number value => exact .number value
  | truth value => exact .truth value
  | function renders stands typed =>
      refine .function renders ⟨stands.made.mono heaps, fun capture isCapture => ?_⟩ typed
      obtain ⟨location, located, stored⟩ := stands.captured capture isCapture
      obtain ⟨rest, rfl⟩ := worlds
      exact ⟨location, located,
        List.getElem?_append_left (List.getElem?_eq_some_iff.mp stored).1 ▸ stored⟩

/-- No datum is represented by an instance of a value type. -/
theorem ne_struct (ref : ObjRef) :
    value ≠ .struct ref := by
  cases represents with
  | number => simp
  | truth value => simp [Value.ofBool]
  | function => simp

/-- What can be assigned to a variable of a type is represented there as it is. -/
theorem assign (assignable : linkage.typing.isAssignable type goal = true) :
    Represents linkage world heap goal datum value := by
  unfold TypeContext.isAssignable at assignable
  rcases Bool.or_eq_true_iff.mp assignable with same | converts
  · exact beq_iff_eq.mp same ▸ represents
  · obtain ⟨isReference, isAbove⟩ := Bool.and_eq_true_iff.mp converts
    cases represents with
    | number => cases isReference
    | truth => cases isReference
    | function renders stands typed =>
        refine .function renders stands (.inr ?_)
        rcases Bool.or_eq_true_iff.mp isAbove with isObject | isAncestor
        · unfold Ty.isObject at isObject
          split at isObject
          · exact ⟨_, rfl⟩
          · cases isObject
        · refine TypeContext.builtin_of_ancestors ?_ (List.contains_iff_mem.mp isAncestor)
          rcases typed with rfl | ⟨builtin, rfl⟩
          · unfold Closure.delegateType Ty.delegate
            split <;> rfl
          · rfl

end Represents

/-! ## Memory -/

/-- The store of the meaning beside the state of the machine. -/
structure Memory where
  world : World
  data : List Datum
  store : Store

/-- The cells of the machine hold what their locations hold. -/
structure Memory.Fits (linkage : Linkage) (memory : Memory) : Prop where
  length : memory.world.length = memory.data.length
  values : ∀ storage ∈ memory.world, storage.type.isVoid = false
  cells : ∀ (location : Location) type cell, memory.world[location]? = some ⟨type, some cell⟩ →
    ∃ datum value, memory.data[location]? = some datum ∧
      memory.store.heap.get? cell = some (.instance linkage.cell #[value]) ∧
      Represents linkage memory.world memory.store.heap type datum value
  apart : ∀ (location other : Location) type otherType cell,
    memory.world[location]? = some ⟨type, some cell⟩ →
      memory.world[other]? = some ⟨otherType, some cell⟩ → location = other

/-- What a slot of a frame holds: the value of a variable, or a value that stays. -/
inductive Content where
  | located (location : Location)
  | fixed (value : Value)

/-- What is known about the slots of a frame. -/
abbrev Contents := Place → Option Content

namespace Contents

/-- Something is known about one more slot. -/
def add (contents : Contents) (place : Place) (content : Content) : Contents :=
  fun other => if other = place then some content else contents other

/-- Nothing is known about slots that have not been handed out. -/
def Below (contents : Contents) (count : Nat) : Prop :=
  ∀ slot, count ≤ slot → contents (.localSlot slot) = none

theorem add_self (contents : Contents) (place : Place) (content : Content) :
    contents.add place content place = some content :=
  if_pos rfl

theorem add_of_ne (contents : Contents) {place other : Place} (content : Content)
    (differs : other ≠ place) : contents.add place content other = contents other :=
  if_neg differs

theorem Below.mono {contents : Contents} {count later : Nat} (below : contents.Below count)
    (grows : count ≤ later) : contents.Below later :=
  fun slot beyond => below slot (grows.trans beyond)

end Contents

/-- A slot of a frame holds a value. -/
def Frame.Has (linkage : Linkage) (frame : Frame) (heap : Heap) (value : Value) : Place → Prop
  | .argument slot => frame.args[slot]? = some value
  | .localSlot slot => frame.locals[slot]? = some value
  | .receiverField handle => ∃ target type fields field,
      frame.args[0]? = some (.ref target) ∧ heap.get? target = some (.instance type fields) ∧
        type ≠ linkage.cell ∧ linkage.image.field? handle = some field ∧
        fields[field.slot]? = some value

/-- A value is what is known about its slot. -/
def Content.Is (linkage : Linkage) (memory : Memory) (value : Value) : Content → Prop
  | .fixed other => value = other
  | .located location => ∃ type datum, memory.world[location]? = some ⟨type, none⟩ ∧
      memory.data[location]? = some datum ∧
      Represents linkage memory.world memory.store.heap type datum value

/-- The slots of a frame hold what is known about them. -/
structure Frame.Carries (linkage : Linkage) (frame : Frame) (memory : Memory) (contents : Contents) :
    Prop where
  has : ∀ place content, contents place = some content →
    ∃ value, frame.Has linkage memory.store.heap value place ∧ content.Is linkage memory value
  apart : ∀ place other location, contents place = some (.located location) →
    contents other = some (.located location) → place = other
  receiver : ∀ handle content, contents (.receiverField handle) = some content →
    ∃ value receiver, content = .fixed value ∧ contents (.argument 0) = some (.fixed receiver)
  locals : frame.locals.size = frame.body.locals.size

/-- A variable is kept where its binding says. -/
structure Binding.KeptAt (binding : Binding) (world : World) (contents : Contents)
    (location : Location) : Prop where
  boxed : binding.boxed = true → ∃ cell, world[location]? = some ⟨binding.type, some cell⟩ ∧
    contents binding.place = some (.fixed (.ref cell))
  unboxed : binding.boxed = false → world[location]? = some ⟨binding.type, none⟩ ∧
    contents binding.place = some (.located location)

/-- The names that code has bindings for stand for locations that are kept where the bindings
say. -/
def Stands (world : World) (contents : Contents) (types : Scope SourceTy) (env : Scope Location)
    (bindings : Scope Binding) : Prop :=
  ∀ name binding, bindings.get? name = some binding →
    types.get? name = some binding.type ∧
      ∃ location, env.get? name = some location ∧ binding.KeptAt world contents location

/-- Locations only come to be, and those that are kept in slots of other frames do not change. -/
structure Memory.Advances (linkage : Linkage) (contents : Contents) (memory later : Memory) :
    Prop where
  worlds : memory.world <+: later.world
  heaps : memory.store.heap.Evolves linkage.cell later.store.heap
  others : ∀ (location : Location) type, memory.world[location]? = some ⟨type, none⟩ →
    (∀ place, contents place ≠ some (.located location)) →
      later.data[location]? = memory.data[location]?

namespace Memory.Advances

variable {linkage : Linkage} {contents inner : Contents} {memory middle later : Memory}

theorem refl (linkage : Linkage) (contents : Contents) (memory : Memory) :
    memory.Advances linkage contents memory :=
  ⟨List.prefix_refl _, .refl _, fun _ _ _ _ => rfl⟩

theorem world (advances : memory.Advances linkage contents later) {storage : Storage}
    (known : memory.world[location]? = some storage) :
    later.world[location]? = some storage := by
  obtain ⟨rest, isLater⟩ := advances.worlds
  rw [← isLater, List.getElem?_append_left (List.getElem?_eq_some_iff.mp known).1, known]

/-- First some code runs, then code that may know about locations that came to be meanwhile. -/
theorem trans (early : memory.Advances linkage contents middle)
    (late : middle.Advances linkage inner later)
    (fresh : ∀ place location, inner place = some (.located location) →
      contents place = some (.located location) ∨ memory.world.length ≤ location) :
    memory.Advances linkage contents later where
  worlds := early.worlds.trans late.worlds
  heaps := early.heaps.trans late.heaps
  others location type known elsewhere := by
    refine (late.others location type (early.world known) fun place isVariable => ?_).trans
      (early.others location type known elsewhere)
    rcases fresh place location isVariable with isKnown | isNew
    · exact elsewhere place isKnown
    · exact absurd (List.getElem?_eq_some_iff.mp known).1 (Nat.not_lt.mpr isNew)

theorem andThen (early : memory.Advances linkage contents middle)
    (late : middle.Advances linkage contents later) : memory.Advances linkage contents later :=
  early.trans late fun _ _ => .inl

/-- Code of another frame. -/
theorem weaken (advances : memory.Advances linkage (fun _ => none) later) (contents : Contents) :
    memory.Advances linkage contents later :=
  ⟨advances.worlds, advances.heaps, fun location type known _ =>
    advances.others location type known (by simp)⟩

end Memory.Advances

/-- The slots of a frame hold what they held while the code of another frame runs. -/
theorem Frame.Carries.mono {frame : Frame} {memory later : Memory}
    (carries : frame.Carries linkage memory contents)
    (advances : memory.Advances linkage (fun _ => none) later) :
    frame.Carries linkage later contents where
  has place content known := by
    obtain ⟨value, has, is⟩ := carries.has place content known
    refine ⟨value, ?_, ?_⟩
    · cases place with
      | argument slot => exact has
      | localSlot slot => exact has
      | receiverField handle =>
          obtain ⟨target, type, fields, field, isTarget, isObject, other, isField, holds⟩ := has
          exact ⟨target, type, fields, field, isTarget, advances.heaps.instance other isObject, other,
            isField, holds⟩
    · cases content with
      | fixed => exact is
      | located location =>
          obtain ⟨type, datum, isKnown, isDatum, represents⟩ := is
          exact ⟨type, datum, advances.world isKnown,
            (advances.others location type isKnown (by simp)).trans isDatum,
            represents.mono advances.worlds advances.heaps⟩
  apart := carries.apart
  receiver := carries.receiver
  locals := carries.locals

theorem Binding.KeptAt.mono {binding : Binding} {world later : World} {inner : Contents}
    (kept : binding.KeptAt world contents location) (worlds : world <+: later)
    (keeps : ∀ place content, contents place = some content → inner place = some content) :
    binding.KeptAt later inner location := by
  have grows : ∀ {location : Location} {storage}, world[location]? = some storage →
      later[location]? = some storage := by
    obtain ⟨rest, rfl⟩ := worlds
    intro location storage known
    rw [List.getElem?_append_left (List.getElem?_eq_some_iff.mp known).1, known]
  refine ⟨fun isBoxed => ?_, fun isUnboxed => ?_⟩
  · obtain ⟨cell, isStored, isPlace⟩ := kept.boxed isBoxed
    exact ⟨cell, grows isStored, keeps _ _ isPlace⟩
  · obtain ⟨isStored, isPlace⟩ := kept.unboxed isUnboxed
    exact ⟨grows isStored, keeps _ _ isPlace⟩

theorem Stands.mono {world later : World} {inner : Contents} {types : Scope SourceTy}
    {env : Scope Location} {bindings : Scope Binding}
    (stands : Stands world contents types env bindings) (worlds : world <+: later)
    (keeps : ∀ place content, contents place = some content → inner place = some content) :
    Stands later inner types env bindings := by
  intro name binding bound
  obtain ⟨typed, location, located, kept⟩ := stands name binding bound
  exact ⟨typed, location, located, kept.mono worlds keeps⟩

end ClassForge
