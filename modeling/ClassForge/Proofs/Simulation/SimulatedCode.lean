import ClassForge.Proofs.Code.MadeFunctions

/-!
# Code that simulates an expression

The code of an expression simulates its meaning when a frame that runs it gets behind it with the
value on the stack, or, in tail position, ends with the value.  Either way the memory has become
that of the meaning.
-/

namespace ClassForge

open Machine

/-! ## What code leaves -/

/-- What the code of an expression leaves on the stack. -/
inductive Pushed (linkage : Linkage) (memory : Memory) (type : SourceTy) (datum : Datum) :
    List Value → Prop where
  | nothing (isVoid : type.isVoid = true) : Pushed linkage memory type datum []
  | value {value : Value} (isValue : type.isVoid = false)
      (represents : Represents linkage memory.world memory.store.heap type datum value) :
      Pushed linkage memory type datum [value]

theorem Pushed.exists_value {linkage : Linkage} {memory : Memory} {type : SourceTy} {datum : Datum}
    {values : List Value} (pushed : Pushed linkage memory type datum values)
    (isValue : type.isVoid = false) :
    ∃ value, values = [value] ∧
      Represents linkage memory.world memory.store.heap type datum value := by
  cases pushed with
  | nothing isVoid => cases isVoid.symm.trans isValue
  | value _ represents => exact ⟨_, rfl, represents⟩

/-- Values represent data in variables of some types. -/
inductive RepresentsAll (linkage : Linkage) (world : World) (heap : Heap) :
    List SourceTy → List Datum → List Value → Prop where
  | nil : RepresentsAll linkage world heap [] [] []
  | cons {type : SourceTy} {datum : Datum} {value : Value} {types : List SourceTy}
      {data : List Datum} {values : List Value}
      (first : Represents linkage world heap type datum value)
      (rest : RepresentsAll linkage world heap types data values) :
      RepresentsAll linkage world heap (type :: types) (datum :: data) (value :: values)

namespace RepresentsAll

variable {linkage : Linkage} {world later : World} {heap after : Heap} {types goals : List SourceTy}
variable {data : List Datum} {values : List Value}

section

variable (all : RepresentsAll linkage world heap types data values)
include all

theorem mono (worlds : world <+: later) (heaps : heap.Evolves linkage.cell after) :
    RepresentsAll linkage later after types data values := by
  induction all with
  | nil => exact .nil
  | cons first _ ih => exact .cons (first.mono worlds heaps) ih

theorem length :
    values.length = types.length := by
  induction all with
  | nil => rfl
  | cons _ _ ih => exact congrArg Nat.succ ih

theorem own :
    ∀ value ∈ values, ∀ ref, value ≠ .struct ref := by
  induction all with
  | nil => nofun
  | cons first _ ih => exact List.forall_mem_cons.mpr ⟨first.ne_struct, ih⟩

end

theorem assign {cores : List Core}
    (all : RepresentsAll linkage world heap (cores.map Core.type) data values)
    (assignable : List.Forall₂ (fun (core : Core) goal =>
      linkage.typing.isAssignable core.type goal = true) cores goals) :
    RepresentsAll linkage world heap goals data values := by
  induction assignable generalizing data values with
  | nil => exact all
  | cons fits _ ih =>
      cases all with
      | cons first rest => exact .cons (first.assign fits) (ih rest)

theorem get {type : SourceTy} {datum : Datum} {index : Nat}
    (all : RepresentsAll linkage world heap types data values) (isType : types[index]? = some type)
    (isDatum : data[index]? = some datum) :
    ∃ value, values[index]? = some value ∧ Represents linkage world heap type datum value := by
  induction all generalizing index with
  | nil => cases isType
  | cons first _ ih =>
      cases index with
      | zero =>
          cases isType
          cases isDatum
          exact ⟨_, rfl, first⟩
      | succ index => exact ih isType isDatum

end RepresentsAll

/-! ## Situations of expressions -/

/-- The code of an expression can run from here on: its names stand for locations that are kept
where it looks for them. -/
structure Situation.Ready (linkage : Linkage) (context : LowerContext) (seat : Seat)
    (types : Scope SourceTy) (env : Scope Location) (bindings : Scope Binding) (emitter : Emitter)
    (now : Situation) : Prop where
  admits : linkage.Admits context
  isMethod : seat.isCtor = false
  sound : now.Sound linkage emitter
  stands : Stands now.memory.world now.contents types env bindings

/-- The frame ends with a value. -/
structure Situation.Ends (linkage : Linkage) (now : Situation) (type : SourceTy) (datum : Datum)
    (data : List Datum) (value : Value) (memory : Memory) : Prop where
  fits : memory.Fits linkage
  advances : now.memory.Advances linkage now.contents memory
  data : memory.data = data
  represents : type.isVoid = false →
    Represents linkage memory.world memory.store.heap type datum value

namespace Situation

variable {linkage : Linkage} {context : LowerContext} {seat : Seat} {types : Scope SourceTy}
variable {env : Scope Location} {bindings : Scope Binding} {before after : Emitter}
variable {now later : Situation} {type : SourceTy} {datum : Datum} {data last : List Datum}
variable {value : Value} {memory : Memory}

theorem Ready.resume (ready : now.Ready linkage context seat types env bindings before)
    (resumes : now.Resumes linkage later data) (grows : before.locals.size ≤ after.locals.size) :
    later.Ready linkage context seat types env bindings after where
  admits := ready.admits
  isMethod := ready.isMethod
  sound := resumes.sound ready.sound grows
  stands := resumes.toLeads.stands ready.stands

/-- Code that writes nothing but labels and instructions comes first. -/
theorem Ready.mono (ready : now.Ready linkage context seat types env bindings before)
    (grows : before.locals.size ≤ after.locals.size) :
    now.Ready linkage context seat types env bindings after where
  admits := ready.admits
  isMethod := ready.isMethod
  sound := ready.sound.leads.sound ready.sound.unpinned (ready.sound.below.mono grows)
  stands := ready.stands

theorem Leads.ends (leads : now.Leads linkage later)
    (ends : later.Ends linkage type datum data value memory) :
    now.Ends linkage type datum data value memory where
  fits := ends.fits
  advances := leads.advances.trans ends.advances leads.fresh
  data := ends.data
  represents := ends.represents

/-- What was known in between is forgotten. -/
theorem Leads.resumes (leads : now.Leads linkage later) {final : Situation}
    (sound : now.Sound linkage before) (resumes : later.Resumes linkage final data) :
    now.Resumes linkage (final.limitTo now) data :=
  ⟨(leads.trans resumes.toLeads).forget sound, rfl, resumes.data⟩

end Situation

/-! ## Simulation -/

/-- What is known about the functions of an expression. -/
structure Core.Supported (linkage : Linkage) (core : Core) : Prop where
  furnished : linkage.Furnishes core
  values : core.HoldsValues

theorem Core.Supported.part {linkage : Linkage} {core part : Core}
    (supported : core.Supported linkage) (isPart : part ∈ core.parts) : part.Supported linkage where
  furnished node isNode := supported.furnished node (mem_preorder_of_mem_parts isPart isNode)
  values := {
    binders := fun node isNode =>
      supported.values.binders node (mem_preorder_of_mem_parts isPart isNode)
    loops := fun id function vars ret captures body isNode =>
      supported.values.loops id function vars ret captures body
        (mem_preorder_of_mem_parts isPart isNode) }

/-- The code of a checked expression simulates it: if the expression has a value, then code gets
behind it with that value or ends the frame with it. -/
def Core.Simulates (linkage : Linkage) (limit : Nat) (types : Scope SourceTy) (core : Core)
    (meaning : Scope Location → Evaluation Datum) : Prop :=
  ∀ {context : LowerContext} {seat : Seat} {tail : Bool} {env : Scope Location}
    {bindings : Scope Binding} {before after : Emitter} {now : Situation} {datum : Datum}
    {data : List Datum} {stack : List Value} {post : Config → Prop},
    now.Ready linkage context seat types env bindings before →
    (core.lower context bindings tail).Writes before () after → after.PlacedIn now.frame.body →
    (meaning env).run now.memory.data = some (datum, data) →
    (∀ later values, now.Resumes linkage later data → Pushed linkage later.memory core.type datum values →
      Arrives linkage.image limit (later.config seat after.position (values ++ stack)) post) →
    (tail = true → ∀ value memory, now.Ends linkage core.type datum data value memory →
      Arrives linkage.image limit ⟨.deliver value, seat.levels, seat.room, memory.store⟩ post) →
    Arrives linkage.image limit (now.config seat before.position stack) post

/-- The code of every checked expression simulates it, as far as evaluation goes that deep. -/
def Expr.Simulated (linkage : Linkage) (limit fuel : Nat) : Prop :=
  ∀ {expr : Expr} {core : Core} {types : Scope SourceTy}, expr.Checks linkage.typing types core →
    core.Supported linkage → core.Simulates linkage limit types (expr.eval fuel)

end ClassForge
