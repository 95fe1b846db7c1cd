import ClassForge.Lower.Bodies
import ClassForge.Proofs.Outcome

/-!
# How generating code can fail

`Lower.Ensures` says of an action that generates code what its result is like,
and which faults it can end with instead.  Three kinds of faults are excused: a
refusal by the target, a key that is missing from the build so far, and an
argument that no instruction can name.
-/

namespace ClassForge

variable {α β : Type} {permits : Diagnostic → Prop}
variable {delegate ret content : SourceTy}

/-- Whatever the code so far, the result of an action meets a condition, or the
fault is a permitted one. -/
def Lower.Ensures (permits : Diagnostic → Prop) (action : Lower α)
    (post : α → Prop) : Prop :=
  ∀ emitter, Yields permits (action.run emitter) fun result => post result.1

namespace Lower.Ensures

theorem pure {value : α} {post : α → Prop} (holds : post value) :
    Lower.Ensures permits (pure value) post :=
  fun _ => holds

theorem bind {action : Lower α} {next : α → Lower β} {middle : α → Prop} {post : β → Prop}
    (first : Lower.Ensures permits action middle)
    (second : ∀ value, middle value → Lower.Ensures permits (next value) post) :
    Lower.Ensures permits (action >>= next) post := by
  intro emitter
  rw [StateT.run_bind]
  refine (first emitter).bind ?_
  rintro ⟨value, after⟩ holds
  exact second value holds after

/-- One action after another, the first without a result of interest. -/
theorem andThen {action : Lower α} {next : α → Lower β} {middle : α → Prop} {post : β → Prop}
    (first : Lower.Ensures permits action middle)
    (second : ∀ value, Lower.Ensures permits (next value) post) :
    Lower.Ensures permits (action >>= next) post :=
  first.bind fun value _ => second value

theorem imp {action : Lower α} {post weaker : α → Prop}
    (ensures : Lower.Ensures permits action post)
    (implies : ∀ value, post value → weaker value) :
    Lower.Ensures permits action weaker :=
  fun emitter => (ensures emitter).imp fun result holds => implies result.1 holds

theorem lift {result : Except Diagnostic α} {post : α → Prop}
    (yields : Yields permits result post) :
    Lower.Ensures permits (liftM result) post := by
  intro emitter
  cases result with
  | ok value => exact yields
  | error diagnostic => exact yields

theorem throw {diagnostic : Diagnostic} {post : α → Prop}
    (permitted : permits diagnostic) :
    Lower.Ensures permits (throw diagnostic) post :=
  fun _ => permitted

/-- What an action that ended well ensures. -/
theorem of_run {action : Lower α} {post : α → Prop} {before after : Emitter} {value : α}
    (ensures : Lower.Ensures permits action post)
    (run : action.run before = .ok (value, after)) : post value := by
  have holds := ensures before
  rw [run] at holds
  exact holds

/-- Every action ensures nothing, with no promise about faults. -/
theorem any (action : Lower α) : Lower.Ensures (fun _ => True) action fun _ => True := by
  intro emitter
  cases action.run emitter <;> trivial

/-- What is known of the result apart from the faults can be added. -/
theorem and {action : Lower α} {post other : α → Prop} (ensures : Lower.Ensures permits action post)
    (shape : Lower.Ensures (fun _ => True) action other) :
    Lower.Ensures permits action fun value => post value ∧ other value := by
  intro emitter
  have first := ensures emitter
  have second := shape emitter
  cases result : action.run emitter with
  | ok value =>
      rw [result] at first second
      exact ⟨first, second⟩
  | error diagnostic =>
      rw [result] at first
      exact first

theorem forM {items : List α} {action : α → Lower Unit}
    (each : ∀ item ∈ items, Lower.Ensures permits (action item) fun _ => True) :
    Lower.Ensures permits (items.forM action) fun _ => True := by
  induction items with
  | nil => exact .pure trivial
  | cons item items ih =>
      refine (each item List.mem_cons_self).andThen fun _ => ?_
      exact ih (List.forall_mem_cons.mp each).2

theorem optionForM {item : Option α} {action : α → Lower Unit}
    (each : ∀ value ∈ item, Lower.Ensures permits (action value) fun _ => True) :
    Lower.Ensures permits (item.forM action) fun _ => True := by
  cases item with
  | none => exact .pure trivial
  | some value => exact each value rfl

theorem mapM {items : List α} {action : α → Lower β} {relation : α → β → Prop}
    (each : ∀ item ∈ items, Lower.Ensures permits (action item) (relation item)) :
    Lower.Ensures permits (items.mapM action) (List.Forall₂ relation items) := by
  induction items with
  | nil => exact .pure .nil
  | cons item items ih =>
      rw [List.mapM_cons]
      refine (each item List.mem_cons_self).bind fun value holds => ?_
      refine (ih (List.forall_mem_cons.mp each).2).bind ?_
      exact fun values all => .pure (.cons holds all)

theorem mapM_each {items : List α} {action : α → Lower β}
    (each : ∀ item, Lower.Ensures permits (action item) fun _ => True) :
    Lower.Ensures permits (items.mapM action) fun _ => True := by
  have all : Lower.Ensures permits (items.mapM action)
      (List.Forall₂ (fun _ _ => True) items) := mapM fun item _ => each item
  exact all.imp fun _ _ => trivial

/-! ## Appending to the code -/

theorem emit (instr : Instr) : Lower.Ensures permits (Lower.emit instr) fun _ => True :=
  fun _ => trivial

theorem emitAll (instrs : List Instr) :
    Lower.Ensures permits (Lower.emitAll instrs) fun _ => True :=
  forM fun instr _ => emit instr

theorem label : Lower.Ensures permits Lower.label fun _ => True :=
  fun _ => trivial

theorem beginTry :
    Lower.Ensures permits (discard (modifyGet Emitter.beginTry)) fun _ => True :=
  fun _ => trivial

theorem popValue (type : SourceTy) :
    Lower.Ensures permits (Lower.popValue type) fun _ => True := by
  unfold Lower.popValue
  split
  · exact .pure trivial
  · exact emit _

theorem emitCall (method : MethodHandle) (isVirtual tail : Bool) :
    Lower.Ensures permits (Lower.emitCall method isVirtual tail) fun _ => True := by
  refine (emit _).andThen fun _ => ?_
  split
  · exact emit _
  · exact .pure trivial

end Lower.Ensures

/-! ## Types -/

namespace Ty

variable {κ μ ε : Type}

/-- What is to hold of a generic type may be assumed of its arguments. -/
@[induction_eliminator]
theorem induct {motive : Ty κ → Prop} (builtin : ∀ builtin, motive (.builtin builtin))
    (generic : ∀ definition args, (∀ arg ∈ args, motive arg) → motive (.generic definition args))
    (declared : ∀ key, motive (.declared key))
    (array : ∀ element, motive element → motive (.array element)) : ∀ type, motive type
  | .builtin kind => builtin kind
  | .generic definition args =>
      generic definition args fun arg _ => induct builtin generic declared array arg
  | .declared key => declared key
  | .array element => array element (induct builtin generic declared array element)

theorem mentionsList_eq_flatMap (types : List (Ty κ)) : mentionsList types = types.flatMap mentions := by
  induction types with
  | nil => rfl
  | cons type types ih => rw [mentionsList, List.flatMap_cons, ih]

theorem mem_mentionsList {types : List (Ty κ)} {key : κ} :
    key ∈ mentionsList types ↔ ∃ type ∈ types, key ∈ type.mentions := by
  rw [mentionsList_eq_flatMap, List.mem_flatMap]

theorem mapKeysList_eq_map (label : κ → μ) (types : List (Ty κ)) :
    mapKeysList label types = types.map (mapKeys label) := by
  induction types with
  | nil => rfl
  | cons type types ih => rw [mapKeysList, List.map_cons, ih]

theorem resolveList_eq_mapM (replace : κ → Except ε μ) (types : List (Ty κ)) :
    resolveList replace types = types.mapM (resolve replace) := by
  induction types with
  | nil => rfl
  | cons type types ih =>
      rw [List.mapM_cons, ← ih]
      rfl

/-- The types of a list are resolved one by one. -/
theorem resolveList_eq_ok {replace : κ → Except ε μ} {types : List (Ty κ)}
    {results : List (Ty μ)} : resolveList replace types = .ok results ↔
      List.Forall₂ (fun type result => type.resolve replace = .ok result) types results := by
  rw [resolveList_eq_mapM]
  exact mapM_eq_ok

theorem length_of_resolveList {replace : κ → Except ε μ} {types : List (Ty κ)}
    {results : List (Ty μ)} (done : resolveList replace types = .ok results) :
    results.length = types.length :=
  (resolveList_eq_ok.mp done).length_eq.symm

theorem resolveList_yields {replace : κ → Except Diagnostic μ} {types : List (Ty κ)}
    (each : ∀ type ∈ types, Yields permits (type.resolve replace) fun _ => True) :
    Yields permits (resolveList replace types) fun _ => True := by
  induction types with
  | nil => trivial
  | cons type types ih =>
      obtain ⟨first, rest⟩ := List.forall_mem_cons.mp each
      exact first.bind fun _ _ => (ih rest).bind fun _ _ => trivial

/-- A type resolves when every declared type that it mentions does. -/
theorem resolve_yields {replace : κ → Except Diagnostic μ} (type : Ty κ)
    (each : ∀ key ∈ type.mentions, Yields permits (replace key) fun _ => True) :
    Yields permits (type.resolve replace) fun _ => True := by
  induction type with
  | builtin builtin => trivial
  | generic definition args ih =>
      refine (resolveList_yields fun arg isArg => ih arg isArg fun key mentioned => ?_).bind
        fun _ _ => trivial
      exact each key (mem_mentionsList.mpr ⟨arg, isArg, mentioned⟩)
  | declared key => exact (each key List.mem_cons_self).bind fun _ _ => trivial
  | array element ih => exact (ih each).bind fun _ _ => trivial

end Ty

/-! ## Faults of look-ups -/

/-- A fault that is not a refusal of the target. -/
def Diagnostic.IsOwn (diagnostic : Diagnostic) : Prop :=
  ∀ error, diagnostic ≠ .target error

section Own

variable {resolution : Resolution}

theorem Resolution.lookup_isOwn {α : Type} (key : Key) (view : Resolved → Option α) :
    Yields Diagnostic.IsOwn (resolution.lookup key view) fun _ => True := by
  unfold Resolution.lookup
  split
  · exact nofun
  · split
    · trivial
    · exact nofun

theorem Resolution.runTy_isOwn (type : SourceTy) :
    Yields Diagnostic.IsOwn (resolution.runTy type) fun _ => True :=
  Ty.resolve_yields type fun _ _ => lookup_isOwn _ _

theorem Resolution.runTys_isOwn (types : List SourceTy) :
    Yields Diagnostic.IsOwn (resolution.runTys types) fun _ => True :=
  Ty.resolveList_yields fun type _ => runTy_isOwn type

end Own

/-! ## Excused faults -/

/-- The faults that generating code for an accepted module can end with: refusals
of the target, keys that may be `missing`, and, when a body may be `crowded`, an
argument out of range. -/
inductive Diagnostic.Excused (missing : Key → Prop) (crowded : Prop) :
    Diagnostic → Prop where
  | target (error : ImageError) : Excused missing crowded (.target error)
  | unresolved {key : Key} (absent : missing key) :
      Excused missing crowded (.unresolved key)
  | argument {index : Nat} (tooMany : crowded) :
      Excused missing crowded
        (.internal ("argument index " ++ toString index ++ " out of range"))

/-- A handle is of the kind that a key stands for. -/
def Resolved.Fits : Resolved → Key → Prop
  | type _, .type _ | method _, .method _ | ctor _, .ctor _ | field _, .field _
  | property _, .property _ | completed _, .completed _ => True
  | _, _ => False

/-- A key has a handle of its kind, or has none and may be missing. -/
def Resolution.Supplies (resolution : Resolution) (missing : Key → Prop)
    (key : Key) : Prop :=
  match resolution.get? key with
  | some resolved => resolved.Fits key
  | none => missing key

/-- Every handle is of the kind that its key stands for. -/
def Resolution.Fitting (resolution : Resolution) : Prop :=
  ∀ key resolved, resolution.get? key = some resolved → resolved.Fits key

theorem Resolution.Fitting.supplies {resolution : Resolution} (fitting : resolution.Fitting)
    {missing : Key → Prop} {key : Key}
    (absent : resolution.get? key = none → missing key) : resolution.Supplies missing key := by
  unfold Resolution.Supplies
  cases found : resolution.get? key with
  | none => exact absent found
  | some resolved => exact fitting key resolved found

/-- The keys of all declared types that a type mentions are supplied. -/
def Resolution.SuppliesType (resolution : Resolution) (missing : Key → Prop)
    (type : SourceTy) : Prop :=
  ∀ name ∈ type.mentions, resolution.Supplies missing (.type name)

section Supply

variable {resolution : Resolution} {missing : Key → Prop} {crowded : Prop}

theorem Resolution.lookup_yields {key : Key} {view : Resolved → Option α}
    (supplied : resolution.Supplies missing key)
    (fits : ∀ resolved : Resolved, resolved.Fits key → (view resolved).isSome) :
    Yields (Diagnostic.Excused missing crowded) (resolution.lookup key view) fun _ => True := by
  unfold Resolution.Supplies at supplied
  unfold Resolution.lookup
  cases found : resolution.get? key with
  | none =>
      rw [found] at supplied
      exact .unresolved supplied
  | some resolved =>
      rw [found] at supplied
      obtain ⟨handle, viewed⟩ := Option.isSome_iff_exists.mp (fits resolved supplied)
      simp only [viewed]
      trivial

theorem Resolution.type_yields {name : Name}
    (supplied : resolution.Supplies missing (.type name)) :
    Yields (Diagnostic.Excused missing crowded) (resolution.type name) fun _ => True :=
  lookup_yields supplied fun resolved fits => by cases resolved <;> trivial

theorem Resolution.method_yields {key : MethodKey}
    (supplied : resolution.Supplies missing (.method key)) :
    Yields (Diagnostic.Excused missing crowded) (resolution.method key) fun _ => True :=
  lookup_yields supplied fun resolved fits => by cases resolved <;> trivial

theorem Resolution.ctor_yields {key : CtorKey}
    (supplied : resolution.Supplies missing (.ctor key)) :
    Yields (Diagnostic.Excused missing crowded) (resolution.ctor key) fun _ => True :=
  lookup_yields supplied fun resolved fits => by cases resolved <;> trivial

theorem Resolution.field_yields {key : FieldKey}
    (supplied : resolution.Supplies missing (.field key)) :
    Yields (Diagnostic.Excused missing crowded) (resolution.field key) fun _ => True :=
  lookup_yields supplied fun resolved fits => by cases resolved <;> trivial

/-- A type whose declared types are supplied can be resolved. -/
theorem resolve_yields (type : SourceTy)
    (supplied : resolution.SuppliesType missing type) :
    Yields (Diagnostic.Excused missing crowded) (type.resolve resolution.type)
      fun _ => True :=
  Ty.resolve_yields type fun name member => Resolution.type_yields (supplied name member)

theorem resolveList_yields (types : List SourceTy)
    (supplied : ∀ type ∈ types, resolution.SuppliesType missing type) :
    Yields (Diagnostic.Excused missing crowded)
      (Ty.resolveList resolution.type types) fun _ => True :=
  Ty.resolveList_yields fun type isType => resolve_yields type (supplied type isType)

end Supply

/-- A function type mentions what its signature mentions. -/
theorem Ty.mem_mentions_of_signature? {params : List SourceTy}
    (signature : delegate.signature? = some (params, ret)) {param : SourceTy}
    (member : param ∈ params) {name : Name} (mentioned : name ∈ param.mentions)
    : name ∈ delegate.mentions := by
  cases delegate with
  | generic definition args =>
      rw [Ty.mentions, Ty.mem_mentionsList]
      refine ⟨param, ?_, mentioned⟩
      simp only [Ty.signature?] at signature
      split at signature
      · obtain ⟨last, -, same⟩ := Option.map_eq_some_iff.mp signature
        obtain ⟨rfl, -⟩ := Prod.mk.inj same
        exact List.dropLast_subset args member
      · split at signature
        · cases signature
          exact member
        · cases signature
  | _ => simp [Ty.signature?] at signature

namespace Resolution

variable {resolution : Resolution} {missing : Key → Prop}

theorem suppliesType_cell :
    resolution.SuppliesType missing (.cell content) ↔
      resolution.SuppliesType missing content := by
  simp [SuppliesType, Ty.cell, Ty.mentions, Ty.mentionsList]

theorem suppliesType_signature {params : List SourceTy}
    (signature : delegate.signature? = some (params, ret))
    (supplied : resolution.SuppliesType missing delegate) (param : SourceTy)
    (member : param ∈ params) : resolution.SuppliesType missing param :=
  fun name mentioned => supplied name (Ty.mem_mentions_of_signature? signature member mentioned)

end Resolution

/-! ## Handles -/

namespace LowerContext

variable {context : LowerContext} {missing : Key → Prop} {crowded : Prop}

theorem runTy_yields {type : SourceTy}
    (supplied : context.resolution.SuppliesType missing type) :
    Yields (Diagnostic.Excused missing crowded) (context.runTy type) fun _ => True :=
  resolve_yields type supplied

theorem runTys_yields {types : List SourceTy}
    (supplied : ∀ type ∈ types, context.resolution.SuppliesType missing type) :
    Yields (Diagnostic.Excused missing crowded) (context.runTys types)
      fun _ => True :=
  resolveList_yields types supplied

end LowerContext

namespace Lower

variable {missing : Key → Prop} {crowded : Prop}

theorem ofEmit_ensures (action : Emit α) :
    Ensures (Diagnostic.Excused missing crowded) (ofEmit action) fun _ => True := by
  intro emitter
  simp only [ofEmit, StateT.run]
  cases action.run emitter with
  | ok value after => trivial
  | error error after => exact Diagnostic.Excused.target error

theorem mark_ensures (label : Label) :
    Ensures (Diagnostic.Excused missing crowded) (mark label) fun _ => True :=
  ofEmit_ensures _

theorem ofImage_ensures (result : Except ImageError α) :
    Ensures (Diagnostic.Excused missing crowded) (ofImage result) fun _ => True := by
  cases result with
  | ok value => exact .pure trivial
  | error error => exact .throw (.target error)

end Lower

namespace LowerContext

open Lower

variable {context : LowerContext} {missing : Key → Prop} {crowded : Prop}
variable {params : List SourceTy} {type : SourceTy}

theorem platformMethod_ensures {owner : SourceTy}
    (ownerSupplied : context.resolution.SuppliesType missing owner)
    (paramsSupplied : ∀ param ∈ params, context.resolution.SuppliesType missing param)
    (name : Name) (isInstance : Bool) :
    Ensures (Diagnostic.Excused missing crowded)
      (context.platformMethod owner name isInstance params) fun _ => True := by
  refine (Ensures.lift (runTy_yields ownerSupplied)).andThen fun _ => ?_
  refine (Ensures.lift (runTys_yields paramsSupplied)).andThen fun _ => ?_
  exact ofImage_ensures _

theorem platformCtor_ensures {owner : SourceTy}
    (ownerSupplied : context.resolution.SuppliesType missing owner)
    (paramsSupplied : ∀ param ∈ params, context.resolution.SuppliesType missing param) :
    Ensures (Diagnostic.Excused missing crowded) (context.platformCtor owner params)
      fun _ => True := by
  refine (Ensures.lift (runTy_yields ownerSupplied)).andThen fun _ => ?_
  refine (Ensures.lift (runTys_yields paramsSupplied)).andThen fun _ => ?_
  exact ofImage_ensures _

theorem delegateCtor_ensures (supplied : context.resolution.SuppliesType missing delegate) :
    Ensures (Diagnostic.Excused missing crowded) (context.delegateCtor delegate)
      fun _ => True := by
  refine platformCtor_ensures supplied ?_
  intro param member name mentioned
  rcases List.mem_cons.mp member with rfl | member
  · simp [Ty.object, Ty.mentions] at mentioned
  · obtain rfl := List.mem_singleton.mp member
    simp [Ty.intPtr, Ty.prim, Ty.mentions] at mentioned

theorem delegateInvoke_ensures (signature : delegate.signature? = some (params, ret))
    (supplied : context.resolution.SuppliesType missing delegate) :
    Ensures (Diagnostic.Excused missing crowded) (context.delegateInvoke delegate)
      fun _ => True := by
  unfold delegateInvoke
  rw [signature]
  exact platformMethod_ensures supplied
    (Resolution.suppliesType_signature signature supplied) _ _

/-! ## Storage -/

theorem declareLocal_ensures (supplied : context.resolution.SuppliesType missing type) :
    Ensures (Diagnostic.Excused missing crowded) (context.declareLocal type)
      fun _ => True :=
  (Ensures.lift (runTy_yields supplied)).andThen fun _ => ofEmit_ensures _

theorem storeTop_ensures (supplied : context.resolution.SuppliesType missing type) :
    Ensures (Diagnostic.Excused missing crowded) (context.storeTop type)
      fun _ => True := by
  refine (declareLocal_ensures supplied).andThen fun _ => ?_
  exact (Ensures.emit _).andThen fun _ => .pure trivial

theorem cellField_ensures (supplied : context.resolution.SuppliesType missing content) :
    Ensures (Diagnostic.Excused missing crowded) (context.cellField content)
      fun _ => True := by
  have cell := Resolution.suppliesType_cell.mpr supplied
  exact (Ensures.lift (runTy_yields cell)).andThen fun _ => ofImage_ensures _

/-- A new cell holds a variable of the type of its content. -/
theorem newCell_shape (content : SourceTy) (filled : Bool) :
    Ensures (fun _ => True) (context.newCell content filled) fun binding =>
      binding.type = content ∧ binding.boxed = true := by
  refine (Ensures.any _).andThen fun _ => ?_
  refine (Ensures.any _).andThen fun _ => ?_
  exact (Ensures.any _).andThen fun _ => .pure ⟨rfl, rfl⟩

theorem bindTop_shape (type : SourceTy) (boxed : Bool) :
    Ensures (fun _ => True) (context.bindTop type boxed) fun binding =>
      binding.type = type ∧ binding.boxed = boxed := by
  unfold bindTop
  cases boxed with
  | false => exact (Ensures.any _).andThen fun _ => .pure ⟨rfl, rfl⟩
  | true => exact newCell_shape type true

theorem bindFresh_shape (type : SourceTy) (boxed : Bool) :
    Ensures (fun _ => True) (context.bindFresh type boxed) fun binding =>
      binding.type = type ∧ binding.boxed = boxed := by
  unfold bindFresh
  cases boxed with
  | false => exact (Ensures.any _).andThen fun _ => .pure ⟨rfl, rfl⟩
  | true => exact newCell_shape type false

theorem newCell_ensures (supplied : context.resolution.SuppliesType missing content)
    (filled : Bool) :
    Ensures (Diagnostic.Excused missing crowded) (context.newCell content filled)
      fun _ => True := by
  have cell := Resolution.suppliesType_cell.mpr supplied
  refine (platformCtor_ensures cell ?_).andThen fun _ => ?_
  · intro param member
    cases filled with
    | false => simp at member
    | true => exact List.mem_singleton.mp member ▸ supplied
  · refine (Ensures.emit _).andThen fun _ => ?_
    exact (storeTop_ensures cell).andThen fun _ => .pure trivial

theorem bindTop_ensures (supplied : context.resolution.SuppliesType missing type) (boxed : Bool) :
    Ensures (Diagnostic.Excused missing crowded) (context.bindTop type boxed)
      fun binding => binding.type = type ∧ binding.boxed = boxed := by
  suffices Ensures (Diagnostic.Excused missing crowded) (context.bindTop type boxed)
      fun _ => True from
    (this.and (bindTop_shape type boxed)).imp fun _ both => both.2
  unfold bindTop
  split
  · exact newCell_ensures supplied true
  · exact (storeTop_ensures supplied).andThen fun _ => .pure trivial

theorem bindFresh_ensures (supplied : context.resolution.SuppliesType missing type) (boxed : Bool) :
    Ensures (Diagnostic.Excused missing crowded) (context.bindFresh type boxed)
      fun binding => binding.type = type ∧ binding.boxed = boxed := by
  suffices Ensures (Diagnostic.Excused missing crowded) (context.bindFresh type boxed)
      fun _ => True from
    (this.and (bindFresh_shape type boxed)).imp fun _ both => both.2
  unfold bindFresh
  split
  · exact newCell_ensures supplied false
  · exact (declareLocal_ensures supplied).andThen fun _ => .pure trivial

theorem load_ensures (place : Place) :
    Ensures permits place.load fun _ => True := by
  cases place with
  | argument slot => exact .emit _
  | localSlot slot => exact .emit _
  | receiverField field => exact .emitAll _

theorem fetch_ensures {binding : Binding}
    (supplied : context.resolution.SuppliesType missing binding.type) :
    Ensures (Diagnostic.Excused missing crowded) (context.fetch binding)
      fun _ => True := by
  refine (load_ensures _).andThen fun _ => ?_
  split
  · exact (cellField_ensures supplied).andThen fun _ => .emit _
  · exact .pure trivial

theorem store_ensures {binding : Binding} {value : Lower Unit}
    (supplied : context.resolution.SuppliesType missing binding.type)
    (valueEnsures : Ensures (Diagnostic.Excused missing crowded) value fun _ => True) :
    Ensures (Diagnostic.Excused missing crowded) (context.store binding value)
      fun _ => True := by
  unfold store
  split
  · refine (load_ensures _).andThen fun _ => valueEnsures.andThen fun _ => ?_
    exact (cellField_ensures supplied).andThen fun _ => .emit _
  · cases binding.place with
    | argument slot => exact valueEnsures.andThen fun _ => .emit _
    | localSlot slot => exact valueEnsures.andThen fun _ => .emit _
    | receiverField field =>
        exact (Ensures.emit _).andThen fun _ => valueEnsures.andThen fun _ => .emit _

end LowerContext

end ClassForge
