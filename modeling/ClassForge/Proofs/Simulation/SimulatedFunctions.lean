import ClassForge.Proofs.Simulation.SimulatedBindings
import ClassForge.Proofs.Simulation.SimulatedCalls

/-!
# Functions that simulate

A function captures the cells of the variables around it.  The function of a loop also captures its
own variable, whose cell is there before the function is.
-/

namespace ClassForge

open Machine

/-! ## Captured variables -/

section Captures

variable {linkage : Linkage} {world : World} {contents : Contents} {types : Scope SourceTy}
variable {env : Scope Location} {bindings : Scope Binding} {captures : List Param}
variable {cells : Param → ObjRef}

/-- The slot of a variable in a cell holds the cell. -/
theorem Stands.boxes (stands : Stands world contents types env bindings) (name : Name)
    (binding : Binding) (bound : bindings.get? name = some binding)
    (isBoxed : binding.boxed = true) :
    ∃ cell, contents binding.place = some (.fixed (.ref cell)) := by
  obtain ⟨-, location, -, kept⟩ := stands name binding bound
  obtain ⟨cell, -, isPlace⟩ := kept.boxed isBoxed
  exact ⟨cell, isPlace⟩

/-- The cells that code finds are those of the locations that the names stand for. -/
theorem Stands.captured (stands : Stands world contents types env bindings)
    (areCells : Closure.Cells contents bindings captures cells)
    (typed : ∀ capture ∈ captures, types.get? capture.name = some capture.type) :
    ∀ capture ∈ captures, ∃ location, env.get? capture.name = some location ∧
      world[location]? = some ⟨capture.type, some (cells capture)⟩ := by
  intro capture isCapture
  obtain ⟨binding, found, isBoxed, isCell⟩ := areCells capture isCapture
  obtain ⟨isType, location, located, kept⟩ := stands capture.name binding found
  obtain ⟨cell, isStored, isPlace⟩ := kept.boxed isBoxed
  have same := Option.some.inj (isType.symm.trans (typed capture isCapture))
  cases isPlace.symm.trans isCell
  exact ⟨location, located, same ▸ isStored⟩

end Captures

/-- Objects have been made. -/
theorem Situation.Sound.withStore {linkage : Linkage} {now : Situation} {emitter : Emitter}
    {store : Store} (sound : now.Sound linkage emitter)
    (retains : now.memory.store.heap.Retains store.heap) :
    now.Leads linkage (now.withMemory (now.memory.withStore store)) where
  body := rfl
  fits := sound.fits.withStore retains
  carries := sound.carries.mono (Memory.advances_withStore retains _)
  advances := Memory.advances_withStore retains _
  keeps _ _ := id
  fresh _ _ := .inl

namespace Core

variable {linkage : Linkage} {limit : Nat} {types : Scope SourceTy}

theorem simulates_lambda {id : NodeId} {params : List Binder} {captures : List Param} {body : Core}
    {names : List Name} {expr : Expr}
    (layout : (Closure.ofLambda linkage.host id params captures body).Layout linkage)
    (renders : (Closure.ofLambda linkage.host id params captures body).Renders linkage types names
      expr true) :
    (lambda id params captures body).Simulates linkage limit types fun env =>
      return .function names expr true env := by
  intro context seat tail env bindings before after now datum data stack post ready written placed
    evaluated falls _
  obtain ⟨rfl, rfl⟩ := Evaluation.run_pure_eq_some.mp evaluated
  change (context.lowerClosure (.ofLambda context.host id params captures body) bindings).Writes
    before () after at written
  rw [ready.admits.host] at written
  refine Situation.arrives_lowerClosure layout ready.admits ready.sound.carries ready.stands.boxes
    written placed fun cells object heap areCells retains made => ?_
  exact falls (now.withMemory (now.memory.withStore { now.memory.store with heap })) [.ref object]
    ⟨ready.sound.withStore retains, rfl, rfl⟩ (.value (Ty.isVoid_delegate _ _)
      (.function renders ⟨made, ready.stands.captured areCells renders.captured⟩ (.inl rfl)))

end Core

/-! ## The function of a loop -/

namespace Situation

variable {linkage : Linkage} {limit : Nat} {types : Scope SourceTy} {context : LowerContext}
variable {seat : Seat} {env : Scope Location} {bindings : Scope Binding}
variable {before middle after : Emitter} {now : Situation} {stack : List Value}
variable {post : Config → Prop} {closure : Closure} {names : List Name} {body : Expr}
variable {returns : Bool} {function : Binder} {binding : Binding} {slot : Nat}

section Functions

variable (layout : closure.Layout linkage)
    (ready : now.Ready linkage context seat types env bindings before)
    (renders : closure.Renders linkage (types.bind function.name function.type) names body returns)
    (typed : function.type = closure.delegateType)
include layout ready renders typed

/-- The function of a loop that no boundary captures is stored in a slot. -/
theorem arrives_bindFunctionSlot
    (declared : (context.declareLocal function.type).Writes before slot middle)
    (stores : (context.store ⟨function.type, .localSlot slot, false⟩
      (context.lowerClosure closure (bindings.bind function.name
        ⟨function.type, .localSlot slot, false⟩))).Writes middle () after)
    (placed : after.PlacedIn now.frame.body)
    (rest : ∀ later, now.Declares linkage after later ⟨function.type, .localSlot slot, false⟩
      function.type (.function names body returns
        (env.bind function.name now.memory.data.length)) →
        Arrives linkage.image limit (later.config seat after.position stack) post) :
    Arrives linkage.image limit (now.config seat before.position stack) post := by
  have isValue : function.type.isVoid = false := typed ▸ Ty.isVoid_delegate _ _
  obtain ⟨rfl, next, position⟩ := writes_declareLocal declared
  have free := ready.sound.below before.locals.size (Nat.le_refl _)
  obtain ⟨_, last, makes, written⟩ := Lower.writes_bind.mp stores
  obtain rfl := Lower.writes_emit.mp written
  have grows := (context.lowerClosure_adds _ _ _ _ _ makes).locals
  have within : before.locals.size < now.frame.locals.size := by
    rw [ready.sound.carries.locals]
    exact Nat.lt_of_lt_of_le (next ▸ Nat.lt_succ_self _) (grows.trans placed.before_emit.locals)
  -- The location of the function is where its slot is.
  have keeps : ∀ place content, now.contents place = some content →
      now.contents.add (.localSlot before.locals.size) (.located now.memory.world.length) place =
        some content := by
    intro place content known
    rw [Contents.add_of_ne _ _ ?_, known]
    rintro rfl
    cases free.symm.trans known
  have stands : Stands (now.memory.world ++ [⟨function.type, none⟩])
      (now.contents.add (.localSlot before.locals.size) (.located now.memory.world.length))
      (types.bind function.name function.type) (env.bind function.name now.memory.world.length)
      (bindings.bind function.name ⟨function.type, .localSlot before.locals.size, false⟩) :=
    (ready.stands.mono (List.prefix_append _ _) keeps).bind function.name
      ⟨nofun, fun _ => ⟨List.getElem?_concat_length .., Contents.add_self _ _ _⟩⟩
  have boxes : ∀ name binding, (bindings.bind function.name
      ⟨function.type, .localSlot before.locals.size, false⟩).get? name = some binding →
      binding.boxed = true → ∃ cell, now.contents binding.place = some (.fixed (.ref cell)) := by
    intro name binding bound isBoxed
    rw [Scope.get?_bind] at bound
    split at bound
    · cases bound
      cases isBoxed
    · exact ready.stands.boxes name binding bound isBoxed
  change Arrives _ _ (seat.config now.frame before.position stack now.memory.store) post
  rw [← position]
  refine arrives_lowerClosure layout ready.admits ready.sound.carries boxes makes
    placed.before_emit fun cells object heap areCells retains made => ?_
  refine Seat.arrives_storeLocal placed.last within (ready.sound.unpinned.slot _) (by simp) ?_
  rw [← Emitter.position_emit _ (.storeLocal before.locals.size)]
  have areCells : Closure.Cells _ _ closure.captures cells := fun capture isCapture =>
    (areCells capture isCapture).imp fun _ => And.imp_right (And.imp_right (keeps _ _))
  have represents : Represents linkage (now.memory.world ++ [⟨function.type, none⟩]) heap
      function.type (.function names body returns (env.bind function.name now.memory.world.length))
      (.ref object) :=
    .function renders ⟨made, stands.captured areCells renders.captured⟩ (.inl typed)
  have early : now.Leads linkage
      (now.withMemory (now.memory.withStore { now.memory.store with heap })) :=
    ready.sound.withStore retains
  have sound := early.sound ready.sound.unpinned ready.sound.below
  have leads : now.Leads linkage (now.withMemory (now.memory.declare function.type none
      (.function names body returns (env.bind function.name now.memory.world.length))
      { now.memory.store with heap })) :=
    early.trans (sound.extend (.refl _) (fun _ _ _ _ => ⟨nofun, rfl⟩) isValue represents nofun)
  have isDatum := (Memory.getElem?_declare_self ready.sound.fits function.type none
    (.function names body returns (env.bind function.name now.memory.world.length))
    { now.memory.store with heap }).2
  rw [← ready.sound.fits.length] at rest
  refine rest _ {
    toLeads := leads.put (.located now.memory.world.length) free within
      ⟨function.type, _, List.getElem?_concat_length .., isDatum, represents⟩ ?_
    below := (below_put ready.sound.below next _).mono grows
    data := rfl
    args := rfl
    others := fun _ => Contents.add_of_ne _ _
    type := rfl
    kept := ⟨nofun, fun _ => ?_⟩ }
  · rintro _ ⟨⟩
    exact ⟨Nat.le_refl _, ready.sound.carries.not_located (Nat.le_refl _)⟩
  · rw [← ready.sound.fits.length]
    exact ⟨List.getElem?_concat_length .., Contents.add_self _ _ _⟩

/-- The function of a loop that a boundary captures is stored in a cell, which it may hold itself. -/
theorem arrives_bindFunctionCell
    (binds : (context.newCell function.type false).Writes before binding middle)
    (stores : (context.store binding
      (context.lowerClosure closure (bindings.bind function.name binding))).Writes middle () after)
    (placed : after.PlacedIn now.frame.body)
    (rest : ∀ later, now.Declares linkage after later binding function.type
      (.function names body returns (env.bind function.name now.memory.data.length)) →
        Arrives linkage.image limit (later.config seat after.position stack) post) :
    Arrives linkage.image limit (now.config seat before.position stack) post := by
  have isValue : function.type.isVoid = false := typed ▸ Ty.isVoid_delegate _ _
  have free := ready.sound.below before.locals.size (Nat.le_refl _)
  have addsStore := context.store_adds binding
    (context.lowerClosure_adds closure (bindings.bind function.name binding)) _ _ _ stores
  refine @arrives_newCell _ _ _ _ _ _ _ _ .null _ _ false _ _ ready.admits ready.sound.unpinned
    ready.sound.carries.locals binds (placed.of_precedes addsStore) (by simp)
    fun isBinding next within => ?_
  subst isBinding
  let cell : ObjRef := ⟨now.memory.store.heap.size⟩
  have retainsCell : now.memory.store.heap.Retains (linkage.withCell now.memory.store .null).heap :=
    Heap.retains_alloc _ _
  let opened := (now.withMemory
    (now.memory.withStore (linkage.withCell now.memory.store .null))).put before.locals.size
      (.ref cell) (.fixed (.ref cell))
  have early : now.Leads linkage opened :=
    (ready.sound.withStore retainsCell).put (.fixed (.ref cell)) free within rfl nofun
  have below := below_put ready.sound.below next (.fixed (.ref cell))
  have isOpened : opened.Sound linkage middle := early.sound ready.sound.unpinned below
  have isHeld : opened.frame.Has linkage opened.memory.store.heap (.ref cell)
      (.localSlot before.locals.size) := Array.getElem?_setIfInBounds_self_of_lt within
  have stands : Stands (now.memory.world ++ [⟨function.type, some cell⟩]) opened.contents
      (types.bind function.name function.type) (env.bind function.name now.memory.world.length)
      (bindings.bind function.name ⟨function.type, .localSlot before.locals.size, true⟩) :=
    (ready.stands.mono (List.prefix_append _ _) early.keeps).bind function.name
      ⟨fun _ => ⟨cell, List.getElem?_concat_length .., Contents.add_self _ _ _⟩, nofun⟩
  obtain ⟨_, first, loads, written⟩ := Lower.writes_bind.mp stores
  obtain ⟨_, second, makes, fills⟩ := Lower.writes_bind.mp written
  obtain ⟨field, last, found, emits⟩ := Lower.writes_bind.mp fills
  obtain ⟨rfl, isField⟩ := ready.admits.writes_cellField found
  obtain rfl := Lower.writes_emit.mp emits
  have placedMade := placed.before_emit
  change Arrives _ _ (opened.config seat middle.position stack) post
  refine arrives_load isHeld loads
    (placedMade.of_precedes (context.lowerClosure_adds _ _ _ _ _ makes)) ?_
  refine arrives_lowerClosure layout ready.admits isOpened.carries stands.boxes makes placedMade
    fun cells object heap areCells retains made => ?_
  have isCell : heap.get? cell = some (.instance linkage.cell #[.null]) :=
    retains _ _ (Heap.get?_alloc_self _ _)
  refine Seat.arrives_storeField placed.last isField isCell Nat.zero_lt_one (by simp) ?_
  rw [← Emitter.position_emit]
  have evolves : heap.Evolves linkage.cell (heap.setField cell 0 (.ref object)) :=
    Heap.evolves_setField isCell _
  have represents : Represents linkage (now.memory.world ++ [⟨function.type, some cell⟩])
      (heap.setField cell 0 (.ref object)) function.type
      (.function names body returns (env.bind function.name now.memory.world.length))
      (.ref object) :=
    .function renders ⟨made.mono evolves, stands.captured areCells renders.captured⟩ (.inl typed)
  have between : now.Leads linkage
      (opened.withMemory (opened.memory.withStore { opened.memory.store with heap })) :=
    early.trans (isOpened.withStore retains)
  have keeps : ∀ (location : Location) type ref,
      now.memory.world[location]? = some ⟨type, some ref⟩ →
        some cell ≠ some ref ∧ (heap.setField cell 0 (.ref object)).get? ref = heap.get? ref := by
    intro location type ref known
    obtain ⟨_, _, -, isObject, -⟩ := ready.sound.fits.cells location type ref known
    have old : ref ≠ cell := by
      rintro rfl
      exact absurd (Heap.lt_size_of_get? isObject) (Nat.lt_irrefl _)
    exact ⟨fun same => old (Option.some.inj same).symm, Heap.get?_setField_of_ne old _ _⟩
  have leads : now.Leads linkage (opened.withMemory (now.memory.declare function.type (some cell)
      (.function names body returns (env.bind function.name now.memory.world.length))
      { now.memory.store with heap := heap.setField cell 0 (.ref object) })) := by
    refine between.trans ((between.sound ready.sound.unpinned below).extend evolves keeps isValue
      represents ?_)
    rintro _ ⟨⟩
    exact Heap.get?_setField_self isCell _ _
  rw [← ready.sound.fits.length] at rest
  refine rest _ {
    toLeads := leads
    below := below.mono addsStore.locals
    data := rfl
    args := rfl
    others := fun _ => Contents.add_of_ne _ _
    type := rfl
    kept := ⟨fun _ => ⟨cell, ?_, Contents.add_self _ _ _⟩, nofun⟩ }
  rw [← ready.sound.fits.length]
  exact List.getElem?_concat_length ..

theorem arrives_bindFunction
    (binds : (context.bindFresh function.type function.captured).Writes before binding middle)
    (stores : (context.store binding
      (context.lowerClosure closure (bindings.bind function.name binding))).Writes middle () after)
    (placed : after.PlacedIn now.frame.body)
    (rest : ∀ later, now.Declares linkage after later binding function.type
      (.function names body returns (env.bind function.name now.memory.data.length)) →
        Arrives linkage.image limit (later.config seat after.position stack) post) :
    Arrives linkage.image limit (now.config seat before.position stack) post := by
  unfold LowerContext.bindFresh at binds
  split at binds
  · exact arrives_bindFunctionCell layout ready renders typed binds stores placed rest
  · obtain ⟨slot, _, declared, done⟩ := Lower.writes_bind.mp binds
    obtain ⟨rfl, rfl⟩ := Lower.writes_pure.mp done
    exact arrives_bindFunctionSlot layout ready renders typed declared stores placed rest

end Functions

/-- The values in local slots are pushed. -/
theorem arrives_loadLocals {slots : List Nat} {values : List Value}
    (carries : now.frame.Carries linkage now.memory now.contents)
    (held : List.Forall₂ (fun slot value =>
      now.contents (.localSlot slot) = some (.fixed value)) slots values)
    (written : (slots.forM fun slot => Lower.emit (.loadLocal slot)).Writes before () after)
    (placed : after.PlacedIn now.frame.body)
    (rest : Arrives linkage.image limit
      (now.config seat after.position (values.reverse ++ stack)) post) :
    Arrives linkage.image limit (now.config seat before.position stack) post := by
  induction held generalizing before stack with
  | nil =>
      obtain ⟨-, rfl⟩ := Lower.writes_pure.mp written
      exact rest
  | @cons slot value slots values first _ ih =>
      have writtenRest := Lower.writes_emit_bind.mp written
      have adds : (slots.forM fun slot => Lower.emit (.loadLocal slot)).Adds :=
        Lower.Adds.forM fun _ => .emit _
      obtain ⟨_, has, rfl⟩ := carries.has _ _ first
      refine Seat.arrives_loadLocal (placed.of_precedes (adds _ _ _ writtenRest)).last has ?_
      rw [← Emitter.position_emit]
      exact ih writtenRest (by simpa using rest)

end Situation

namespace Core

variable {linkage : Linkage} {limit : Nat} {types : Scope SourceTy}
variable {cores : List (Binder × Core)}

/-- The code of the initial value of a loop variable simulates it. -/
structure SimulatesVariable (linkage : Linkage) (limit : Nat) (types : Scope SourceTy)
    (eval : Expr → Scope Location → Evaluation Datum) (item : Expr) (core : Binder × Core) :
    Prop where
  simulates : core.2.Simulates linkage limit types (eval item)
  assignable : linkage.typing.isAssignable core.2.type core.1.type = true
  isValue : core.1.type.isVoid = false

/-- The initial values of loop variables wait in local slots. -/
theorem arrives_lowerTemps {context : LowerContext} {seat : Seat} {env : Scope Location}
    {bindings : Scope Binding} {before after : Emitter} {now : Situation} {args data : List Datum}
    {stack : List Value} {post : Config → Prop} {eval : Expr → Scope Location → Evaluation Datum}
    {items : List Expr} {slots : List Nat}
    (simulate : List.Forall₂ (SimulatesVariable linkage limit types eval) items cores)
    (ready : now.Ready linkage context seat types env bindings before)
    (written : (lowerTemps context cores bindings).Writes before slots after)
    (placed : after.PlacedIn now.frame.body)
    (evaluated : (Expr.evalAll eval items env).run now.memory.data = some (args, data))
    (rest : ∀ later values, now.Leads linkage later → later.contents.Below after.locals.size →
      later.memory.data = data →
      RepresentsAll linkage later.memory.world later.memory.store.heap
        (cores.map fun core => core.1.type) args values →
      List.Forall₂ (fun slot value => later.contents (.localSlot slot) = some (.fixed value))
        slots values →
      Arrives linkage.image limit (later.config seat after.position stack) post) :
    Arrives linkage.image limit (now.config seat before.position stack) post := by
  induction simulate generalizing now before args slots with
  | nil =>
      obtain ⟨rfl, rfl⟩ := Evaluation.run_pure_eq_some.mp evaluated
      obtain ⟨rfl, rfl⟩ := Lower.writes_pure.mp written
      exact rest now [] ready.sound.leads ready.sound.below rfl .nil .nil
  | @cons item core items cores first others ih =>
      obtain ⟨binder, core⟩ := core
      obtain ⟨datum, between, evaluatedFirst, evaluated⟩ := Evaluation.run_bind_eq_some.mp evaluated
      obtain ⟨more, last, evaluatedRest, done⟩ := Evaluation.run_bind_eq_some.mp evaluated
      obtain ⟨rfl, rfl⟩ := Evaluation.run_pure_eq_some.mp done
      obtain ⟨_, early, writtenFirst, written⟩ := Lower.writes_bind.mp written
      obtain ⟨slot, middle, stores, written⟩ := Lower.writes_bind.mp written
      obtain ⟨slots, _, writtenRest, done⟩ := Lower.writes_bind.mp written
      obtain ⟨rfl, rfl⟩ := Lower.writes_pure.mp done
      have adds : (lowerTemps context cores bindings).Adds :=
        lowerTemps_adds _
      have placedStore := placed.of_precedes (adds _ _ _ writtenRest)
      have placedFirst := placedStore.of_precedes (context.storeTop_adds _ _ _ _ stores)
      have isValue := TypeContext.isVoid_of_isAssignable first.assignable first.isValue
      refine Simulates.operand first.simulates isValue ready writtenFirst placedFirst evaluatedFirst
        fun later value resumes represents => ?_
      have sound : later.Sound linkage early :=
        resumes.sound ready.sound (core.lower_adds _ _ _ _ _ writtenFirst).locals
      refine Situation.arrives_storeTop sound.unpinned sound.carries.locals stores
        (resumes.body ▸ placedStore) represents.ne_struct fun isSlot next within => ?_
      subst isSlot
      have stored := sound.leads.put (.fixed value) (sound.below _ (Nat.le_refl _)) within rfl nofun
      have leads := resumes.toLeads.trans stored
      have isReady := ready.leads leads (Situation.below_put sound.below next (.fixed value))
      refine ih isReady writtenRest (leads.body ▸ placed) (resumes.data ▸ evaluatedRest)
        fun final values further below isData all held => ?_
      refine rest final (value :: values) (leads.trans further) below isData ?_ (.cons ?_ held)
      · have lasts := stored.trans further
        exact .cons ((represents.mono lasts.advances.worlds lasts.advances.heaps).assign
          first.assignable) all
      · exact further.keeps _ _ (Contents.add_self _ _ _)

theorem simulates_loop {fuel : Nat} {id : NodeId} {function : Binder} {ret : SourceTy}
    {captures : List Param} {body : Core} {names : List Name} {expr : Expr} {items : List Expr}
    (simulated : Expr.Simulated linkage limit fuel)
    (layout : (Closure.ofLoop linkage.host id (cores.map (·.1)) ret captures body).Layout linkage)
    (renders : (Closure.ofLoop linkage.host id (cores.map (·.1)) ret captures body).Renders linkage
      (types.bind function.name function.type) names expr (!ret.isVoid))
    (typed : function.type = .delegate (cores.map fun core => core.1.type) ret)
    (simulate : List.Forall₂ (SimulatesVariable linkage limit types (Expr.eval fuel)) items cores) :
    (loop id function cores ret captures body).Simulates linkage limit types (fun env => do
      let args ← Expr.evalAll (Expr.eval fuel) items env
      let location ← Evaluation.allocate .nothing
      let datum : Datum := .function names expr (!ret.isVoid) (env.bind function.name location)
      Evaluation.write location datum
      Expr.evalCall (Expr.eval fuel) datum args) := by
  intro context seat tail env bindings before after now datum data stack post ready written placed
    evaluated falls ends
  obtain ⟨args, between, evaluatedArgs, evaluated⟩ := Evaluation.run_bind_eq_some.mp evaluated
  obtain ⟨location, grown, allocates, evaluated⟩ := Evaluation.run_bind_eq_some.mp evaluated
  obtain ⟨_, filled, writes, evaluatedCall⟩ := Evaluation.run_bind_eq_some.mp evaluated
  obtain ⟨rfl, rfl⟩ := Evaluation.run_allocate_eq_some.mp allocates
  obtain rfl := Evaluation.run_write_eq_some.mp writes
  obtain ⟨slots, first, writtenTemps, written⟩ := Lower.writes_bind.mp written
  obtain ⟨binding, second, binds, written⟩ := Lower.writes_bind.mp written
  obtain ⟨_, third, stores, written⟩ := Lower.writes_bind.mp written
  obtain ⟨_, fourth, fetches, written⟩ := Lower.writes_bind.mp written
  obtain ⟨_, fifth, loads, calls⟩ := Lower.writes_bind.mp written
  rw [ready.admits.host] at stores
  have addsCall : (do
      let invoke ← context.delegateInvoke function.type
      Lower.emitCall invoke true tail).Adds :=
    (context.delegateInvoke_adds _).bind fun _ => .emitCall _ _ _
  have addsLoads : (slots.forM fun slot => Lower.emit (.loadLocal slot)).Adds :=
    Lower.Adds.forM fun _ => .emit _
  have addsFetch := context.fetch_adds binding _ _ _ fetches
  have addsStore := context.store_adds binding (context.lowerClosure_adds _ _) _ _ _ stores
  have addsFunction := (context.bindFresh_adds _ _ _ _ _ binds).trans addsStore
  have placedLoads := placed.of_precedes (addsCall _ _ _ calls)
  have placedFetch := placedLoads.of_precedes (addsLoads _ _ _ loads)
  have placedStore := placedFetch.of_precedes addsFetch
  refine arrives_lowerTemps simulate ready writtenTemps (placedStore.of_precedes addsFunction)
    evaluatedArgs fun later values leads below isData all held => ?_
  have isReady : later.Ready linkage context seat types env bindings first :=
    ready.leads leads below
  have isType : function.type = (Closure.ofLoop linkage.host id (cores.map (·.1)) ret captures
      body).delegateType := by
    rw [typed, Closure.delegateType, Closure.paramTypes]
    simp [Closure.ofLoop, Function.comp_def]
  refine Situation.arrives_bindFunction layout isReady renders isType binds stores
    (leads.body ▸ placedStore) fun next declares => ?_
  have total := leads.trans declares.toLeads
  have isNext : next.Ready linkage context seat types env bindings third :=
    isReady.leads declares.toLeads declares.below
  -- The data are those of the arguments with the function after them.
  have isFilled : next.memory.data = (between ++ [Datum.nothing]).set between.length
      (.function names expr (!ret.isVoid) (env.bind function.name between.length)) := by
    rw [declares.data, isData]
    simp
  have isHeld : next.memory.data[later.memory.data.length]? =
      some (.function names expr (!ret.isVoid) (env.bind function.name between.length)) := by
    rw [isFilled, isData]
    simp
  refine Situation.arrives_fetch ready.admits isNext.sound.fits isNext.sound.carries declares.kept
    isHeld fetches (total.body ▸ placedFetch) fun value represents => ?_
  have stillHeld := held.imp fun slot value => declares.keeps (.localSlot slot) (.fixed value)
  refine Situation.arrives_loadLocals isNext.sound.carries stillHeld loads
    (total.body ▸ placedLoads) ?_
  have isLast : next.Ready linkage context seat types env bindings fifth :=
    isNext.mono (addsFetch.locals.trans (addsLoads _ _ _ loads).locals)
  rw [declares.type] at represents
  exact Situation.arrives_invoke isLast simulated (typed ▸ Ty.signature?_delegate _ _) represents
    (all.mono declares.advances.worlds declares.advances.heaps) (isFilled ▸ evaluatedCall) calls
    (total.body ▸ placed)
    (fun final values resumes pushed =>
      falls (final.limitTo now) values (total.resumes ready.sound resumes) pushed)
    fun isTail value memory isEnd => ends isTail value memory (total.ends isEnd)

end Core

end ClassForge
