import ClassForge.Proofs.Machine.VariableChanges

/-!
# Code that reads and writes variables

A frame in the middle of generated code knows some of its slots.  The code that declares, reads
or writes a variable does to the memory of the machine what the meaning of the expression does to
the store.
-/

namespace ClassForge

open Machine

/-- The frame with another value in a local slot. -/
def Frame.withLocal (frame : Frame) (slot : Nat) (value : Value) : Frame :=
  { frame with locals := frame.locals.setIfInBounds slot value }

/-! ## Situations -/

/-- A frame in the middle of generated code: what is known about its slots, and the memory. -/
structure Situation where
  frame : Frame
  memory : Memory
  contents : Contents

namespace Situation

/-- The frame is about to execute the instruction at a position. -/
def config (now : Situation) (seat : Seat) (position : Nat) (stack : List Value) : Config :=
  seat.config now.frame position stack now.memory.store

/-- What is known is right, and nothing is known about slots that have not been handed out. -/
structure Sound (linkage : Linkage) (emitter : Emitter) (now : Situation) : Prop where
  unpinned : now.frame.body.Unpinned
  fits : now.memory.Fits linkage
  carries : now.frame.Carries linkage now.memory now.contents
  below : now.contents.Below emitter.locals.size

/-- Code of a frame leads from one situation to a later one, in which more may be known. -/
structure Leads (linkage : Linkage) (now later : Situation) : Prop where
  body : later.frame.body = now.frame.body
  fits : later.memory.Fits linkage
  carries : later.frame.Carries linkage later.memory later.contents
  advances : now.memory.Advances linkage now.contents later.memory
  keeps : ∀ place content, now.contents place = some content →
    later.contents place = some content
  fresh : ∀ place location, later.contents place = some (.located location) →
    now.contents place = some (.located location) ∨ now.memory.world.length ≤ location

variable {linkage : Linkage} {now middle later : Situation} {before after : Emitter}

theorem Sound.leads (sound : now.Sound linkage before) : now.Leads linkage now where
  body := rfl
  fits := sound.fits
  carries := sound.carries
  advances := .refl linkage _ _
  keeps _ _ := id
  fresh _ _ := .inl

theorem Leads.trans (early : now.Leads linkage middle) (late : middle.Leads linkage later) :
    now.Leads linkage later where
  body := late.body.trans early.body
  fits := late.fits
  carries := late.carries
  advances := early.advances.trans late.advances early.fresh
  keeps place content known := late.keeps place content (early.keeps place content known)
  fresh place location isLater := by
    rcases late.fresh place location isLater with isMiddle | isNew
    · exact early.fresh place location isMiddle
    · obtain ⟨rest, same⟩ := early.advances.worlds
      refine .inr (Nat.le_trans ?_ isNew)
      rw [← same, List.length_append]
      exact Nat.le_add_right _ _

/-- The situation in which only what was known before is known. -/
def limitTo (later now : Situation) : Situation :=
  { later with contents := now.contents }

/-- What has come to be known is forgotten again. -/
theorem Leads.forget (sound : now.Sound linkage before) (leads : now.Leads linkage later) :
    now.Leads linkage (later.limitTo now) where
  body := leads.body
  fits := leads.fits
  carries := {
    has := fun place content known =>
      leads.carries.has place content (leads.keeps place content known)
    apart := fun place other location isPlace isOther =>
      leads.carries.apart place other location (leads.keeps _ _ isPlace) (leads.keeps _ _ isOther)
    receiver := sound.carries.receiver
    locals := leads.carries.locals }
  advances := leads.advances
  keeps _ _ := id
  fresh _ _ := .inl

theorem Leads.sound (leads : now.Leads linkage later) (unpinned : now.frame.body.Unpinned)
    (below : later.contents.Below after.locals.size) : later.Sound linkage after where
  unpinned := leads.body ▸ unpinned
  fits := leads.fits
  carries := leads.carries
  below := below

/-- Code of a frame has run, and nothing more is known than before. -/
structure Resumes (linkage : Linkage) (now later : Situation) (data : List Datum) : Prop
    extends now.Leads linkage later where
  same : later.contents = now.contents
  data : later.memory.data = data

theorem Resumes.sound {data : List Datum} (resumes : now.Resumes linkage later data)
    (sound : now.Sound linkage before) (grows : before.locals.size ≤ after.locals.size) :
    later.Sound linkage after :=
  resumes.toLeads.sound sound.unpinned (resumes.same ▸ sound.below.mono grows)

/-- A new variable is kept where its binding says. -/
structure Declares (linkage : Linkage) (emitter : Emitter) (now later : Situation)
    (binding : Binding) (type : SourceTy) (datum : Datum) : Prop extends now.Leads linkage later where
  below : later.contents.Below emitter.locals.size
  data : later.memory.data = now.memory.data ++ [datum]
  args : later.frame.args = now.frame.args
  others : ∀ place, place ≠ binding.place → later.contents place = now.contents place
  type : binding.type = type
  kept : binding.KeptAt later.memory.world later.contents now.memory.data.length

/-- The situation with a value in a local slot, about which something is known then. -/
def put (now : Situation) (slot : Nat) (value : Value) (content : Content) : Situation where
  frame := now.frame.withLocal slot value
  memory := now.memory
  contents := now.contents.add (.localSlot slot) content

/-- One more slot is known. -/
theorem Leads.add (leads : now.Leads linkage later) {frame : Frame} {place : Place}
    {content : Content} (isBody : frame.body = later.frame.body)
    (carries : frame.Carries linkage later.memory (later.contents.add place content))
    (free : later.contents place = none)
    (fresh : ∀ location, content = .located location → now.memory.world.length ≤ location) :
    now.Leads linkage ⟨frame, later.memory, later.contents.add place content⟩ where
  body := isBody.trans leads.body
  fits := leads.fits
  carries := carries
  advances := leads.advances
  keeps other known isKnown := by
    refine (Contents.add_of_ne _ _ ?_).trans (leads.keeps other known isKnown)
    rintro rfl
    cases free.symm.trans (leads.keeps _ known isKnown)
  fresh other location isLocated := by
    change later.contents.add place content other = _ at isLocated
    by_cases same : other = place
    · rw [same, Contents.add_self] at isLocated
      exact .inr (fresh location (Option.some.inj isLocated))
    · rw [Contents.add_of_ne _ _ same] at isLocated
      exact leads.fresh other location isLocated

theorem Leads.put (leads : now.Leads linkage later) {slot : Nat} {value : Value} (content : Content)
    (free : later.contents (.localSlot slot) = none) (within : slot < later.frame.locals.size)
    (is : content.Is linkage later.memory value)
    (fresh : ∀ location, content = .located location → now.memory.world.length ≤ location ∧
      ∀ other, later.contents other ≠ some (.located location)) :
    now.Leads linkage (later.put slot value content) :=
  leads.add rfl (leads.carries.addLocal free within is fun location isLocated =>
    (fresh location isLocated).2) free fun location isLocated => (fresh location isLocated).1

theorem below_put {contents : Contents} (below : contents.Below before.locals.size)
    (next : after.locals.size = before.locals.size + 1) (content : Content) :
    (contents.add (.localSlot before.locals.size) content).Below after.locals.size := by
  intro slot beyond
  rw [next] at beyond
  rw [Contents.add_of_ne _ _ (by simp; omega)]
  exact below slot (by omega)

end Situation

/-! ## Members of cells -/

section Cells

variable {linkage : Linkage} {context : LowerContext} {before after : Emitter}
variable {content : SourceTy}

theorem LowerContext.runTy_cell {type : RunTy} (done : context.runTy (.cell content) = .ok type) :
    ∃ arg, type = .generic Platform.cell [arg] := by
  obtain ⟨args, areArgs, ⟨⟩⟩ := bind_eq_ok.mp done
  obtain ⟨arg, -, isRest⟩ := bind_eq_ok.mp areArgs
  cases isRest
  exact ⟨arg, rfl⟩

/-- The field of a cell that holds the value. -/
def Linkage.cellField (linkage : Linkage) : FieldInfo :=
  ⟨linkage.cell, "Value", .object, .publicInstance, 0⟩

theorem Linkage.Admits.writes_cellField (admits : linkage.Admits context) {field : FieldHandle}
    (written : (context.cellField content).Writes before field after) :
    after = before ∧ linkage.image.field? field = some linkage.cellField := by
  obtain ⟨type, isType, written⟩ := Lower.writes_lift_bind.mp written
  obtain ⟨arg, rfl⟩ := LowerContext.runTy_cell isType
  obtain ⟨resolved, rfl⟩ := Lower.writes_ofImage.mp written
  obtain ⟨cell, isCell, described, isDescribed, isField⟩ :=
    admits.built.resolveField_generic linkage.built resolved rfl
  cases Option.some.inj (isCell.symm.trans linkage.isCell)
  rw [List.mem_singleton.mp isDescribed] at isField
  exact ⟨rfl, isField⟩

/-- The store with one more cell. -/
def Linkage.withCell (linkage : Linkage) (store : Store) (value : Value) : Store :=
  { store with heap := (store.heap.alloc (.instance linkage.cell #[value])).2 }

/-- What the constructors of cells do. -/
def cellNative (filled : Bool) : Native :=
  if filled then .cellCtor else .cellCtorEmpty

theorem Linkage.Admits.writes_cellCtor (admits : linkage.Admits context) {filled : Bool}
    {ctor : CtorHandle}
    (written : (context.platformCtor (.cell content) (if filled then [content] else [])).Writes
      before ctor after) :
    after = before ∧ linkage.image.ctor? ctor =
      some ⟨linkage.cell, if filled then [.object] else [], .native (cellNative filled)⟩ := by
  obtain ⟨type, isType, written⟩ := Lower.writes_lift_bind.mp written
  obtain ⟨arg, rfl⟩ := LowerContext.runTy_cell isType
  obtain ⟨params, areParams, written⟩ := Lower.writes_lift_bind.mp written
  obtain ⟨resolved, rfl⟩ := Lower.writes_ofImage.mp written
  have count := Ty.length_of_resolveList areParams
  obtain ⟨cell, isCell, described, isDescribed, fitting, isCtor⟩ :=
    admits.built.resolveCtor_generic linkage.built resolved rfl
  cases Option.some.inj (isCell.symm.trans linkage.isCell)
  refine ⟨rfl, isCtor.trans ?_⟩
  rw [count] at fitting
  rcases List.mem_pair.mp isDescribed with rfl | rfl <;> cases filled
  · cases fitting
  · rfl
  · rfl
  · cases fitting

end Cells

/-! ## Slots -/

namespace Situation

variable {linkage : Linkage} {context : LowerContext} {now : Situation} {seat : Seat}
variable {before after : Emitter} {limit : Nat} {post : Config → Prop} {stack : List Value}
variable {value : Value} {type : SourceTy} {datum : Datum} {binding : Binding}
variable {location : Location} {slot : Nat} {store : Store}

/-- The value that a slot holds is pushed. -/
theorem arrives_load {place : Place} (has : now.frame.Has linkage now.memory.store.heap value place)
    (written : place.load.Writes before () after) (placed : after.PlacedIn now.frame.body)
    (rest : Arrives linkage.image limit (now.config seat after.position (value :: stack)) post) :
    Arrives linkage.image limit (now.config seat before.position stack) post := by
  cases place with
  | argument slot =>
      obtain rfl := Lower.writes_emit.mp written
      rw [Emitter.position_emit] at rest
      exact Seat.arrives_loadArg placed.last has rest
  | localSlot slot =>
      obtain rfl := Lower.writes_emit.mp written
      rw [Emitter.position_emit] at rest
      exact Seat.arrives_loadLocal placed.last has rest
  | receiverField handle =>
      obtain ⟨target, type, fields, field, isTarget, isObject, -, isField, holds⟩ := has
      obtain rfl := Lower.writes_emitAll_nil.mp
        (Lower.writes_emitAll_cons.mp (Lower.writes_emitAll_cons.mp written))
      rw [Emitter.position_emit, Emitter.position_emit] at rest
      refine Seat.arrives_loadArg placed.before_emit.last isTarget ?_
      rw [← Emitter.position_emit before (.loadArg 0)] at rest ⊢
      exact Seat.arrives_loadField placed.last isField isObject holds rest

/-- The value of a variable is pushed. -/
theorem arrives_fetch (admits : linkage.Admits context) (fits : now.memory.Fits linkage)
    (carries : now.frame.Carries linkage now.memory now.contents)
    (kept : binding.KeptAt now.memory.world now.contents location)
    (held : now.memory.data[location]? = some datum)
    (written : (context.fetch binding).Writes before () after)
    (placed : after.PlacedIn now.frame.body)
    (rest : ∀ value,
      Represents linkage now.memory.world now.memory.store.heap binding.type datum value →
        Arrives linkage.image limit (now.config seat after.position (value :: stack)) post) :
    Arrives linkage.image limit (now.config seat before.position stack) post := by
  obtain ⟨_, middle, loads, written⟩ := Lower.writes_bind.mp written
  cases isBoxed : binding.boxed with
  | true =>
      rw [isBoxed, if_pos rfl] at written
      obtain ⟨cell, isStored, isPlace⟩ := kept.boxed isBoxed
      obtain ⟨datum', value, isDatum, isObject, represents⟩ := fits.cells _ _ _ isStored
      cases isDatum.symm.trans held
      obtain ⟨_, has, rfl⟩ := carries.has _ _ isPlace
      obtain ⟨field, last, found, emitted⟩ := Lower.writes_bind.mp written
      obtain ⟨rfl, isField⟩ := admits.writes_cellField found
      obtain rfl := Lower.writes_emit.mp emitted
      refine arrives_load has loads placed.before_emit ?_
      refine Seat.arrives_loadField placed.last isField isObject rfl ?_
      rw [← Emitter.position_emit]
      exact rest value represents
  | false =>
      rw [isBoxed, if_neg Bool.false_ne_true] at written
      obtain ⟨-, rfl⟩ := Lower.writes_pure.mp written
      obtain ⟨isStored, isPlace⟩ := kept.unboxed isBoxed
      obtain ⟨value, has, type, datum', isKnown, isDatum, represents⟩ := carries.has _ _ isPlace
      cases isKnown.symm.trans isStored
      cases isDatum.symm.trans held
      exact arrives_load has loads placed (rest value represents)

/-! ## New variables -/

theorem writes_declareLocal (written : (context.declareLocal type).Writes before slot after) :
    slot = before.locals.size ∧ after.locals.size = before.locals.size + 1 ∧
      after.position = before.position := by
  obtain ⟨type, -, written⟩ := Lower.writes_lift_bind.mp written
  obtain ⟨-, rfl, rfl⟩ := Lower.writes_declareLocal.mp written
  exact ⟨rfl, Array.size_push .., rfl⟩

/-- The value on top of the stack is put into the next slot. -/
theorem arrives_storeTop {frame : Frame} (unpinned : frame.body.Unpinned)
    (size : frame.locals.size = frame.body.locals.size)
    (written : (context.storeTop type).Writes before slot after)
    (placed : after.PlacedIn frame.body) (own : ∀ ref, value ≠ .struct ref)
    (rest : slot = before.locals.size → after.locals.size = before.locals.size + 1 →
      slot < frame.locals.size → Arrives linkage.image limit
        (seat.config (frame.withLocal slot value) after.position stack store) post) :
    Arrives linkage.image limit (seat.config frame before.position (value :: stack) store) post := by
  obtain ⟨_, middle, declared, written⟩ := Lower.writes_bind.mp written
  obtain ⟨rfl, next, position⟩ := writes_declareLocal declared
  have done := Lower.writes_emit_bind.mp written
  obtain ⟨rfl, rfl⟩ := Lower.writes_pure.mp done
  have within : before.locals.size < frame.locals.size := by
    rw [size]
    exact Nat.lt_of_lt_of_le (next ▸ Nat.lt_succ_self _) placed.before_emit.locals
  have rest := rest rfl next within
  rw [Emitter.position_emit] at rest
  rw [← position]
  exact Seat.arrives_storeLocal placed.last within (unpinned.slot _) own rest

/-- A cell is made, for the value on top of the stack if it is to be filled, and put into the next
slot. -/
theorem arrives_newCell {filled : Bool} {frame : Frame} {store : Store}
    (admits : linkage.Admits context) (unpinned : frame.body.Unpinned)
    (size : frame.locals.size = frame.body.locals.size)
    (written : (context.newCell type filled).Writes before binding after)
    (placed : after.PlacedIn frame.body) (own : ∀ ref, value ≠ .struct ref)
    (rest : binding = ⟨type, .localSlot before.locals.size, true⟩ →
      after.locals.size = before.locals.size + 1 → before.locals.size < frame.locals.size →
        Arrives linkage.image limit
          (seat.config (frame.withLocal before.locals.size (.ref ⟨store.heap.size⟩)) after.position
            stack (linkage.withCell store (if filled then value else .null))) post) :
    Arrives linkage.image limit
      (seat.config frame before.position (if filled then value :: stack else stack) store) post := by
  obtain ⟨ctor, middle, found, made⟩ := Lower.writes_bind.mp written
  obtain ⟨rfl, isCtor⟩ := admits.writes_cellCtor found
  have made := Lower.writes_emit_bind.mp made
  obtain ⟨slot, last, stored, done⟩ := Lower.writes_bind.mp made
  obtain ⟨rfl, rfl⟩ := Lower.writes_pure.mp done
  have isInstr := (placed.of_precedes ((context.storeTop_adds _) _ _ _ stored)).last
  have further : Arrives linkage.image limit (seat.config frame (middle.position + 1)
      (.ref ⟨store.heap.size⟩ :: stack)
      (linkage.withCell store (if filled then value else .null))) post := by
    rw [← Emitter.position_emit middle (.newObject ctor)]
    refine arrives_storeTop unpinned size stored placed (by simp) fun isSlot next within => ?_
    subst isSlot
    exact rest rfl next within
  cases filled with
  | true =>
      exact Seat.arrives_newCell linkage.built linkage.isCell isInstr isCtor own further
  | false => exact Seat.arrives_newCellEmpty linkage.built linkage.isCell isInstr isCtor further

/-- The situation with another memory. -/
def withMemory (now : Situation) (memory : Memory) : Situation :=
  { now with memory }

/-- A location comes to be that no slot holds yet. -/
theorem Sound.extend (sound : now.Sound linkage before) {cell : Option ObjRef}
    (evolves : now.memory.store.heap.Evolves linkage.cell store.heap)
    (keeps : ∀ (location : Location) type ref,
      now.memory.world[location]? = some ⟨type, some ref⟩ →
        cell ≠ some ref ∧ store.heap.get? ref = now.memory.store.heap.get? ref)
    (isValue : type.isVoid = false)
    (represents : Represents linkage (now.memory.world ++ [⟨type, cell⟩]) store.heap type datum value)
    (isCell : ∀ ref, cell = some ref →
      store.heap.get? ref = some (.instance linkage.cell #[value])) :
    now.Leads linkage (now.withMemory (now.memory.declare type cell datum store)) where
  body := rfl
  fits := sound.fits.declare evolves keeps isValue represents isCell
  carries := sound.carries.mono (Memory.advances_declare sound.fits evolves cell _)
  advances := Memory.advances_declare sound.fits evolves cell _
  keeps _ _ := id
  fresh _ _ := .inl

/-- A location comes to be in a cell that has just been made, or without one. -/
theorem Sound.declare (sound : now.Sound linkage before)
    (retains : now.memory.store.heap.Retains store.heap) (isValue : type.isVoid = false)
    (represents : Represents linkage now.memory.world now.memory.store.heap type datum value)
    (cell : Option ObjRef)
    (isCell : ∀ ref, cell = some ref → now.memory.store.heap.size ≤ ref.index ∧
      store.heap.get? ref = some (.instance linkage.cell #[value])) :
    now.Leads linkage (now.withMemory (now.memory.declare type cell datum store)) := by
  refine sound.extend retains.evolves (fun location type ref known => ?_) isValue
    (represents.mono (List.prefix_append _ _) retains.evolves) fun ref same => (isCell ref same).2
  obtain ⟨_, _, -, isObject, -⟩ := sound.fits.cells location type ref known
  refine ⟨fun same => ?_, (retains _ _ isObject).trans isObject.symm⟩
  exact absurd (Heap.lt_size_of_get? isObject) (Nat.not_lt.mpr (isCell ref same).1)

/-- A variable comes to be with the value on top of the stack. -/
theorem arrives_bindTop {boxed : Bool} (admits : linkage.Admits context)
    (sound : now.Sound linkage before) (isValue : type.isVoid = false)
    (represents : Represents linkage now.memory.world now.memory.store.heap type datum value)
    (written : (context.bindTop type boxed).Writes before binding after)
    (placed : after.PlacedIn now.frame.body)
    (rest : ∀ later, now.Declares linkage after later binding type datum →
      Arrives linkage.image limit (later.config seat after.position stack) post) :
    Arrives linkage.image limit (now.config seat before.position (value :: stack)) post := by
  have free := sound.below before.locals.size (Nat.le_refl _)
  cases boxed with
  | true =>
      refine @arrives_newCell _ _ _ _ _ _ _ _ _ _ _ true _ _ admits sound.unpinned
        sound.carries.locals written placed represents.ne_struct fun isBinding next within => ?_
      subst isBinding
      have retains : now.memory.store.heap.Retains (linkage.withCell now.memory.store value).heap :=
        Heap.retains_alloc _ _
      have declared := sound.declare retains isValue represents
        (some ⟨now.memory.store.heap.size⟩) (by
          rintro _ ⟨⟩
          exact ⟨Nat.le_refl _, Heap.get?_alloc_self _ _⟩)
      refine rest _ {
        toLeads := declared.put (.fixed (.ref ⟨now.memory.store.heap.size⟩)) free within rfl nofun
        below := below_put sound.below next _
        data := rfl
        args := rfl
        others := fun _ => Contents.add_of_ne _ _
        type := rfl
        kept := ⟨fun _ => ⟨_, ?_, Contents.add_self _ _ _⟩, nofun⟩ }
      rw [← sound.fits.length]
      exact (Memory.getElem?_declare_self sound.fits _ _ _ _).1
  | false =>
      obtain ⟨slot, last, stored, done⟩ := Lower.writes_bind.mp written
      obtain ⟨rfl, rfl⟩ := Lower.writes_pure.mp done
      refine arrives_storeTop sound.unpinned sound.carries.locals stored placed
        represents.ne_struct fun isSlot next within => ?_
      subst isSlot
      have declared := sound.declare (.refl _) isValue represents none nofun
      obtain ⟨isStored, isDatum⟩ :=
        Memory.getElem?_declare_self sound.fits type none datum now.memory.store
      refine rest _ {
        toLeads := declared.put (.located now.memory.world.length) free within
          ⟨type, datum, isStored, isDatum,
            represents.mono (List.prefix_append _ _) (.refl _)⟩ ?_
        below := below_put sound.below next _
        data := rfl
        args := rfl
        others := fun _ => Contents.add_of_ne _ _
        type := rfl
        kept := ⟨nofun, fun _ => ⟨?_, ?_⟩⟩ }
      · rintro _ ⟨⟩
        exact ⟨Nat.le_refl _, sound.carries.not_located (Nat.le_refl _)⟩
      · rw [← sound.fits.length]
        exact isStored
      · rw [← sound.fits.length]
        exact Contents.add_self _ _ _

/-! ## Assignments -/

section Assignments

variable (fits : now.memory.Fits linkage)
variable (carries : now.frame.Carries linkage now.memory now.contents)
include fits carries

/-- A variable in a cell is assigned. -/
theorem Leads.assignCell {cell : ObjRef}
    (isBoxed : now.memory.world[location]? = some ⟨type, some cell⟩)
    (represents : Represents linkage now.memory.world now.memory.store.heap type datum value) :
    now.Leads linkage
      (now.withMemory (now.memory.assign location datum (now.memory.setCell cell value))) where
  body := rfl
  fits := fits.assignCell isBoxed represents
  carries := carries.mono (Memory.advances_assignCell fits isBoxed _)
  advances := Memory.advances_assignCell fits isBoxed _
  keeps _ _ := id
  fresh _ _ := .inl

/-- A variable in a slot is assigned. -/
theorem Leads.assign {place : Place}
    (isLocated : now.contents place = some (.located location))
    (isStored : now.memory.world[location]? = some ⟨type, none⟩)
    (represents : Represents linkage now.memory.world now.memory.store.heap type datum value)
    {frame : Frame} (isBody : frame.body = now.frame.body)
    (isSize : frame.locals.size = now.frame.locals.size)
    (others : ∀ other value, other ≠ place → now.contents other ≠ none →
      now.frame.Has linkage now.memory.store.heap value other →
        frame.Has linkage now.memory.store.heap value other)
    (has : frame.Has linkage now.memory.store.heap value place) :
    now.Leads linkage ⟨frame, now.memory.assign location datum now.memory.store, now.contents⟩ where
  body := isBody
  fits := fits.assign isStored
  carries := carries.assign isLocated isStored represents isBody isSize others has
  advances := Memory.advances_assign isLocated
  keeps _ _ := id
  fresh _ _ := .inl

/-- The variable in an argument slot gets the value on top of the stack. -/
theorem arrives_assignArg (isLocated : now.contents (.argument slot) = some (.located location))
    (isStored : now.memory.world[location]? = some ⟨type, none⟩)
    (represents : Represents linkage now.memory.world now.memory.store.heap type datum value)
    (placed : (before.emit (.storeArg slot)).PlacedIn now.frame.body)
    (rest : ∀ later, now.Resumes linkage later (now.memory.data.set location datum) →
      Arrives linkage.image limit (later.config seat (before.position + 1) stack) post) :
    Arrives linkage.image limit (now.config seat before.position (value :: stack)) post := by
  obtain ⟨_, isHeld, -⟩ := carries.has _ _ isLocated
  have within : slot < now.frame.args.size := (Array.getElem?_eq_some_iff.mp isHeld).1
  refine Seat.arrives_storeArg placed.last within represents.ne_struct ?_
  refine rest ⟨_, now.memory.assign location datum now.memory.store, now.contents⟩
    ⟨Leads.assign fits carries isLocated isStored represents rfl rfl ?_ ?_, rfl, rfl⟩
  · intro other held differs known has
    cases other with
    | argument other =>
        refine (Array.getElem?_setIfInBounds_ne ?_).trans has
        rintro rfl
        exact differs rfl
    | localSlot => exact has
    | receiverField handle =>
        -- The receiver is not a variable, so it is in another slot.
        obtain ⟨content, isContent⟩ := Option.ne_none_iff_exists'.mp known
        obtain ⟨_, _, -, isReceiver⟩ := carries.receiver handle content isContent
        obtain ⟨target, type, fields, field, isTarget, isObject, isField⟩ := has
        refine ⟨target, type, fields, field, (Array.getElem?_setIfInBounds_ne ?_).trans isTarget,
          isObject, isField⟩
        rintro rfl
        cases isReceiver.symm.trans isLocated
  · exact Array.getElem?_setIfInBounds_self_of_lt within

/-- The variable in a local slot gets the value on top of the stack. -/
theorem arrives_assignLocal (unpinned : now.frame.body.Unpinned)
    (isLocated : now.contents (.localSlot slot) = some (.located location))
    (isStored : now.memory.world[location]? = some ⟨type, none⟩)
    (represents : Represents linkage now.memory.world now.memory.store.heap type datum value)
    (placed : (before.emit (.storeLocal slot)).PlacedIn now.frame.body)
    (rest : ∀ later, now.Resumes linkage later (now.memory.data.set location datum) →
      Arrives linkage.image limit (later.config seat (before.position + 1) stack) post) :
    Arrives linkage.image limit (now.config seat before.position (value :: stack)) post := by
  obtain ⟨_, isHeld, -⟩ := carries.has _ _ isLocated
  have within : slot < now.frame.locals.size := (Array.getElem?_eq_some_iff.mp isHeld).1
  refine Seat.arrives_storeLocal placed.last within (unpinned.slot _) represents.ne_struct ?_
  refine rest ⟨_, now.memory.assign location datum now.memory.store, now.contents⟩
    ⟨Leads.assign fits carries isLocated isStored represents rfl (Array.size_setIfInBounds ..) ?_
      ?_, rfl, rfl⟩
  · intro other held differs _ has
    cases other with
    | argument => exact has
    | receiverField => exact has
    | localSlot other =>
        refine (Array.getElem?_setIfInBounds_ne ?_).trans has
        rintro rfl
        exact differs rfl
  · exact Array.getElem?_setIfInBounds_self_of_lt within

end Assignments

theorem Resumes.trans {data last : List Datum} (early : now.Resumes linkage middle data)
    (late : middle.Resumes linkage later last) : now.Resumes linkage later last :=
  ⟨early.toLeads.trans late.toLeads, late.same.trans early.same, late.data⟩

/-- A variable gets the value that some code pushes. -/
theorem arrives_store {action : Lower Unit} {data : List Datum} (admits : linkage.Admits context)
    (sound : now.Sound linkage before)
    (kept : binding.KeptAt now.memory.world now.contents location) (adds : action.Adds)
    (written : (context.store binding action).Writes before () after)
    (placed : after.PlacedIn now.frame.body)
    (runs : ∀ (first last : Emitter) (stack : List Value), action.Writes first () last →
      last.PlacedIn now.frame.body → before.locals.size ≤ first.locals.size →
        (∀ later value, now.Resumes linkage later data →
          Represents linkage later.memory.world later.memory.store.heap binding.type datum value →
            Arrives linkage.image limit (later.config seat last.position (value :: stack)) post) →
          Arrives linkage.image limit (now.config seat first.position stack) post)
    (rest : ∀ later, now.Resumes linkage later (data.set location datum) →
      Arrives linkage.image limit (later.config seat after.position stack) post) :
    Arrives linkage.image limit (now.config seat before.position stack) post := by
  cases isBoxed : binding.boxed with
  | true =>
      unfold LowerContext.store at written
      rw [isBoxed, if_pos rfl] at written
      obtain ⟨isStored, isPlace⟩ := (kept.boxed isBoxed).choose_spec
      generalize (kept.boxed isBoxed).choose = cell at isStored isPlace
      obtain ⟨_, first, loads, written⟩ := Lower.writes_bind.mp written
      obtain ⟨_, middle, pushes, written⟩ := Lower.writes_bind.mp written
      obtain ⟨field, last, found, stores⟩ := Lower.writes_bind.mp written
      obtain ⟨rfl, isField⟩ := admits.writes_cellField found
      obtain rfl := Lower.writes_emit.mp stores
      have grows := LowerContext.load_adds binding.place _ _ _ loads
      obtain ⟨_, has, rfl⟩ := sound.carries.has _ _ isPlace
      refine arrives_load has loads (placed.before_emit.of_precedes (adds _ _ _ pushes)) ?_
      refine runs first last _ pushes placed.before_emit grows.locals fun later value resumes
        represents => ?_
      have isStored := resumes.advances.world isStored
      obtain ⟨_, old, -, isObject, -⟩ := resumes.fits.cells _ _ _ isStored
      refine Seat.arrives_storeField (resumes.body ▸ placed.last) isField isObject
        (Nat.zero_lt_one) represents.ne_struct ?_
      rw [← Emitter.position_emit]
      have assigned := Leads.assignCell resumes.fits resumes.carries isStored represents
      exact rest _ ⟨resumes.toLeads.trans assigned, resumes.same, by rw [← resumes.data]; rfl⟩
  | false =>
      unfold LowerContext.store at written
      rw [isBoxed, if_neg Bool.false_ne_true] at written
      obtain ⟨isStored, isPlace⟩ := kept.unboxed isBoxed
      cases isAt : binding.place with
      | argument slot =>
          rw [isAt] at written isPlace
          obtain ⟨_, last, pushes, stores⟩ := Lower.writes_bind.mp written
          obtain rfl := Lower.writes_emit.mp stores
          refine runs before last stack pushes placed.before_emit (Nat.le_refl _)
            fun later value resumes represents => ?_
          refine arrives_assignArg resumes.fits resumes.carries (resumes.keeps _ _ isPlace)
            (resumes.advances.world isStored) represents (resumes.body ▸ placed)
            fun final assigned => ?_
          rw [← Emitter.position_emit]
          exact rest _ (resumes.trans (resumes.data ▸ assigned))
      | localSlot slot =>
          rw [isAt] at written isPlace
          obtain ⟨_, last, pushes, stores⟩ := Lower.writes_bind.mp written
          obtain rfl := Lower.writes_emit.mp stores
          refine runs before last stack pushes placed.before_emit (Nat.le_refl _)
            fun later value resumes represents => ?_
          refine arrives_assignLocal resumes.fits resumes.carries (resumes.body ▸ sound.unpinned)
            (resumes.keeps _ _ isPlace) (resumes.advances.world isStored) represents
            (resumes.body ▸ placed) fun final assigned => ?_
          rw [← Emitter.position_emit]
          exact rest _ (resumes.trans (resumes.data ▸ assigned))
      | receiverField handle =>
          rw [isAt] at isPlace
          obtain ⟨_, _, isFixed, -⟩ := sound.carries.receiver _ _ isPlace
          cases isFixed

end Situation

/-! ## Names -/

section Names

variable {linkage : Linkage} {world : World} {contents : Contents} {types : Scope SourceTy}
variable {env : Scope Location} {bindings : Scope Binding} {binding : Binding}
variable {location : Location} {now later : Situation}

theorem Stands.empty (types : Scope SourceTy) (env : Scope Location) :
    Stands world contents types env .empty :=
  nofun

/-- A name hides the older ones. -/
theorem Stands.bind (stands : Stands world contents types env bindings) (name : Name)
    (kept : binding.KeptAt world contents location) :
    Stands world contents (types.bind name binding.type) (env.bind name location)
      (bindings.bind name binding) := by
  intro other bound isBound
  rw [Scope.get?_bind] at isBound ⊢
  split at isBound
  · next same =>
      cases isBound
      rw [if_pos same, Scope.get?_bind, if_pos same]
      exact ⟨rfl, location, rfl, kept⟩
  · next differs =>
      rw [if_neg differs, Scope.get?_bind, if_neg differs]
      exact stands other bound isBound

theorem Stands.bindAll (stands : Stands world contents types env bindings)
    {bounds : List (Name × Binding)} {locations : List (Name × Location)}
    (kept : List.Forall₂ (fun bound located => located.1 = bound.1 ∧
      bound.2.KeptAt world contents located.2) bounds locations) :
    Stands world contents (types.bindAll (bounds.map fun bound => (bound.1, bound.2.type)))
      (env.bindAll locations) (bindings.bindAll bounds) := by
  induction kept generalizing types env bindings with
  | nil => exact stands
  | @cons bound located bounds locations first _ ih =>
      obtain ⟨name, binding⟩ := bound
      obtain ⟨_, location⟩ := located
      obtain ⟨rfl, isKept⟩ := first
      rw [List.map_cons, Scope.bindAll_cons, Scope.bindAll_cons, Scope.bindAll_cons]
      exact ih (stands.bind _ isKept)

theorem Situation.Leads.stands (leads : now.Leads linkage later)
    (stands : Stands now.memory.world now.contents types env bindings) :
    Stands later.memory.world later.contents types env bindings :=
  stands.mono leads.advances.worlds leads.keeps

theorem Situation.Leads.kept (leads : now.Leads linkage later)
    (kept : binding.KeptAt now.memory.world now.contents location) :
    binding.KeptAt later.memory.world later.contents location :=
  kept.mono leads.advances.worlds leads.keeps

theorem Situation.Declares.stands {emitter : Emitter} {type : SourceTy} {datum : Datum}
    (declares : now.Declares linkage emitter later binding type datum)
    (stands : Stands now.memory.world now.contents types env bindings) (name : Name) :
    Stands later.memory.world later.contents (types.bind name type)
      (env.bind name now.memory.data.length) (bindings.bind name binding) :=
  declares.type ▸ (declares.toLeads.stands stands).bind name declares.kept

end Names

/-! ## Parameters -/

theorem argSlot_eq_ok {index slot : Nat} (done : argSlot index = .ok slot) : slot = index := by
  unfold argSlot at done
  split at done
  · cases done
    rfl
  · cases done

namespace LowerContext

theorem newCell_place {context : LowerContext} {type : SourceTy} {filled : Bool}
    {before after : Emitter} {binding : Binding}
    (written : (context.newCell type filled).Writes before binding after) :
    ∃ slot, binding.place = .localSlot slot := by
  obtain ⟨_, _, _, written⟩ := Lower.writes_bind.mp written
  have written := Lower.writes_emit_bind.mp written
  obtain ⟨slot, _, _, written⟩ := Lower.writes_bind.mp written
  obtain ⟨rfl, -⟩ := Lower.writes_pure.mp written
  exact ⟨slot, rfl⟩

theorem bindParams_adds (context : LowerContext) (params : List Binder) (first : Nat)
    (env : Scope Binding) : (context.bindParams params first env).Adds :=
  (Lower.Adds.compositional context).bindParams params first env

end LowerContext

namespace Situation

variable {linkage : Linkage} {context : LowerContext} {now : Situation} {seat : Seat}
variable {before after : Emitter} {limit : Nat} {post : Config → Prop} {stack : List Value}
variable {value : Value} {type : SourceTy} {datum : Datum}

/-- A parameter that is not captured stays in its slot. -/
theorem Sound.declareArg {slot : Nat} (sound : now.Sound linkage before)
    (isValue : type.isVoid = false) (free : now.contents (.argument slot) = none)
    (held : now.frame.args[slot]? = some value)
    (represents : Represents linkage now.memory.world now.memory.store.heap type datum value) :
    now.Declares linkage before
      ⟨now.frame, now.memory.declare type none datum now.memory.store,
        now.contents.add (.argument slot) (.located now.memory.world.length)⟩
      ⟨type, .argument slot, false⟩ type datum := by
  have declared := sound.declare (.refl _) isValue represents none nofun
  obtain ⟨isStored, isDatum⟩ :=
    Memory.getElem?_declare_self sound.fits type none datum now.memory.store
  have is : (Content.located now.memory.world.length).Is linkage
      (now.memory.declare type none datum now.memory.store) value :=
    ⟨type, datum, isStored, isDatum, represents.mono (List.prefix_append _ _) (.refl _)⟩
  have carries : now.frame.Carries linkage _ _ :=
    declared.carries.add rfl rfl free (fun _ _ _ _ => id) (by simp) held is (by
      rintro _ ⟨⟩
      exact sound.carries.not_located (Nat.le_refl _))
  exact {
    toLeads := declared.add rfl carries free (by rintro _ ⟨⟩; exact Nat.le_refl _)
    below := fun other beyond =>
      have differs : Place.localSlot other ≠ .argument slot := by simp
      (now.contents.add_of_ne (.located now.memory.world.length) differs).trans
        (sound.below other beyond)
    data := rfl
    args := rfl
    others := fun _ => Contents.add_of_ne _ _
    type := rfl
    kept := ⟨nofun, fun _ => ⟨sound.fits.length ▸ isStored,
      sound.fits.length ▸ Contents.add_self _ _ _⟩⟩ }

/-- Parameters come to be from the arguments of a frame. -/
theorem arrives_bindParams (admits : linkage.Admits context) {params : List Binder} {first : Nat}
    {data later : List Datum} {types : Scope SourceTy} {env inner : Scope Location}
    {bindings result : Scope Binding} (sound : now.Sound linkage before)
    (stands : Stands now.memory.world now.contents types env bindings)
    (free : ∀ slot, first ≤ slot → now.contents (.argument slot) = none)
    (isValue : ∀ param ∈ params, param.type.isVoid = false)
    (held : ∀ index param datum, params[index]? = some param → data[index]? = some datum →
      ∃ value, now.frame.args[first + index]? = some value ∧
        Represents linkage now.memory.world now.memory.store.heap param.type datum value)
    (evaluated : (Expr.evalParams (params.map Binder.name) data env).run now.memory.data =
      some (inner, later))
    (written : (context.bindParams params first bindings).Writes before result after)
    (placed : after.PlacedIn now.frame.body)
    (rest : ∀ final, now.Leads linkage final → final.contents.Below after.locals.size →
      final.memory.data = later → Stands final.memory.world final.contents
        (types.bindAll (params.map fun param => (param.name, param.type))) inner result →
        Arrives linkage.image limit (final.config seat after.position stack) post) :
    Arrives linkage.image limit (now.config seat before.position stack) post := by
  induction params generalizing now before first data types env bindings with
  | nil =>
      cases data with
      | cons datum data => cases evaluated
      | nil =>
          obtain ⟨rfl, rfl⟩ := Evaluation.run_pure_eq_some.mp evaluated
          obtain ⟨rfl, rfl⟩ := Lower.writes_pure.mp written
          exact rest now sound.leads sound.below rfl stands
  | cons param params ih =>
      cases data with
      | nil => cases evaluated
      | cons datum data =>
          obtain ⟨location, middle, allocated, evaluated⟩ :=
            Evaluation.run_bind_eq_some.mp evaluated
          obtain ⟨rfl, rfl⟩ := Evaluation.run_allocate_eq_some.mp allocated
          obtain ⟨slot, isSlot, written⟩ := Lower.writes_lift_bind.mp written
          obtain rfl := argSlot_eq_ok isSlot
          obtain ⟨value, isHeld, represents⟩ := held 0 param datum rfl rfl
          have isParam := isValue param List.mem_cons_self
          -- What is left to show once the first parameter is there.
          have further : ∀ (early : Emitter) (binding : Binding) (next : Situation),
              (context.bindParams params (slot + 1) (bindings.bind param.name binding)).Writes early
                result after → now.Declares linkage early next binding param.type datum →
              (∀ other, slot + 1 ≤ other → binding.place ≠ .argument other) →
              Arrives linkage.image limit (next.config seat early.position stack) post := by
            intro early binding next written declares elsewhere
            refine ih (declares.toLeads.sound sound.unpinned declares.below)
              (declares.stands stands param.name) (fun other beyond => ?_)
              (List.forall_mem_cons.mp isValue).2 ?_
              (declares.data ▸ evaluated) written (declares.body ▸ placed) ?_
            · rw [declares.others _ (elsewhere other beyond).symm]
              exact free other (Nat.le_of_succ_le beyond)
            · intro index other datum isParam isDatum
              obtain ⟨value, isHeld, represents⟩ := held (index + 1) other datum isParam isDatum
              refine ⟨value, ?_, represents.mono declares.advances.worlds declares.advances.heaps⟩
              rw [declares.args, Nat.add_assoc, Nat.add_comm 1]
              exact isHeld
            · intro final leads below isData stands
              exact rest final (declares.toLeads.trans leads) below isData
                ((Scope.bindAll_cons ..).symm ▸ stands)
          dsimp only at written
          split at written
          · have written := Lower.writes_emit_bind.mp written
            obtain ⟨binding, early, made, written⟩ := Lower.writes_bind.mp written
            have binds : (context.bindTop param.type true).Writes _ binding early := made
            have isPlaced := placed.of_precedes (context.bindParams_adds _ _ _ _ _ _ written)
            have isFirst := isPlaced.of_precedes (context.newCell_adds _ _ _ _ _ made)
            refine Seat.arrives_loadArg isFirst.last isHeld ?_
            rw [← Emitter.position_emit]
            refine arrives_bindTop admits (sound.leads.sound sound.unpinned sound.below) isParam
              represents binds isPlaced fun next declares => ?_
            obtain ⟨place, isPlace⟩ := LowerContext.newCell_place made
            exact further early binding next written declares fun other _ => by simp [isPlace]
          · obtain ⟨binding, early, made, written⟩ := Lower.writes_bind.mp written
            obtain ⟨rfl, rfl⟩ := Lower.writes_pure.mp made
            have declares := sound.declareArg isParam (free slot (Nat.le_refl _)) isHeld represents
            have elsewhere : ∀ other, slot + 1 ≤ other → Place.argument slot ≠ .argument other := by
              rintro _ beyond ⟨⟩
              exact Nat.not_succ_le_self _ beyond
            have arrives := further _ _ _ written declares elsewhere
            exact arrives

end Situation

end ClassForge
