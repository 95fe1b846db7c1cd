import ClassForge.Proofs.Simulation.Representation

/-!
# Variables come to be and change

What happens to locations when a variable is declared or assigned: the cells and slots of the
machine follow the store of the meaning.
-/

namespace ClassForge

variable {place : Place}

namespace Memory

variable {linkage : Linkage} {memory : Memory} {store : Store} {type : SourceTy} {datum : Datum}
variable {value : Value}
variable {location : Location}
variable {cell : ObjRef}

/-- The memory when the machine has only made objects. -/
def withStore (memory : Memory) (store : Store) : Memory :=
  { memory with store }

/-- The memory with a new location. -/
def declare (memory : Memory) (type : SourceTy) (cell : Option ObjRef) (datum : Datum)
    (store : Store) : Memory where
  world := memory.world ++ [⟨type, cell⟩]
  data := memory.data ++ [datum]
  store := store

/-- The memory with another datum in a location. -/
def assign (memory : Memory) (location : Location) (datum : Datum) (store : Store) : Memory where
  world := memory.world
  data := memory.data.set location datum
  store := store

theorem getElem?_declare {cell : Option ObjRef} {storage : Storage}
    (known : (memory.declare type cell datum store).world[location]? = some storage) :
    memory.world[location]? = some storage ∨
      location = memory.world.length ∧ storage = ⟨type, cell⟩ := by
  rcases Nat.lt_or_ge location memory.world.length with old | new
  · exact .inl ((List.getElem?_append_left old).symm.trans known)
  · rw [declare, List.getElem?_append_right new, List.getElem?_singleton] at known
    split at known
    · next isFirst =>
        cases known
        exact .inr ⟨Nat.le_antisymm (Nat.sub_eq_zero_iff_le.mp isFirst) new, rfl⟩
    · cases known

theorem advances_withStore (retains : memory.store.heap.Retains store.heap) (contents : Contents) :
    memory.Advances linkage contents (memory.withStore store) :=
  ⟨List.prefix_refl _, retains.evolves, fun _ _ _ _ => rfl⟩

section

variable (fits : memory.Fits linkage)
include fits

theorem Fits.withStore (retains : memory.store.heap.Retains store.heap) :
    (memory.withStore store).Fits linkage where
  length := fits.length
  values := fits.values
  cells location type cell known := by
    obtain ⟨datum, value, isDatum, isCell, represents⟩ := fits.cells location type cell known
    exact ⟨datum, value, isDatum, retains _ _ isCell,
      represents.mono (List.prefix_refl _) retains.evolves⟩
  apart := fits.apart

theorem advances_declare (evolves : memory.store.heap.Evolves linkage.cell store.heap)
    (cell : Option ObjRef) (contents : Contents) :
    memory.Advances linkage contents (memory.declare type cell datum store) where
  worlds := List.prefix_append _ _
  heaps := evolves
  others _ _ known _ :=
    List.getElem?_append_left (fits.length ▸ (List.getElem?_eq_some_iff.mp known).1)

theorem getElem?_declare_self (type : SourceTy) (cell : Option ObjRef) (datum : Datum)
    (store : Store) :
    (memory.declare type cell datum store).world[memory.world.length]? = some ⟨type, cell⟩ ∧
      (memory.declare type cell datum store).data[memory.world.length]? = some datum := by
  refine ⟨List.getElem?_concat_length .., ?_⟩
  rw [fits.length]
  exact List.getElem?_concat_length ..

/-- A variable comes to be, in a cell of its own if it has one. -/
theorem Fits.declare {cell : Option ObjRef}
    (evolves : memory.store.heap.Evolves linkage.cell store.heap)
    (keeps : ∀ (location : Location) type ref, memory.world[location]? = some ⟨type, some ref⟩ →
      cell ≠ some ref ∧ store.heap.get? ref = memory.store.heap.get? ref)
    (isValue : type.isVoid = false)
    (represents : Represents linkage (memory.world ++ [⟨type, cell⟩]) store.heap type datum value)
    (isCell : ∀ ref, cell = some ref →
      store.heap.get? ref = some (.instance linkage.cell #[value])) :
    (memory.declare type cell datum store).Fits linkage where
  length := by simp [Memory.declare, fits.length]
  values storage member := by
    rcases List.mem_append.mp member with old | new
    · exact fits.values storage old
    · exact (List.mem_singleton.mp new) ▸ isValue
  cells location type' ref known := by
    rcases getElem?_declare known with old | ⟨rfl, same⟩
    · obtain ⟨datum', value', isDatum, isObject, stored⟩ := fits.cells location type' ref old
      refine ⟨datum', value', ?_, (keeps _ _ _ old).2.trans isObject,
        stored.mono (List.prefix_append _ _) evolves⟩
      exact (List.getElem?_append_left
        (fits.length ▸ (List.getElem?_eq_some_iff.mp old).1)).trans isDatum
    · cases same
      exact ⟨datum, value, (getElem?_declare_self fits _ _ _ _).2, isCell ref rfl, represents⟩
  apart location other type' otherType ref known otherKnown := by
    rcases getElem?_declare known with old | ⟨rfl, same⟩ <;>
      rcases getElem?_declare otherKnown with otherOld | ⟨rfl, otherSame⟩
    · exact fits.apart _ _ _ _ _ old otherOld
    · cases otherSame
      exact ((keeps _ _ _ old).1 rfl).elim
    · cases same
      exact ((keeps _ _ _ otherOld).1 rfl).elim
    · rfl

/-- A variable in a slot of the running frame is assigned. -/
theorem Fits.assign (isSlot : memory.world[location]? = some ⟨type, none⟩) :
    (memory.assign location datum memory.store).Fits linkage where
  length := fits.length.trans List.length_set.symm
  values := fits.values
  cells other type' ref known := by
    obtain ⟨datum', value', isDatum, isObject, stored⟩ := fits.cells other type' ref known
    refine ⟨datum', value', (List.getElem?_set_ne ?_).trans isDatum, isObject, stored⟩
    rintro rfl
    cases isSlot.symm.trans known
  apart := fits.apart

end

theorem advances_assign {contents : Contents} (isSlot : contents place = some (.located location)) :
    memory.Advances linkage contents (memory.assign location datum memory.store) where
  worlds := List.prefix_refl _
  heaps := .refl _
  others other _ _ elsewhere := by
    refine List.getElem?_set_ne ?_
    rintro rfl
    exact elsewhere place isSlot

/-- The store in which a cell holds another value. -/
def setCell (memory : Memory) (cell : ObjRef) (value : Value) : Store :=
  { memory.store with heap := memory.store.heap.setField cell 0 value }

theorem evolves_setCell (fits : memory.Fits linkage)
    (isBoxed : memory.world[location]? = some ⟨type, some cell⟩) (value : Value) :
    memory.store.heap.Evolves linkage.cell (memory.setCell cell value).heap := by
  obtain ⟨_, _, -, isObject, -⟩ := fits.cells location type cell isBoxed
  exact Heap.evolves_setField isObject value

/-- A variable in a cell is assigned. -/
theorem Fits.assignCell (fits : memory.Fits linkage)
    (isBoxed : memory.world[location]? = some ⟨type, some cell⟩)
    (represents : Represents linkage memory.world memory.store.heap type datum value) :
    (memory.assign location datum (memory.setCell cell value)).Fits linkage where
  length := fits.length.trans List.length_set.symm
  values := fits.values
  cells other type' ref known := by
    have evolves := evolves_setCell fits isBoxed value
    by_cases same : other = location
    · subst same
      cases known.symm.trans isBoxed
      obtain ⟨old, _, isDatum, isObject, -⟩ := fits.cells other type cell isBoxed
      refine ⟨datum, value, List.getElem?_set_self (List.getElem?_eq_some_iff.mp isDatum).1, ?_,
        represents.mono (List.prefix_refl _) evolves⟩
      change (memory.store.heap.setField cell 0 value).get? cell = _
      rw [Heap.setField, Heap.get?_modify, if_pos rfl, isObject]
      rfl
    · obtain ⟨datum', value', isDatum, isObject, stored⟩ := fits.cells other type' ref known
      refine ⟨datum', value', (List.getElem?_set_ne (Ne.symm same)).trans isDatum, ?_,
        stored.mono (List.prefix_refl _) evolves⟩
      have different : cell ≠ ref := by
        rintro rfl
        exact same (fits.apart _ _ _ _ _ known isBoxed)
      change (memory.store.heap.setField cell 0 value).get? ref = _
      rw [Heap.setField, Heap.get?_modify, if_neg different, isObject]
  apart := fits.apart

theorem advances_assignCell (fits : memory.Fits linkage)
    (isBoxed : memory.world[location]? = some ⟨type, some cell⟩) (contents : Contents) :
    memory.Advances linkage contents (memory.assign location datum (memory.setCell cell value)) where
  worlds := List.prefix_refl _
  heaps := evolves_setCell fits isBoxed value
  others other _ known _ := by
    refine List.getElem?_set_ne ?_
    rintro rfl
    cases isBoxed.symm.trans known

end Memory

namespace Frame.Carries

variable {linkage : Linkage} {frame : Frame} {memory : Memory} {contents : Contents}
variable {content : Content} {value : Value} {slot : Nat}

variable (carries : frame.Carries linkage memory contents)
include carries

/-- A location that has just come to be is in no slot yet. -/
theorem not_located {location : Location} (fresh : memory.world.length ≤ location) (place : Place) :
    contents place ≠ some (.located location) := by
  intro isLocated
  obtain ⟨_, -, _, _, known, -⟩ := carries.has place _ isLocated
  exact absurd (List.getElem?_eq_some_iff.mp known).1 (Nat.not_lt.mpr fresh)

/-- One more slot is known, which nothing was known about before. -/
theorem add {after : Frame}
    (isBody : after.body = frame.body) (isSize : after.locals.size = frame.locals.size)
    (free : contents place = none)
    (others : ∀ other value, other ≠ place → contents other ≠ none →
      frame.Has linkage memory.store.heap value other →
        after.Has linkage memory.store.heap value other)
    (isSlot : ∀ handle, place ≠ .receiverField handle)
    (has : after.Has linkage memory.store.heap value place) (is : content.Is linkage memory value)
    (fresh : ∀ location, content = .located location → ∀ other,
      contents other ≠ some (.located location)) :
    after.Carries linkage memory (contents.add place content) where
  has other known isKnown := by
    by_cases same : other = place
    · subst same
      rw [Contents.add_self] at isKnown
      exact ⟨value, has, Option.some.inj isKnown ▸ is⟩
    · rw [Contents.add_of_ne _ _ same] at isKnown
      obtain ⟨held, hasHeld, isHeld⟩ := carries.has other known isKnown
      exact ⟨held, others other held same (by simp [isKnown]) hasHeld, isHeld⟩
  apart first second location isFirst isSecond := by
    by_cases firstNew : first = place <;> by_cases secondNew : second = place
    · exact firstNew.trans secondNew.symm
    · subst firstNew
      rw [Contents.add_self] at isFirst
      rw [Contents.add_of_ne _ _ secondNew] at isSecond
      exact (fresh location (Option.some.inj isFirst) second isSecond).elim
    · subst secondNew
      rw [Contents.add_self] at isSecond
      rw [Contents.add_of_ne _ _ firstNew] at isFirst
      exact (fresh location (Option.some.inj isSecond) first isFirst).elim
    · rw [Contents.add_of_ne _ _ firstNew] at isFirst
      rw [Contents.add_of_ne _ _ secondNew] at isSecond
      exact carries.apart first second location isFirst isSecond
  receiver handle known isKnown := by
    rw [Contents.add_of_ne _ _ (isSlot handle).symm] at isKnown
    obtain ⟨held, receiver, isFixed, isReceiver⟩ := carries.receiver handle known isKnown
    refine ⟨held, receiver, isFixed, ?_⟩
    rw [Contents.add_of_ne _ _ ?_, isReceiver]
    rintro rfl
    cases isReceiver.symm.trans free
  locals := by rw [isSize, isBody, carries.locals]

/-- A value is stored in a local that nothing was known about. -/
theorem addLocal
    (free : contents (.localSlot slot) = none) (within : slot < frame.locals.size)
    (is : content.Is linkage memory value)
    (fresh : ∀ location, content = .located location → ∀ other,
      contents other ≠ some (.located location)) :
    Frame.Carries linkage { frame with locals := frame.locals.setIfInBounds slot value } memory
      (contents.add (.localSlot slot) content) := by
  refine carries.add rfl (Array.size_setIfInBounds ..) free ?_ (by simp)
    (Array.getElem?_setIfInBounds_self_of_lt within) is fresh
  intro other held differs _ has
  cases other with
  | argument => exact has
  | receiverField => exact has
  | localSlot other =>
      refine (Array.getElem?_setIfInBounds_ne ?_).trans has
      rintro rfl
      exact differs rfl

/-- The variable in a slot of the frame is assigned. -/
theorem assign {after : Frame} {location : Location} {type : SourceTy}
    {datum : Datum}
    (isLocated : contents place = some (.located location))
    (isStored : memory.world[location]? = some ⟨type, none⟩)
    (represents : Represents linkage memory.world memory.store.heap type datum value)
    (isBody : after.body = frame.body) (isSize : after.locals.size = frame.locals.size)
    (others : ∀ other value, other ≠ place → contents other ≠ none →
      frame.Has linkage memory.store.heap value other →
        after.Has linkage memory.store.heap value other)
    (has : after.Has linkage memory.store.heap value place) :
    after.Carries linkage (memory.assign location datum memory.store) contents where
  has other known isKnown := by
    by_cases same : other = place
    · subst same
      obtain rfl := Option.some.inj (isKnown.symm.trans isLocated)
      obtain ⟨_, -, _, _, -, isDatum, -⟩ := carries.has other _ isLocated
      exact ⟨value, has, type, datum, isStored,
        List.getElem?_set_self (List.getElem?_eq_some_iff.mp isDatum).1, represents⟩
    · obtain ⟨held, hasHeld, isHeld⟩ := carries.has other known isKnown
      refine ⟨held, others other held same (by simp [isKnown]) hasHeld, ?_⟩
      cases known with
      | fixed => exact isHeld
      | located elsewhere =>
          obtain ⟨type', datum', isKnown', isDatum', represents'⟩ := isHeld
          refine ⟨type', datum', isKnown', (List.getElem?_set_ne ?_).trans isDatum', represents'⟩
          rintro rfl
          exact same (carries.apart other place _ isKnown isLocated)
  apart := carries.apart
  receiver := carries.receiver
  locals := by rw [isSize, isBody, carries.locals]

end Frame.Carries

end ClassForge
