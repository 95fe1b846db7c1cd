import ClassForge.Proofs.Image.TypeTests
import ClassForge.Proofs.Simulation.RunningCalls

/-!
# Raw memory

A program can compute any number and use it as an address.  The instructions on raw memory check
each of them: what they read and write lies wholly inside an array of primitives that is pinned,
and an instruction that is refused has written nothing.
-/

namespace ClassForge

namespace Memory

variable {offset : Nat} {address : Int64} {array : ObjRef} {heap : Heap} {content : Array UInt8}
variable {data : List UInt8}

/-! ## Overwritten bytes -/

/-- Overwriting changes the bytes of the range and no other ones. -/
theorem getElem?_overwrite {bytes : Array UInt8} (inside : offset + data.length ≤ bytes.size)
    (index : Nat) :
    (overwrite bytes offset data)[index]? =
      if offset ≤ index ∧ index < offset + data.length then data[index - offset]?
      else bytes[index]? := by
  induction data generalizing bytes offset with
  | nil => exact (if_neg (by rw [List.length_nil]; omega)).symm
  | cons byte data ih =>
      rw [List.length_cons] at inside
      rw [overwrite, ih (by rw [Array.size_setIfInBounds]; omega),
        Array.getElem?_setIfInBounds, List.length_cons]
      by_cases first : index = offset
      · subst first
        rw [if_neg (by omega), if_pos rfl, if_pos (by omega), if_pos (by omega), Nat.sub_self]
        rfl
      · by_cases later : offset + 1 ≤ index ∧ index < offset + 1 + data.length
        · rw [if_pos later, if_pos (by omega), show index - offset = index - (offset + 1) + 1 by omega]
          rfl
        · rw [if_neg later, if_neg (Ne.symm first), if_neg (by omega)]

theorem toBytes_length (count word : Nat) : (toBytes count word).length = count := by
  induction count generalizing word with
  | zero => rfl
  | succ count ih => exact congrArg Nat.succ (ih (word / 256))

/-! ## Addressed bytes -/

/-- A number is the address of a byte of an array. -/
def Names (address : Int64) (array : ObjRef) (offset : Nat) : Prop :=
  offset < offsets ∧ address.toInt = (array.index + 1) * offsets + offset

theorem ofAddress?_eq_some :
    ofAddress? address = some (array, offset) ↔ Names address array offset := by
  unfold ofAddress? Names offsets
  constructor
  · intro named
    rw [Option.ite_none_right_eq_some] at named
    obtain ⟨positive, named⟩ := named
    cases named
    refine ⟨by omega, ?_⟩
    dsimp only
    omega
  · rintro ⟨small, isAddress⟩
    rw [if_pos (by omega)]
    have sameArray : (address.toInt / (4294967296 : Nat) - 1).toNat = array.index := by omega
    have sameOffset : (address.toInt % (4294967296 : Nat)).toNat = offset := by omega
    rw [sameArray, sameOffset]

/-- A range of bytes lies wholly inside an array of primitives that is pinned. -/
structure Covers (heap : Heap) (address : Int64) (count : Nat) (array : ObjRef)
    (content : Array UInt8) (offset : Nat) : Prop where
  names : Names address array offset
  pinned : ∃ element prim pins, 0 < pins ∧
    heap.get? array = some (.array element (.bytes prim content) pins)
  inside : offset + count ≤ content.size

theorem pinned?_eq_some {count : Nat} :
    pinned? heap address count = some (array, content, offset) ↔
      Covers heap address count array content offset := by
  constructor
  · intro found
    simp only [pinned?, Option.bind_eq_bind, Option.bind_eq_some_iff] at found
    obtain ⟨⟨named, start⟩, isNamed, object, isObject, found⟩ := found
    split at found
    next element prim bytes pins =>
      simp only [Option.ite_none_right_eq_some, Option.some.injEq, Prod.mk.injEq] at found
      obtain ⟨⟨isPinned, fits⟩, rfl, rfl, rfl⟩ := found
      exact ⟨ofAddress?_eq_some.mp isNamed, ⟨element, prim, pins, isPinned, isObject⟩, fits⟩
    · cases found
  · rintro ⟨names, ⟨element, prim, pins, isPinned, isObject⟩, fits⟩
    simp only [pinned?, ofAddress?_eq_some.mpr names, Option.bind_eq_bind, Option.bind_some,
      isObject]
    rw [if_pos ⟨isPinned, fits⟩]

/-- What the bytes of a range are. -/
def Holds (heap : Heap) (address : Int64) (data : List UInt8) : Prop :=
  ∃ array content offset, Covers heap address data.length array content offset ∧
    ∀ index < data.length, content[offset + index]? = data[index]?

/-- A heap in which the bytes of a range have been replaced, and nothing else. -/
structure Rewrites (heap later : Heap) (array : ObjRef) (offset : Nat) (data : List UInt8) :
    Prop where
  others : ∀ ref, ref ≠ array → later.get? ref = heap.get? ref
  bytes : ∀ element prim content pins,
    heap.get? array = some (.array element (.bytes prim content) pins) →
      ∃ changed, later.get? array = some (.array element (.bytes prim changed) pins) ∧
        changed.size = content.size ∧
        ∀ index, changed[index]? =
          if offset ≤ index ∧ index < offset + data.length then data[index - offset]?
          else content[index]?

/-- A heap in which the bytes at an address have been replaced: the range lies inside an array
that is pinned, and nothing else has changed. -/
def Writes (heap later : Heap) (address : Int64) (data : List UInt8) : Prop :=
  ∃ array content offset, Covers heap address data.length array content offset ∧
    Rewrites heap later array offset data

/-- Overwriting the bytes of a covered range. -/
theorem Covers.writes (covers : Covers heap address data.length array content offset) :
    Writes heap (setBytes heap array fun bytes => overwrite bytes offset data) address data := by
  refine ⟨array, content, offset, covers, ?_, ?_⟩
  · intro ref other
    rw [setBytes, Heap.get?_modify, if_neg (Ne.symm other)]
  · intro element prim bytes pins found
    obtain ⟨_, _, _, -, isContent⟩ := covers.pinned
    obtain rfl : content = bytes := by
      rw [found] at isContent
      cases isContent
      rfl
    refine ⟨overwrite content offset data, ?_, size_overwrite _ _ _,
      getElem?_overwrite covers.inside⟩
    rw [setBytes, Heap.get?_modify, if_pos rfl, found]
    rfl

/-- The bytes of a covered range. -/
theorem Covers.extract {count : Nat} (covers : Covers heap address count array content offset) :
    (content.extract offset (offset + count)).toList.length = count ∧
      Holds heap address (content.extract offset (offset + count)).toList := by
  have length : (content.extract offset (offset + count)).toList.length = count := by
    have := covers.inside
    simp
    omega
  refine ⟨length, array, content, offset, length.symm ▸ covers, fun index inside => ?_⟩
  rw [Array.getElem?_toList, Array.getElem?_extract]
  rw [length] at inside
  have := covers.inside
  rw [if_pos (by omega)]

/-- A range that is not inside a pinned array holds nothing. -/
theorem not_holds {length : Nat} (isLength : data.length = length)
    (missing : pinned? heap address length = none) : ¬ Holds heap address data := by
  rintro ⟨array, content, offset, covers, -⟩
  subst isLength
  cases missing.symm.trans (pinned?_eq_some.mpr covers)

end Memory

/-! ## Instructions -/

/-- The address that a value is, if it is one. -/
def Value.rawAddress? : Value → Option Int64
  | native address | int64 address => some address
  | element array offset => some (Memory.address array offset)
  | _ => none

namespace Memory

/-- What copying a block does. -/
def Copies (heap later : Heap) (target source : Value) (count : Int32) : Prop :=
  count = 0 ∧ later = heap ∨ count ≠ 0 ∧ ∃ origin goal data,
    source.rawAddress? = some origin ∧ target.rawAddress? = some goal ∧
      data.length = count.toUInt32.toNat ∧ Holds heap origin data ∧ Writes heap later goal data

/-- What filling a block does. -/
def Fills (heap later : Heap) (target : Value) (byte count : Int32) : Prop :=
  count = 0 ∧ later = heap ∨ count ≠ 0 ∧ ∃ goal, target.rawAddress? = some goal ∧
    Writes heap later goal (List.replicate count.toUInt32.toNat byte.toUInt32.toUInt8)

end Memory

/-- The instructions on raw memory. -/
def Instr.isRaw : Instr → Bool
  | loadIndirect _ | storeIndirect _ | copyBlock | fillBlock => true
  | _ => false

open Memory in
/-- What an instruction on raw memory that completes does to the stack and to the heap. -/
inductive Instr.Completes : Instr → List Value → Heap → List Value → Heap → Prop where
  | load {prim : Prim} {address : Value} {number : Int64} {data : List UInt8} {stack : List Value}
      {heap : Heap} (isAddress : address.rawAddress? = some number)
      (length : data.length = prim.size) (holds : Holds heap number data) :
      Completes (.loadIndirect prim) (address :: stack) heap
        (decode prim (ofBytes data) :: stack) heap
  | store {prim : Prim} {address value : Value} {number : Int64} {word : Nat} {stack : List Value}
      {heap later : Heap} (isAddress : address.rawAddress? = some number)
      (encodes : encode? prim value = some word)
      (writes : Writes heap later number (toBytes prim.size word)) :
      Completes (.storeIndirect prim) (value :: address :: stack) heap stack later
  | copy {count : Int32} {source target : Value} {stack : List Value} {heap later : Heap}
      (copies : Copies heap later target source count) :
      Completes .copyBlock (.int32 count :: source :: target :: stack) heap stack later
  | fill {count byte : Int32} {target : Value} {stack : List Value} {heap later : Heap}
      (fills : Fills heap later target byte count) :
      Completes .fillBlock (.int32 count :: .int32 byte :: target :: stack) heap stack later

/-! ## Refusals -/

namespace Heap

/-- A change of an object that was not there before. -/
theorem Retains.modify_fresh {heap later : Heap} (retains : heap.Retains later) {ref : ObjRef}
    (fresh : heap.get? ref = none) (change : HeapObject → HeapObject) :
    heap.Retains (later.modify ref change) := by
  intro other object found
  have old : ref ≠ other := by
    rintro rfl
    cases fresh.symm.trans found
  rw [get?_modify, if_neg old]
  exact retains other object found

end Heap

namespace Exec

variable {image : Image} {store : Store}

/-- An action gives a value and a heap as described, or it breaks off because there are none, and
leaves every object alone. -/
def Settles {α : Type} (action : Exec α) (store : Store) (post : α → Heap → Prop) : Prop :=
  (∃ value later, post value later ∧
      action.run store = .ok value { store with heap := later }) ∨
    (∀ value later, ¬ post value later) ∧
      ∃ trap later, action.run store = .error trap { store with heap := later } ∧
        store.heap.Retains later

theorem Settles.malformed {α : Type} {cause : Malformation} {post : α → Heap → Prop}
    (none : ∀ value later, ¬ post value later) : (malformed cause : Exec α).Settles store post :=
  .inr ⟨none, _, store.heap, rfl, .refl _⟩

/-- An operand that an action needs, and what comes after it. -/
theorem Settles.require_bind {α β : Type} {value? : Option α} {cause : Malformation}
    {next : α → Exec β} {post : β → Heap → Prop}
    (missing : value? = none → ∀ value later, ¬ post value later)
    (found : ∀ value, value? = some value → (next value).Settles store post) :
    (require value? cause >>= next).Settles store post := by
  cases value? with
  | none => exact .malformed (missing rfl)
  | some value => exact found value rfl

theorem Settles.heap_bind {α : Type} {next : Heap → Exec α} {post : α → Heap → Prop}
    (settles : (next store.heap).Settles store post) : (heap >>= next).Settles store post :=
  settles

theorem Settles.congr {α : Type} {action : Exec α} {post : α → Heap → Prop}
    (other : α → Heap → Prop) (same : ∀ value later, post value later ↔ other value later)
    (settles : action.Settles store other) : action.Settles store post := by
  unfold Settles at settles ⊢
  simpa only [same] using settles

/-- Adding an instance leaves the objects that are there alone, whatever the image. -/
theorem allocInstance_retains (handle : TypeHandle) :
    (∃ object later, (allocInstance image handle).run store = .ok object { store with heap := later } ∧
        store.heap.Retains later ∧ store.heap.get? object = none) ∨
      ∃ error, (allocInstance image handle).run store = .error (.fatal error) store := by
  unfold allocInstance
  rw [EStateM.run_bind]
  cases isType : image.type handle with
  | error error => exact .inr ⟨_, rfl⟩
  | ok info =>
      dsimp only [ofImage]
      rw [EStateM.run_pure]
      dsimp only
      cases info.isComplete with
      | false => exact .inr ⟨_, rfl⟩
      | true =>
          let fields := (image.lineage handle).flatMap fun info =>
            ((image.fieldsOf info).map (·.2)).filter fun field => !field.attrs.isStatic
          let filled := (fields.foldlM (fun slots field => do
              let value ← defaultUpTo image (image.types.size + 1) field.type
              return slots.setIfInBounds field.slot value)
            (Array.replicate info.instanceSlots Value.null) : StateM Heap _).run store.heap
          have retains : store.heap.Retains filled.2 :=
            Heap.fill_retains (fun type heap => Heap.defaultUpTo_retains image _ type heap) _ _ _
          refine .inl ⟨⟨filled.2.size⟩, _, rfl, retains.trans (Heap.retains_alloc _ _), ?_⟩
          refine Option.eq_none_iff_forall_ne_some.mpr fun object found => ?_
          exact absurd (Heap.lt_size_of_get? (retains _ _ found)) (Nat.lt_irrefl _)

/-- Raising an exception of the platform only adds objects. -/
theorem Settles.raise {α : Type} {exception : SystemException} {post : α → Heap → Prop}
    (none : ∀ value later, ¬ post value later) :
    (raise image exception : Exec α).Settles store post := by
  refine .inr ⟨none, ?_⟩
  unfold Exec.raise
  cases image.typeNamed? exception.typeName with
  | none => exact ⟨_, store.heap, rfl, .refl _⟩
  | some handle =>
      dsimp only
      rw [EStateM.run_bind]
      rcases @allocInstance_retains image store handle with
        ⟨object, later, ran, retains, fresh⟩ | ⟨error, ran⟩
      · rw [ran]
        exact ⟨_, _, rfl, retains.modify_fresh fresh _⟩
      · rw [ran]
        exact ⟨_, store.heap, rfl, .refl _⟩

end Exec

namespace FrameStep

variable {image : Image} {store : Store} {address value target source count : Value}

/-! ## Reading and writing -/

theorem addressOperand_eq (address : Value) :
    addressOperand address = Exec.require address.rawAddress? .nonAddress := by
  cases address <;> rfl

open Memory

/-- A primitive is read from bytes that are there, or not at all. -/
theorem loadIndirect_settles {prim : Prim} :
    (loadIndirect image prim address).Settles store fun result later => later = store.heap ∧
      ∃ number data, address.rawAddress? = some number ∧ data.length = prim.size ∧
        Holds store.heap number data ∧ result = decode prim (ofBytes data) := by
  unfold loadIndirect
  rw [addressOperand_eq]
  refine .require_bind (fun missing => by simp [missing]) fun number isAddress => ?_
  refine .heap_bind ?_
  cases found : pinned? store.heap number prim.size with
  | none =>
      rw [show load? store.heap number prim = none by rw [load?, found]; rfl]
      refine .raise fun _ _ => ?_
      rintro ⟨-, other, data, isOther, length, holds, -⟩
      cases isAddress.symm.trans isOther
      exact not_holds length found holds
  | some range =>
      obtain ⟨array, content, offset⟩ := range
      have covers := pinned?_eq_some.mp found
      have loaded : load? store.heap number prim = some
          (decode prim (ofBytes (content.extract offset (offset + prim.size)).toList)) := by
        rw [load?, found]
        change read? content offset prim = _
        rw [read?, slice?, if_pos covers.inside]
        rfl
      rw [loaded]
      exact .inl ⟨_, store.heap,
        ⟨rfl, number, _, isAddress, covers.extract.1, covers.extract.2, rfl⟩, rfl⟩

/-- A change of raw memory is carried out, or it is refused when it is not possible. -/
theorem accessMemory_settles {change : Heap → Option Heap} {post : Heap → Prop}
    (done : ∀ later, change store.heap = some later → post later)
    (refused : change store.heap = none → ∀ later, ¬ post later) :
    (accessMemory image change).Settles store fun _ later => post later := by
  refine .heap_bind ?_
  cases changed : change store.heap with
  | none => exact .raise fun _ => refused changed
  | some later => exact .inl ⟨(), later, done later changed, rfl⟩

/-- A primitive is written over bytes that are there, or nothing is. -/
theorem storeIndirect_settles {prim : Prim} :
    (storeIndirect image prim address value).Settles store fun _ later =>
      ∃ number word, address.rawAddress? = some number ∧ encode? prim value = some word ∧
        Writes store.heap later number (toBytes prim.size word) := by
  unfold storeIndirect
  rw [addressOperand_eq]
  refine .require_bind (fun missing => by simp [missing]) fun number isAddress => ?_
  refine accessMemory_settles (fun later changed => ?_) fun refused later => ?_
  · simp only [store?, Option.bind_eq_bind, Option.bind_eq_some_iff, Option.some.injEq] at changed
    obtain ⟨⟨array, content, offset⟩, found, word, encodes, rfl⟩ := changed
    have covers := pinned?_eq_some.mp found
    rw [← toBytes_length prim.size word] at covers
    exact ⟨number, word, isAddress, encodes, covers.writes⟩
  · rintro ⟨other, word, isOther, encodes, writes⟩
    cases isAddress.symm.trans isOther
    obtain ⟨array, content, offset, covers, -⟩ := writes
    rw [toBytes_length] at covers
    rw [store?, pinned?_eq_some.mpr covers, encodes] at refused
    cases refused

theorem toNat_pos {count : Int32} (some : count ≠ 0) : 0 < count.toUInt32.toNat := by
  refine Nat.pos_of_ne_zero fun zero => some ?_
  have same : count.toUInt32 = 0 := UInt32.toNat_inj.mp zero
  rw [← Int32.toInt32_toUInt32 count, same]
  rfl

/-- Bytes are copied from a range that is there to one that is there, or nothing is. -/
theorem copyBlock_settles :
    (copyBlock image target source count).Settles store fun _ later =>
      ∃ length, count = .int32 length ∧ Copies store.heap later target source length := by
  unfold copyBlock countOperand
  rw [bind_assoc]
  refine .require_bind (fun missing => ?_) fun length isCount => ?_
  · rintro - later ⟨length, rfl, -⟩
    cases missing
  obtain rfl : count = .int32 length := by
    cases count <;> cases isCount
    rfl
  by_cases none : length = 0
  · subst none
    exact .inl ⟨(), store.heap, ⟨0, rfl, .inl ⟨rfl, rfl⟩⟩, rfl⟩
  refine .congr (fun _ later => ∃ origin goal data, source.rawAddress? = some origin ∧
    target.rawAddress? = some goal ∧ data.length = length.toUInt32.toNat ∧
    Holds store.heap origin data ∧ Writes store.heap later goal data)
    (fun _ later => by simp [Copies, none]) ?_
  change (if 0 < length.toUInt32.toNat then _ else _ : Exec Unit).Settles store _
  rw [if_pos (toNat_pos none), addressOperand_eq, addressOperand_eq]
  refine .require_bind (fun missing => by simp [missing]) fun origin isSource => ?_
  refine .require_bind (fun missing => by simp [missing]) fun goal isTarget => ?_
  refine accessMemory_settles (fun later changed => ?_) fun refused later => ?_
  · simp only [copy?, Option.bind_eq_bind, Option.bind_eq_some_iff, Option.some.injEq] at changed
    obtain ⟨⟨_, content, start⟩, isOrigin, ⟨array, other, offset⟩, isGoal, rfl⟩ := changed
    obtain ⟨isLength, holds⟩ := (pinned?_eq_some.mp isOrigin).extract
    have covers := pinned?_eq_some.mp isGoal
    rw [← isLength] at covers
    exact ⟨origin, goal, _, isSource, isTarget, isLength, holds, covers.writes⟩
  · rintro ⟨other, another, data, isOther, isAnother, isLength, holds, writes⟩
    cases isSource.symm.trans isOther
    cases isTarget.symm.trans isAnother
    obtain ⟨_, _, _, reads, -⟩ := holds
    obtain ⟨_, _, _, covers, -⟩ := writes
    rw [isLength] at reads covers
    rw [copy?, pinned?_eq_some.mpr reads, Option.bind_eq_bind, Option.bind_some,
      pinned?_eq_some.mpr covers] at refused
    cases refused

/-- Bytes are filled that are there, or none are. -/
theorem fillBlock_settles :
    (fillBlock image target value count).Settles store fun _ later =>
      ∃ length byte, count = .int32 length ∧ value = .int32 byte ∧
        Fills store.heap later target byte length := by
  unfold fillBlock countOperand
  rw [bind_assoc]
  refine .require_bind (fun missing => ?_) fun length isCount => ?_
  · rintro - later ⟨length, byte, rfl, -⟩
    cases missing
  obtain rfl : count = .int32 length := by
    cases count <;> cases isCount
    rfl
  rw [pure_bind]
  refine .require_bind (fun missing => ?_) fun byte isValue => ?_
  · rintro - later ⟨length, byte, -, rfl, -⟩
    cases missing
  obtain rfl : value = .int32 byte := by
    cases value <;> cases isValue
    rfl
  by_cases none : length = 0
  · subst none
    exact .inl ⟨(), store.heap, ⟨0, byte, rfl, rfl, .inl ⟨rfl, rfl⟩⟩, rfl⟩
  refine .congr (fun _ later => ∃ goal, target.rawAddress? = some goal ∧
    Writes store.heap later goal (List.replicate length.toUInt32.toNat byte.toUInt32.toUInt8))
    (fun _ later => by simp [Fills, none]) ?_
  change (if 0 < length.toUInt32.toNat then _ else _ : Exec Unit).Settles store _
  rw [if_pos (toNat_pos none), addressOperand_eq]
  refine .require_bind (fun missing => by simp [missing]) fun goal isTarget => ?_
  refine accessMemory_settles (fun later changed => ?_) fun refused later => ?_
  · simp only [fill?, Option.bind_eq_bind, Option.bind_eq_some_iff, Option.some.injEq] at changed
    obtain ⟨⟨array, other, offset⟩, isGoal, rfl⟩ := changed
    have covers := pinned?_eq_some.mp isGoal
    rw [← List.length_replicate (n := length.toUInt32.toNat) (a := byte.toUInt32.toUInt8)] at covers
    exact ⟨goal, isTarget, covers.writes⟩
  · rintro ⟨other, isOther, writes⟩
    cases isTarget.symm.trans isOther
    obtain ⟨_, _, _, covers, -⟩ := writes
    rw [List.length_replicate] at covers
    rw [fill?, pinned?_eq_some.mpr covers] at refused
    cases refused

theorem run_pop_cons (body : Body) (args locals : Array Value) (value : Value) (stack : List Value)
    (position : Nat) (pending : List Pending) :
    pop.run ⟨body, args, locals, value :: stack, position, pending⟩ =
      pure (value, ⟨body, args, locals, stack, position, pending⟩) :=
  run_pop rfl

/-- An instruction whose effect is that of an action on its operands, which are there. -/
theorem confined_of_action {α : Type} {step : FrameStep Flow} {frame : Frame} (action : Exec α)
    (finish : α → List Value) {post : α → Heap → Prop} {completes : List Value → Heap → Prop}
    (ran : (step.run frame).run store = (action >>= fun value =>
      pure (Flow.next, { frame with stack := finish value }) : Exec (Flow × Frame)).run store)
    (settles : action.Settles store post)
    (describes : ∀ rest later, completes rest later ↔ ∃ value, post value later ∧ finish value = rest) :
    (∃ rest later, completes rest later ∧ (step.run frame).run store =
        .ok (.next, { frame with stack := rest }) { store with heap := later }) ∨
      (∀ rest later, ¬ completes rest later) ∧
        ∃ trap later, (step.run frame).run store = .error trap { store with heap := later } ∧
          store.heap.Retains later := by
  rw [ran, EStateM.run_bind]
  rcases settles with ⟨value, later, holds, done⟩ | ⟨none, trap, later, refused, retains⟩
  · exact .inl ⟨_, later, (describes _ later).mpr ⟨value, holds, rfl⟩, by rw [done]; rfl⟩
  · refine .inr ⟨fun rest later completes => ?_, trap, later, by rw [refused], retains⟩
    obtain ⟨value, holds, -⟩ := (describes rest later).mp completes
    exact none value later holds

/-- Raw memory is confined.  An instruction on it either completes or breaks off, and when it
breaks off every object is as before.  A range that it reads or writes lies wholly inside a pinned
array of primitives; the bytes of the written range are all that differs afterwards; and a copied
block is what the source held before, even where it overlaps the target. -/
theorem raw_memory_confined (image : Image) (current : Nat) {instr : Instr}
    (raw : instr.isRaw = true) (frame : Frame) (store : Store) :
    (∃ rest later, instr.Completes frame.stack store.heap rest later ∧
        ((execute image current instr).run frame).run store =
          .ok (.next, { frame with stack := rest }) { store with heap := later }) ∨
      (∀ rest later, ¬ instr.Completes frame.stack store.heap rest later) ∧
        ∃ trap later, ((execute image current instr).run frame).run store =
            .error trap { store with heap := later } ∧ store.heap.Retains later := by
  obtain ⟨body, args, locals, stack, position, pending⟩ := frame
  -- Without its operands an instruction is refused; with them it does what its action does.
  cases instr with
  | loadIndirect prim =>
      rcases stack with _ | ⟨address, stack⟩
      · exact .inr ⟨by rintro _ _ ⟨⟩, _, store.heap, rfl, .refl _⟩
      refine confined_of_action (loadIndirect image prim address) (· :: stack)
        (by rw [execute, run_mapTop rfl]) loadIndirect_settles fun rest later => ⟨?_, ?_⟩
      · intro completes
        cases completes with
        | load isAddress length holds =>
            exact ⟨_, ⟨rfl, _, _, isAddress, length, holds, rfl⟩, rfl⟩
      · rintro ⟨value, ⟨rfl, number, data, isAddress, length, holds, rfl⟩, rfl⟩
        exact .load isAddress length holds
  | storeIndirect prim =>
      rcases stack with _ | ⟨value, _ | ⟨address, stack⟩⟩
      iterate 2 · exact .inr ⟨by rintro _ _ ⟨⟩, _, store.heap, rfl, .refl _⟩
      refine confined_of_action (storeIndirect image prim address value) (fun _ => stack)
        (by simp [execute, run_pop_cons]) storeIndirect_settles fun rest later => ⟨?_, ?_⟩
      · intro completes
        cases completes with
        | store isAddress encodes writes => exact ⟨(), ⟨_, _, isAddress, encodes, writes⟩, rfl⟩
      · rintro ⟨-, ⟨number, word, isAddress, encodes, writes⟩, rfl⟩
        exact .store isAddress encodes writes
  | copyBlock =>
      rcases stack with _ | ⟨count, _ | ⟨source, _ | ⟨target, stack⟩⟩⟩
      iterate 3 · exact .inr ⟨by rintro _ _ ⟨⟩, _, store.heap, rfl, .refl _⟩
      refine confined_of_action (copyBlock image target source count) (fun _ => stack)
        (by simp [execute, run_pop_cons]) copyBlock_settles fun rest later => ⟨?_, ?_⟩
      · intro completes
        cases completes with
        | copy copies => exact ⟨(), ⟨_, rfl, copies⟩, rfl⟩
      · rintro ⟨-, ⟨length, rfl, copies⟩, rfl⟩
        exact .copy copies
  | fillBlock =>
      rcases stack with _ | ⟨count, _ | ⟨value, _ | ⟨target, stack⟩⟩⟩
      iterate 3 · exact .inr ⟨by rintro _ _ ⟨⟩, _, store.heap, rfl, .refl _⟩
      refine confined_of_action (fillBlock image target value count) (fun _ => stack)
        (by simp [execute, run_pop_cons]) fillBlock_settles fun rest later => ⟨?_, ?_⟩
      · intro completes
        cases completes with
        | fill fills => exact ⟨(), ⟨_, _, rfl, rfl, fills⟩, rfl⟩
      · rintro ⟨-, ⟨length, byte, rfl, rfl, fills⟩, rfl⟩
        exact .fill fills
  | _ => cases raw

/-- A store with one array, which is pinned. -/
def pinnedBytes (content : Array UInt8) : Store where
  heap := ⟨#[.array (.prim .uint8) (.bytes .uint8 content) 1]⟩
  statics := #[]
  output := ""

/-- A frame that is about to copy four bytes of that array over a range that overlaps them. -/
def overlappingCopy : Frame where
  body := { instrs := #[], labels := #[], locals := #[], regions := [] }
  args := #[]
  locals := #[]
  stack := [.int32 4, .native (Memory.address ⟨0⟩ 0), .element ⟨0⟩ 2]
  position := 0
  pending := []

theorem raw_memory_confined_overlapping :
    Instr.copyBlock.isRaw = true ∧ ∃ rest,
      Instr.copyBlock.Completes overlappingCopy.stack (pinnedBytes #[1, 2, 3, 4, 5, 6, 7, 8]).heap
        rest (pinnedBytes #[1, 2, 1, 2, 3, 4, 7, 8]).heap := by
  have ran : ((execute .library 0 .copyBlock).run overlappingCopy).run
      (pinnedBytes #[1, 2, 3, 4, 5, 6, 7, 8]) =
      .ok (.next, { overlappingCopy with stack := [] }) (pinnedBytes #[1, 2, 1, 2, 3, 4, 7, 8]) := by
    rfl
  refine ⟨rfl, ?_⟩
  rcases @raw_memory_confined .library 0 .copyBlock rfl overlappingCopy
    (pinnedBytes #[1, 2, 3, 4, 5, 6, 7, 8]) with
    ⟨rest, later, completes, done⟩ | ⟨-, trap, later, refused, -⟩
  · rw [ran] at done
    cases done
    exact ⟨_, completes⟩
  · rw [ran] at refused
    cases refused

end FrameStep

end ClassForge
