import ClassForge.Proofs.Machine.RawMemory
import ClassForge.Proofs.Machine.StraightCode
import ClassForge.Proofs.Number.IntegerValues

/-!
# Elements and pointers

The elements of an array of integers can be reached in two ways: by their index, and through a
pointer while the array is pinned.  Both lead to the same bytes, least significant first, so what
is written in one way is read back in the other one.
-/

namespace ClassForge

namespace Memory

variable {position : Nat}

/-! ## Words and their bytes -/

/-- A word is read back from its bytes, up to the bits that there are bytes for. -/
theorem ofBytes_toBytes (count word : Nat) : ofBytes (toBytes count word) = word % 256 ^ count := by
  induction count generalizing word with
  | zero => exact (Nat.mod_one word).symm
  | succ count ih =>
      rw [toBytes, ofBytes, ih, Nat.pow_succ', Nat.mod_mul, UInt8.toNat_ofNat']

theorem getElem?_toBytes {count : Nat} (inside : position < count) (word : Nat) :
    (toBytes count word)[position]? = some (UInt8.ofNat (word / 256 ^ position)) := by
  induction count generalizing position word with
  | zero => exact absurd inside (Nat.not_lt_zero _)
  | succ count ih =>
      cases position with
      | zero => simp [toBytes]
      | succ position =>
          rw [toBytes, List.getElem?_cons_succ, ih (Nat.lt_of_succ_lt_succ inside), Nat.pow_succ',
            Nat.div_div_eq_div_mul]

/-! ## Ranges of bytes -/

variable {bytes : Array UInt8} {offset other count : Nat} {data : List UInt8}

/-- The bytes of a range are told by their positions. -/
theorem slice?_eq_some (inside : offset + data.length ≤ bytes.size)
    (same : ∀ index < data.length, bytes[offset + index]? = data[index]?) :
    slice? bytes offset data.length = some data := by
  rw [slice?, if_pos inside]
  congr 1
  refine List.ext_getElem? fun index => ?_
  rw [Array.getElem?_toList, Array.getElem?_extract]
  by_cases within : index < data.length
  · rw [if_pos (by omega), same index within]
  · rw [if_neg (by omega), List.getElem?_eq_none (by omega)]

/-- A range of what has been written. -/
theorem slice?_overwrite_within {part : List UInt8} {start : Nat}
    (inside : offset + data.length ≤ bytes.size) (within : start + part.length ≤ data.length)
    (same : ∀ index < part.length, data[start + index]? = part[index]?) :
    slice? (overwrite bytes offset data) (offset + start) part.length = some part := by
  refine slice?_eq_some (by rw [size_overwrite]; omega) fun index isIndex => ?_
  rw [getElem?_overwrite inside, if_pos (by omega), ← same index isIndex]
  congr 1
  omega

/-- A range apart from what has been written. -/
theorem slice?_overwrite_apart (inside : offset + data.length ≤ bytes.size)
    (apart : other + count ≤ offset ∨ offset + data.length ≤ other) :
    slice? (overwrite bytes offset data) other count = slice? bytes other count := by
  unfold slice?
  rw [size_overwrite]
  split
  · congr 2
    refine Array.ext_getElem? fun index => ?_
    rw [Array.getElem?_extract, Array.getElem?_extract, size_overwrite]
    split
    · rw [getElem?_overwrite inside, if_neg (by omega)]
    · rfl
  · rfl

/-! ## Numbers in memory -/

variable {prim : Prim} {number : Int} {word : Nat}

/-- The word that a number is stored as. -/
theorem encode?_intValue (notFloat : prim.isFloat = false) (holds : prim.Holds number) :
    ∃ word, encode? prim (Arith.intValue prim number) = some word ∧
      (word : Int) % prim.modulus = number % prim.modulus := by
  obtain ⟨stored, isStored, same⟩ := Arith.int64?_intValue notFloat holds
  refine ⟨stored.toUInt64.toNat, ?_, ?_⟩
  · have isInteger : encode? prim (Arith.intValue prim number) =
        (Arith.intValue prim number).int64?.map fun value => value.toUInt64.toNat := by
      cases prim
      case float32 | float64 => cases notFloat
      all_goals rfl
    rw [isInteger, isStored]
    rfl
  · have divides : (prim.modulus : Int) ∣ (2 ^ 64 : Nat) := by
      cases prim <;> decide
    rw [Int64.natCast_toNat, Int.emod_emod_of_dvd _ divides, same]

/-- A number is read back from a word with its bits. -/
theorem decode_eq_intValue (notFloat : prim.isFloat = false) (holds : prim.Holds number)
    (same : (word : Int) % prim.modulus = number % prim.modulus) :
    decode prim (word % prim.modulus) = Arith.intValue prim number := by
  have bits : (word % prim.modulus : Nat) % (prim.modulus : Int) = number % prim.modulus := by
    rw [Int.natCast_emod, Int.emod_emod_of_dvd _ (Int.dvd_refl _), same]
  have reduced : prim.wrap (word % prim.modulus : Nat) = number := by
    rw [Prim.wrap_congr bits, Prim.wrap_of_holds holds]
  have small : word % prim.modulus < prim.modulus := Nat.mod_lt _ prim.modulus_pos
  generalize word % prim.modulus = rest at bits reduced small ⊢
  cases prim
  case float32 | float64 => cases notFloat
  case bool =>
    obtain rfl : (rest : Int) = number := by
      rw [← reduced]
      exact (Int.emod_eq_of_lt (Int.natCast_nonneg rest) (Int.ofNat_lt.mpr small)).symm
    change Value.ofBool (rest != 0) = Value.ofBool ((rest : Int) != 0)
    congr 1
    rw [Bool.eq_iff_iff, bne_iff_ne, bne_iff_ne]
    omega
  case int64 | uint64 | intPtr | uintPtr =>
    have equal : Int64.ofNat rest = Int64.ofInt number := by
      rw [← Int64.ofInt_eq_ofNat, ← Int64.toInt_inj, Int64.toInt_ofInt, Int64.toInt_ofInt,
        ← Int.emod_bmod, ← Int.emod_bmod number]
      exact congrArg (Int.bmod · Int64.size) bits
    first
    | exact congrArg Value.int64 equal
    | exact congrArg Value.native equal
  all_goals exact congrArg (fun value => Value.int32 (Int32.ofInt value)) reduced

/-- The bytes of a word are those of any number with its bits. -/
theorem byte_eq (inside : position < prim.size)
    (same : (word : Int) % prim.modulus = number % prim.modulus) :
    ((word / 256 ^ position % 256 : Nat) : Int) = number / (2 ^ (8 * position) : Nat) % 256 := by
  have pos : ((256 ^ position : Nat) : Int) ≠ 0 :=
    Int.natCast_ne_zero.mpr (Nat.ne_of_gt (Nat.pow_pos (by decide)))
  have divides : ((256 ^ (position + 1) : Nat) : Int) ∣ number - word := by
    refine Int.dvd_trans ?_ (Int.dvd_of_emod_eq_zero (by
      rw [Int.sub_emod, same, Int.sub_self, Int.zero_emod] : (number - word) % prim.modulus = 0))
    rw [Prim.modulus_eq]
    exact Int.natCast_dvd_natCast.mpr (Nat.pow_dvd_pow 256 inside)
  obtain ⟨rest, isRest⟩ := divides
  rw [Nat.pow_succ, Int.natCast_mul, Int.mul_assoc] at isRest
  obtain rfl : number = word + (256 ^ position : Nat) * ((256 : Nat) * rest) := by
    rw [← isRest]
    omega
  rw [Nat.pow_mul, show 2 ^ 8 = 256 from rfl, Int.add_mul_ediv_left _ _ pos,
    show ((256 : Nat) : Int) = 256 from rfl, Int.add_mul_emod_self_left, Int.natCast_emod,
    Int.natCast_ediv]
  rfl

/-! ## Elements -/

/-- A number is read back where its word has been written. -/
theorem read?_written (notFloat : prim.isFloat = false) (holds : prim.Holds number)
    (inside : offset + prim.size ≤ bytes.size)
    (same : (word : Int) % prim.modulus = number % prim.modulus) :
    read? (overwrite bytes offset (toBytes prim.size word)) offset prim =
      some (Arith.intValue prim number) := by
  have sliced := @slice?_overwrite_within bytes offset (toBytes prim.size word)
    (toBytes prim.size word) 0 (by rwa [toBytes_length])
    (Nat.le_of_eq (Nat.zero_add _)) fun index _ => by rw [Nat.zero_add]
  rw [toBytes_length, Nat.add_zero] at sliced
  rw [read?, sliced, Option.map_some, ofBytes_toBytes, ← Prim.modulus_eq,
    decode_eq_intValue notFloat holds same]

/-- Each byte of a number is read back where its word has been written. -/
theorem read?_written_byte (within : position < prim.size)
    (inside : offset + prim.size ≤ bytes.size)
    (same : (word : Int) % prim.modulus = number % prim.modulus) :
    read? (overwrite bytes offset (toBytes prim.size word)) (offset + position) .uint8 =
      some (.int32 (Int32.ofInt (number / (2 ^ (8 * position) : Nat) % 256))) := by
  have fits : offset + (toBytes prim.size word).length ≤ bytes.size := by rwa [toBytes_length]
  have isInside : position + 1 ≤ (toBytes prim.size word).length := by
    rw [toBytes_length]
    exact within
  have sliced := @slice?_overwrite_within bytes offset (toBytes prim.size word)
    [UInt8.ofNat (word / 256 ^ position)] position fits isInside fun index isIndex => by
      obtain rfl := Nat.lt_one_iff.mp isIndex
      exact getElem?_toBytes within word
  have isByte : ofBytes [UInt8.ofNat (word / 256 ^ position)] = word / 256 ^ position % 256 := by
    rw [ofBytes, ofBytes, UInt8.toNat_ofNat']
    rfl
  rw [read?, show Prim.uint8.size = 1 from rfl]
  rw [show [UInt8.ofNat (word / 256 ^ position)].length = 1 from rfl] at sliced
  rw [sliced, Option.map_some, isByte]
  change some (Value.int32 (Int32.ofInt (((word / 256 ^ position % 256 : Nat) : Int) % 256))) = _
  rw [byte_eq within same, Int.emod_emod_of_dvd _ (Int.dvd_refl _)]

/-- A range apart from what has been written reads as before. -/
theorem read?_written_apart (inside : offset + data.length ≤ bytes.size)
    (apart : other + prim.size ≤ offset ∨ offset + data.length ≤ other) :
    read? (overwrite bytes offset data) other prim = read? bytes other prim := by
  rw [read?, slice?_overwrite_apart inside apart]
  rfl

/-- Every range inside an array can be read. -/
theorem exists_read? (inside : offset + prim.size ≤ bytes.size) :
    ∃ value, read? bytes offset prim = some value := by
  rw [read?, slice?, if_pos inside]
  exact ⟨_, rfl⟩

/-- An element lies inside its array. -/
theorem element_inside {index : Nat} (inside : index < bytes.size / prim.size) :
    index * prim.size + prim.size ≤ bytes.size := by
  rw [← Nat.succ_mul]
  exact (Nat.mul_le_mul_right _ inside).trans (Nat.div_mul_le_self _ _)

/-- Two elements lie apart. -/
theorem elements_apart {index another size : Nat} (different : another ≠ index) :
    another * size + size ≤ index * size ∨ index * size + size ≤ another * size := by
  rw [← Nat.succ_mul, ← Nat.succ_mul]
  exact (Nat.lt_or_gt_of_ne different).imp (Nat.mul_le_mul_right _) (Nat.mul_le_mul_right _)

/-! ## Addresses -/

variable {array : ObjRef}

theorem toInt_address (near : array.index < 2 ^ 31 - 1) (small : offset < offsets) :
    (address array offset).toInt = (array.index + 1) * offsets + offset := by
  unfold address
  rw [Nat.mod_eq_of_lt small]
  unfold offsets at small ⊢
  rw [Int64.toInt_ofNat_of_lt (by omega), Int.natCast_add, Int.natCast_mul, Int.natCast_add]
  rfl

theorem names_address (near : array.index < 2 ^ 31 - 1) (small : offset < offsets) :
    Names (address array offset) array offset :=
  ⟨small, toInt_address near small⟩

/-- An address is moved by adding to it. -/
theorem add_address (near : array.index < 2 ^ 31 - 1) (small : offset + count < 2 ^ 31) :
    address array offset + (Int32.ofNat count).toInt64 = address array (offset + count) := by
  rw [← Int64.toInt_inj, Int64.toInt_add, Int32.toInt_toInt64,
    Int32.toInt_ofNat_of_lt (by omega),
    toInt_address near (by unfold offsets; omega), toInt_address near (by unfold offsets; omega)]
  unfold offsets
  rw [Int.bmod_eq_of_le] <;> omega

/-! ## Written arrays -/

variable {heap : Heap} {element : RunTy} {content : Array UInt8} {pins : Nat}

/-- An array of primitives whose bytes have been overwritten. -/
theorem get?_setBytes (isArray : heap.get? array = some (.array element (.bytes prim content) pins))
    (change : Array UInt8 → Array UInt8) :
    (setBytes heap array change).get? array =
      some (.array element (.bytes prim (change content)) pins) := by
  rw [setBytes, Heap.get?_modify, if_pos rfl, isArray]
  rfl

theorem get?_setBytes_of_ne {ref : ObjRef} (other : ref ≠ array)
    (change : Array UInt8 → Array UInt8) : (setBytes heap array change).get? ref = heap.get? ref := by
  rw [setBytes, Heap.get?_modify, if_neg (Ne.symm other)]

/-- Counting pins leaves the elements of an array alone. -/
theorem get?_unpin {data : ArrayData}
    (isArray : heap.get? array = some (.array element data pins)) (value : Value) :
    ∃ left, (unpin heap value).get? array = some (.array element data left) := by
  cases value with
  | element other offset =>
      change ∃ left, (heap.modify other _).get? array = some (.array element data left)
      rw [Heap.get?_modify, isArray]
      by_cases same : other = array
      · exact ⟨pins - 1, by rw [if_pos same]; rfl⟩
      · exact ⟨pins, by rw [if_neg same]⟩
  | _ => exact ⟨pins, isArray⟩

theorem get?_pin {data : ArrayData}
    (isArray : heap.get? array = some (.array element data pins)) (offset : Nat) :
    (pin heap (.element array offset)).get? array = some (.array element data (pins + 1)) := by
  change (heap.modify array _).get? array = _
  rw [Heap.get?_modify, if_pos rfl, isArray]
  rfl

end Memory

namespace FrameStep

open Memory

variable {image : Image} {store : Store} {array : ObjRef} {element : RunTy} {prim : Prim}
variable {content : Array UInt8} {pins index word offset : Nat} {number : Int} {value : Value}

/-! ## Operands -/

theorem run_heap (store : Store) : Exec.heap.run store = .ok store.heap store :=
  rfl

theorem run_arrayOperand {data : ArrayData}
    (isArray : store.heap.get? array = some (.array element data pins)) :
    (arrayOperand image (.ref array)).run store = .ok (array, data) store := by
  unfold arrayOperand
  dsimp only
  rw [EStateM.run_bind, run_heap]
  dsimp only
  rw [isArray]
  rfl

/-- An index in range is taken as it is. -/
theorem run_indexOperand {length : Nat} (inside : index < length) (small : index < 2 ^ 31) :
    (indexOperand image (.int32 (.ofNat index)) length).run store = .ok index store := by
  have isIndex : (Int32.ofNat index).toInt64.toInt = index := by
    rw [Int32.toInt_toInt64, Int32.toInt_ofNat_of_lt small]
  have within : ¬ ((Int32.ofNat index).toInt64 < 0 ∨
      length ≤ (Int32.ofNat index).toInt64.toInt.toNat) := by
    rw [Int64.lt_iff_toInt_lt, isIndex]
    change ¬ ((index : Int) < 0 ∨ length ≤ (index : Int).toNat)
    omega
  change (if (Int32.ofNat index).toInt64 < 0 ∨ length ≤ (Int32.ofNat index).toInt64.toInt.toNat then
      Exec.raise image .indexOutOfRange >>= fun _ => pure (Int32.ofNat index).toInt64.toInt.toNat
    else pure (Int32.ofNat index).toInt64.toInt.toNat : Exec Nat).run store = _
  rw [if_neg within, isIndex]
  rfl

/-! ## Elements -/

/-- The store after some bytes of an array have been overwritten. -/
def written (store : Store) (array : ObjRef) (offset : Nat) (data : List UInt8) : Store :=
  { store with heap := setBytes store.heap array fun bytes => overwrite bytes offset data }

section

variable (isArray : store.heap.get? array = some (.array element (.bytes prim content) pins))
include isArray

theorem run_loadElement (inside : index < (ArrayData.bytes prim content).size)
    (small : index < 2 ^ 31) (isRead : read? content (index * prim.size) prim = some value) :
    (loadElement image (.ref array) (.int32 (.ofNat index))).run store = .ok value store := by
  unfold loadElement
  rw [EStateM.run_bind, run_arrayOperand isArray]
  dsimp only
  rw [EStateM.run_bind, run_indexOperand inside small]
  dsimp only
  rw [isRead]
  rfl

theorem run_storeElement (inside : index < (ArrayData.bytes prim content).size)
    (small : index < 2 ^ 31) (own : ∀ ref, value ≠ .struct ref)
    (encodes : encode? prim value = some word) :
    (storeElement image (.ref array) (.int32 (.ofNat index)) value).run store =
      .ok () (written store array (index * prim.size) (toBytes prim.size word)) := by
  unfold storeElement
  rw [EStateM.run_bind, Exec.run_copy_own own]
  dsimp only
  rw [EStateM.run_bind, run_arrayOperand isArray]
  dsimp only
  rw [EStateM.run_bind, run_indexOperand inside small]
  dsimp only
  rw [encodes]
  rfl

theorem run_elementAddress (inside : index < (ArrayData.bytes prim content).size)
    (small : index < 2 ^ 31) :
    (elementAddress image (.ref array) (.int32 (.ofNat index))).run store =
      .ok (.element array (index * prim.size)) store := by
  unfold elementAddress
  rw [EStateM.run_bind, run_arrayOperand isArray]
  dsimp only
  rw [EStateM.run_bind, run_indexOperand inside small]
  rfl

end

/-! ## Pointers -/

variable {address : Int64}

theorem run_loadIndirect (covers : Covers store.heap address prim.size array content offset)
    (isRead : read? content offset prim = some value) :
    (loadIndirect image prim (.native address)).run store = .ok value store := by
  have loaded : load? store.heap address prim = some value := by
    rw [load?, pinned?_eq_some.mpr covers]
    exact isRead
  unfold loadIndirect
  rw [EStateM.run_bind, show (addressOperand (.native address)).run store = .ok address store from rfl]
  dsimp only
  rw [EStateM.run_bind, run_heap]
  dsimp only
  rw [loaded]
  rfl

theorem run_storeIndirect (covers : Covers store.heap address prim.size array content offset)
    (encodes : encode? prim value = some word) :
    (storeIndirect image prim (.native address) value).run store =
      .ok () (written store array offset (toBytes prim.size word)) := by
  have stored : store? store.heap address prim value =
      some (written store array offset (toBytes prim.size word)).heap := by
    rw [store?, pinned?_eq_some.mpr covers, encodes]
    rfl
  unfold storeIndirect accessMemory
  rw [EStateM.run_bind, show (addressOperand (.native address)).run store = .ok address store from rfl]
  dsimp only
  rw [EStateM.run_bind, run_heap]
  dsimp only
  rw [stored]
  rfl

end FrameStep

namespace Machine

open Memory FrameStep

/-! ## Pinned arrays -/

/-- An array of primitives that is pinned, and the pointer to its first element. -/
structure Pinned (store : Store) (array : ObjRef) (prim : Prim) (content : Array UInt8)
    (pointer : Value) : Prop where
  isArray : ∃ element pins, 0 < pins ∧
    store.heap.get? array = some (.array element (.bytes prim content) pins)
  isPointer : pointer = .native (address array 0)

/-- The code that pins an array in a local and leaves the pointer to it. -/
def pinning (argument slot : Nat) (element : RunTy) : List Instr :=
  [.loadArg argument, .const (.int32 0), .elementAddress element, .storeLocal slot,
    .loadLocal slot, .convert ⟨.intPtr, false, false⟩]

/-- A number has been put into an array that is pinned, and both ways of access agree on it. -/
structure Agrees (image : Image) (array : ObjRef) (prim : Prim) (content : Array UInt8)
    (pointer : Value) (index : Nat) (number : Int) (store later : Store) : Prop where
  /-- Storing the element puts it there. -/
  stores : ∀ type, Computes image [.storeElement type]
    [Arith.intValue prim number, .int32 (.ofNat index), .ref array] store [] later
  /-- So does storing through the pointer. -/
  pokes : ∃ address, Computes image [.arith .add] [.int32 (.ofNat (index * prim.size)), pointer]
      store [address] store ∧
    Computes image [.storeIndirect prim] [Arith.intValue prim number, address] store [] later
  /-- Loading the element gives it. -/
  loads : ∀ type, Computes image [.loadElement type] [.int32 (.ofNat index), .ref array] later
    [Arith.intValue prim number] later
  /-- So does loading through the pointer, and a single byte of it can be loaded as well. -/
  peeks : ∃ address, Computes image [.arith .add] [.int32 (.ofNat (index * prim.size)), pointer]
      later [address] later ∧
    Computes image [.loadIndirect prim] [address] later [Arith.intValue prim number] later ∧
    ∀ position < prim.size, ∃ byte,
      Computes image [.arith .add] [.int32 (.ofNat position), address] later [byte] later ∧
      Computes image [.loadIndirect .uint8] [byte] later
        [.int32 (.ofInt (number / (2 ^ (8 * position) : Nat) % 256))] later
  /-- The other elements are as before. -/
  others : ∀ other < content.size / prim.size, other ≠ index → ∀ type, ∃ value,
    Computes image [.loadElement type] [.int32 (.ofNat other), .ref array] store [value] store ∧
    Computes image [.loadElement type] [.int32 (.ofNat other), .ref array] later [value] later
  /-- So are the other objects. -/
  objects : ∀ ref, ref ≠ array → later.heap.get? ref = store.heap.get? ref
  /-- The array is still pinned. -/
  pinned : ∃ changed, changed.size = content.size ∧ Pinned later array prim changed pointer

section Elements

variable {image : Image} {store : Store} {array : ObjRef} {element : RunTy} {prim : Prim}
variable {content : Array UInt8} {pins index offset count word : Nat} {number : Int}
variable {value : Value} {type : RunTy}

theorem computes_loadElement
    (isArray : store.heap.get? array = some (.array element (.bytes prim content) pins))
    (inside : index < content.size / prim.size) (small : index < 2 ^ 31)
    (isRead : read? content (index * prim.size) prim = some value) :
    Computes image [.loadElement type] [.int32 (.ofNat index), .ref array] store [value] store :=
  .mapTop₂ (fun _ => rfl) (run_loadElement isArray inside small isRead)

theorem computes_storeElement
    (isArray : store.heap.get? array = some (.array element (.bytes prim content) pins))
    (inside : index < content.size / prim.size) (small : index < 2 ^ 31)
    (own : ∀ ref, value ≠ .struct ref) (encodes : encode? prim value = some word) :
    Computes image [.storeElement type] [value, .int32 (.ofNat index), .ref array] store []
      (written store array (index * prim.size) (toBytes prim.size word)) := by
  refine .of_execute fun frame position rest => ?_
  change ((pop >>= fun value => pop >>= fun index => pop >>= fun array =>
    liftM (storeElement image array index value) >>= fun _ => pure Flow.next :
      FrameStep Flow).run _).run store = _
  rw [List.cons_append, List.cons_append, List.cons_append, List.nil_append,
    FrameStep.run_bind (Seat.pop_top _ _ _ _ _), FrameStep.run_bind (Seat.pop_top _ _ _ _ _),
    FrameStep.run_bind (Seat.pop_top _ _ _ _ _),
    FrameStep.run_bind (run_lift (run_storeElement isArray inside small own encodes))]
  rfl

theorem computes_storeIndirect {address : Int64}
    (covers : Covers store.heap address prim.size array content offset)
    (encodes : encode? prim value = some word) :
    Computes image [.storeIndirect prim] [value, .native address] store []
      (written store array offset (toBytes prim.size word)) := by
  refine .of_execute fun frame position rest => ?_
  change ((pop >>= fun value => pop >>= fun address =>
    liftM (storeIndirect image prim address value) >>= fun _ => pure Flow.next :
      FrameStep Flow).run _).run store = _
  rw [List.cons_append, List.cons_append, List.nil_append,
    FrameStep.run_bind (Seat.pop_top _ _ _ _ _), FrameStep.run_bind (Seat.pop_top _ _ _ _ _),
    FrameStep.run_bind (run_lift (run_storeIndirect covers encodes))]
  rfl

/-- An address is moved by a 32-bit offset. -/
theorem computes_add (near : array.index < 2 ^ 31 - 1) (small : offset + count < 2 ^ 31) :
    Computes image [.arith .add] [.int32 (.ofNat count), .native (address array offset)] store
      [.native (address array (offset + count))] store := by
  refine .mapTop₂ (fun _ => rfl) ?_
  rw [← add_address near small]
  rfl

theorem covers_address (near : array.index < 2 ^ 31 - 1) (small : content.size < 2 ^ 31)
    (isArray : store.heap.get? array = some (.array element (.bytes prim content) pins))
    (pinned : 0 < pins) (filled : 0 < count) (inside : offset + count ≤ content.size) :
    Covers store.heap (address array offset) count array content offset where
  names := names_address near (by unfold offsets; omega)
  pinned := ⟨element, prim, pins, pinned, isArray⟩
  inside := inside

/-- A number is put into an array that is pinned. -/
theorem Pinned.agrees {pointer : Value} (pinned : Pinned store array prim content pointer)
    (notFloat : prim.isFloat = false) (near : array.index < 2 ^ 31 - 1)
    (small : content.size ≤ 2 ^ 31 - 1) (inside : index < content.size / prim.size)
    (holds : prim.Holds number) :
    ∃ later, Agrees image array prim content pointer index number store later := by
  obtain ⟨⟨element, pins, positive, isArray⟩, rfl⟩ := pinned
  obtain ⟨word, encodes, same⟩ := encode?_intValue notFloat holds
  have fits := element_inside inside
  have sized := prim.size_pos
  have below : ∀ {other}, other < content.size / prim.size → other < 2 ^ 31 := fun isOther => by
    have := isOther.trans_le (Nat.div_le_self _ _)
    omega
  have length : (toBytes prim.size word).length = prim.size := toBytes_length _ _
  let changed := overwrite content (index * prim.size) (toBytes prim.size word)
  have isSize : changed.size = content.size := size_overwrite _ _ _
  let later := written store array (index * prim.size) (toBytes prim.size word)
  have isChanged : later.heap.get? array = some (.array element (.bytes prim changed) pins) :=
    get?_setBytes isArray _
  have own : ∀ ref, Arith.intValue prim number ≠ .struct ref := by
    rintro ref isStruct
    cases prim <;> cases isStruct
  have moves : ∀ store, Computes image [.arith .add]
      [.int32 (.ofNat (index * prim.size)), .native (address array 0)] store
      [.native (address array (index * prim.size))] store := fun store => by
    have moved := @computes_add image store array 0 (index * prim.size) near (by omega)
    rwa [Nat.zero_add] at moved
  refine ⟨later, ?_, ⟨_, moves store, ?_⟩, ?_, ⟨_, moves later, ?_, ?_⟩, ?_, ?_, changed, isSize,
    ⟨element, pins, positive, isChanged⟩, rfl⟩
  · exact fun type => computes_storeElement isArray inside (below inside) own encodes
  · exact computes_storeIndirect (covers_address near (by omega) isArray positive sized fits) encodes
  · exact fun type => computes_loadElement isChanged (isSize ▸ inside) (below inside)
      (read?_written notFloat holds fits same)
  · exact .mapTop (fun _ => rfl) (run_loadIndirect
      (covers_address near (by omega) isChanged positive sized (isSize ▸ fits))
      (read?_written notFloat holds fits same))
  · intro position within
    refine ⟨_, computes_add near (by omega), .mapTop (fun _ => rfl) (run_loadIndirect
      (covers_address near (by omega) isChanged positive Nat.one_pos ?_)
      (read?_written_byte within fits same))⟩
    change index * prim.size + position + 1 ≤ changed.size
    omega
  · intro other isOther different type
    obtain ⟨value, isRead⟩ := exists_read? (element_inside isOther)
    refine ⟨value, computes_loadElement isArray isOther (below isOther) isRead,
      computes_loadElement isChanged (isSize ▸ isOther) (below isOther) ?_⟩
    rw [read?_written_apart (by rwa [length]) (by rw [length]; exact elements_apart different)]
    exact isRead
  · exact fun ref other => get?_setBytes_of_ne other _

/-- A pinned local holds the array of an element address in place. -/
theorem run_storePinned {frame : Frame} {slot : Nat} {data : ArrayData}
    (isArray : store.heap.get? array = some (.array element data pins))
    (within : slot < frame.locals.size)
    (isPinned : (frame.body.locals[slot]?).any LocalDecl.pinned = true) :
    ∃ heap held, 0 < held ∧ heap.get? array = some (.array element data held) ∧
      ((storeLocal slot (.element array offset)).run frame).run store =
        .ok ((), { frame with locals := frame.locals.setIfInBounds slot (.element array offset) })
          { store with heap } := by
  obtain ⟨left, isLeft⟩ := get?_unpin isArray frame.locals[slot]
  refine ⟨_, left + 1, Nat.succ_pos left, get?_pin isLeft offset, ?_⟩
  unfold storeLocal
  rw [FrameStep.run_bind (run_lift (Exec.run_copy_own (by simp))),
    FrameStep.run_bind (Seat.run_frame _ _)]
  dsimp only
  rw [Array.getElem?_eq_getElem within]
  dsimp only
  rw [isPinned]
  rfl

/-- The code of a pin holds its array in place and leaves the pointer to it. -/
theorem reaches_pinning {limit : Nat} {seat : Seat} {frame : Frame} {position : Nat}
    {stack : List Value} {argument slot : Nat}
    (isArray : store.heap.get? array = some (.array element (.bytes prim content) pins))
    (filled : 0 < content.size / prim.size)
    (isArgument : frame.args[argument]? = some (.ref array)) (within : slot < frame.locals.size)
    (isPinned : (frame.body.locals[slot]?).any LocalDecl.pinned = true)
    (hasCode : frame.body.HasCode position (pinning argument slot type)) :
    ∃ later pointer, Reaches image limit (seat.config frame position stack store)
        (seat.config { frame with locals := frame.locals.setIfInBounds slot (.element array 0) }
          (position + 6) (pointer :: stack) later) ∧
      Pinned later array prim content pointer := by
  obtain ⟨heap, held, positive, isHeld, stored⟩ :=
    @run_storePinned store array element pins 0 { frame with position := position + 4, stack } slot _
      isArray within isPinned
  let after := { frame with locals := frame.locals.setIfInBounds slot (.element array 0) }
  refine ⟨{ store with heap }, _, ?_, ⟨element, held, positive, isHeld⟩, rfl⟩
  have isLocal : after.locals[slot]? = some (.element array 0) := by
    simp [after, within]
  have isZero : (elementAddress image (.ref array) (.int32 (.ofNat 0))).run store =
      .ok (.element array 0) store := by
    rw [@run_elementAddress image store array element prim content pins 0 isArray filled (by decide),
      Nat.zero_mul]
  have loaded : ((execute image position (.loadArg argument)).run
      { frame with position := position + 1, stack }).run store =
        .ok (.next, { frame with position := position + 1, stack := .ref array :: stack }) store := by
    change ((liftM (Exec.require frame.args[argument]? _) >>= fun value =>
      push value >>= fun _ => pure Flow.next : FrameStep Flow).run _).run store = _
    rw [isArgument]
    rfl
  have addressed : Reaches image limit
      (seat.config frame (position + 2) (.int32 0 :: .ref array :: stack) store)
      (seat.config frame (position + 3) (.element array 0 :: stack) store) :=
    @Computes.mapTop₂ image store store (.elementAddress type) _ _ _ _ (fun _ => rfl) isZero limit seat
      frame (position + 2) stack (hasCode.part 2 1)
  have kept : ((execute image (position + 3) (.storeLocal slot)).run
      { frame with position := position + 4, stack := .element array 0 :: stack }).run store =
        .ok (.next, { after with position := position + 4, stack }) { store with heap } := by
    change ((pop >>= fun value => storeLocal slot value >>= fun _ => pure Flow.next :
      FrameStep Flow).run _).run store = _
    rw [FrameStep.run_bind (Seat.pop_top _ _ _ _ _), FrameStep.run_bind stored]
    rfl
  have reloaded : ((execute image (position + 4) (.loadLocal slot)).run
      { after with position := position + 5, stack }).run { store with heap } =
        .ok (.next, { after with position := position + 5, stack := .element array 0 :: stack })
          { store with heap } := by
    change ((liftM (Exec.require after.locals[slot]? _) >>= fun value =>
      push value >>= fun _ => pure Flow.next : FrameStep Flow).run _).run _ = _
    rw [isLocal]
    rfl
  have converted : Reaches image limit
      (seat.config after (position + 5) (.element array 0 :: stack) { store with heap })
      (seat.config after (position + 6) (.native (address array 0) :: stack) { store with heap }) :=
    @Computes.mapTop image _ _ (.convert ⟨.intPtr, false, false⟩) _ _ _ (fun _ => rfl) rfl limit seat
      after (position + 5) stack (hasCode.part 5 1)
  exact .head (Seat.step_next (hasCode 0 _ rfl) loaded)
    (.head (Seat.step_next (hasCode 1 _ rfl) rfl)
      (addressed.trans (.head (Seat.step_next (hasCode 3 _ rfl) kept)
        (.head (Seat.step_next (hasCode 4 _ rfl) reloaded) converted))))

end Elements

/-- Elements and pointers reach the same memory.  The code of a pin holds the array in place and
leaves the pointer to it; and while the array is held, a number that is put into it as an element
is read through the pointer, byte by byte if need be, and the other way round. -/
theorem elements_through_pointers (image : Image) {prim : Prim} (notFloat : prim.isFloat = false)
    {array : ObjRef} (near : array.index < 2 ^ 31 - 1) {content : Array UInt8}
    (small : content.size ≤ 2 ^ 31 - 1) :
    (∀ (limit : Nat) (seat : Seat) (frame : Frame) (position argument slot pins : Nat)
      (stack : List Value) (store : Store) (element type : RunTy),
        store.heap.get? array = some (.array element (.bytes prim content) pins) →
        0 < content.size / prim.size → frame.args[argument]? = some (.ref array) →
        slot < frame.locals.size → (frame.body.locals[slot]?).any LocalDecl.pinned = true →
        frame.body.HasCode position (pinning argument slot type) →
          ∃ later pointer, Reaches image limit (seat.config frame position stack store)
              (seat.config { frame with locals := frame.locals.setIfInBounds slot (.element array 0) }
                (position + 6) (pointer :: stack) later) ∧
            Pinned later array prim content pointer) ∧
      ∀ (store : Store) (pointer : Value), Pinned store array prim content pointer →
        ∀ index < content.size / prim.size, ∀ number, prim.Holds number →
          ∃ later, Agrees image array prim content pointer index number store later := by
  refine ⟨?_, fun store pointer pinned index inside number holds =>
    pinned.agrees notFloat near small inside holds⟩
  intro limit seat frame position argument slot pins stack store element type isArray filled
    isArgument within isPinned hasCode
  exact reaches_pinning isArray filled isArgument within isPinned hasCode

/-- A store with an array of two numbers, which is pinned. -/
def pinnedPair : Store where
  heap := ⟨#[.array (.prim .int16) (.bytes .int16 #[0, 0, 0, 0]) 1]⟩
  statics := #[]
  output := ""

theorem elements_through_pointers_second :
    Prim.int16.isFloat = false ∧ Prim.int16.Holds (-2) ∧
      ∃ later, Agrees .library ⟨0⟩ .int16 #[0, 0, 0, 0] (.native (address ⟨0⟩ 0)) 1 (-2) pinnedPair
        later :=
  ⟨rfl, by decide, (elements_through_pointers .library rfl (by decide) (by decide)).2 pinnedPair _
    ⟨⟨_, 1, Nat.one_pos, rfl⟩, rfl⟩ 1 (by decide) (-2) (by decide)⟩

end Machine

end ClassForge
