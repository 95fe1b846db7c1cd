import ClassForge.Machine.Heap

/-!
# Elements and raw memory

Primitive array elements are stored as bytes, least significant first, so that
element access and raw access see the same memory.  A raw address names a byte
of an array.  It can only be used while the array is pinned, and never beyond
the bytes of the array.
-/

namespace ClassForge

namespace Memory

/-- The low bytes of a word, least significant first. -/
def toBytes : (count : Nat) → (word : Nat) → List UInt8
  | 0, _ => []
  | count + 1, word => UInt8.ofNat word :: toBytes count (word / 256)

/-- The word whose bytes, least significant first, are given. -/
def ofBytes : List UInt8 → Nat
  | [] => 0
  | byte :: bytes => byte.toNat + 256 * ofBytes bytes

/-- The bytes of an array in a range, if it has them all. -/
def slice? (bytes : Array UInt8) (offset count : Nat) : Option (List UInt8) :=
  if offset + count ≤ bytes.size then
    some (bytes.extract offset (offset + count)).toList
  else
    none

/-- Overwrite bytes from a position on. -/
def overwrite (bytes : Array UInt8) (offset : Nat) : List UInt8 → Array UInt8
  | [] => bytes
  | byte :: rest => overwrite (bytes.setIfInBounds offset byte) (offset + 1) rest

/-- The value of a primitive that is stored as a word. -/
def decode (prim : Prim) (word : Nat) : Value :=
  match prim with
  | .bool => Value.ofBool (word != 0)
  | .float32 => .float (Binary32.mk (UInt32.ofNat word)).toBinary64
  | .float64 => .float ⟨UInt64.ofNat word⟩
  | .int64 | .uint64 => .int64 (Int64.ofNat word)
  | .intPtr | .uintPtr => .native (Int64.ofNat word)
  | prim => .int32 (Int32.ofInt (prim.wrap word))

/-- The word that a value is stored as, if the value is of the right kind: a
float type stores floats and integers, any other type stores integers. -/
def encode? (prim : Prim) (value : Value) : Option Nat :=
  match prim, value with
  | .float32, .float value => some value.toBinary32.bits.toNat
  | .float64, .float value => some value.bits.toNat
  | _, value => value.int64?.map fun value => value.toUInt64.toNat

/-- Read a primitive. -/
def read? (bytes : Array UInt8) (offset : Nat) (prim : Prim) : Option Value :=
  (slice? bytes offset prim.size).map fun bytes => decode prim (ofBytes bytes)

/-- Write a primitive. -/
def write? (bytes : Array UInt8) (offset : Nat) (prim : Prim) (value : Value) :
    Option (Array UInt8) := do
  let word ← encode? prim value
  if offset + prim.size ≤ bytes.size then
    some (overwrite bytes offset (toBytes prim.size word))
  else
    none

/-! ## Addresses -/

/-- Number of the offsets that addresses have room for: 32 bits of them. -/
def offsets : Nat := 4294967296

/-- Address of a byte of an array: the number of the array, counted from one,
above the offset. -/
def address (array : ObjRef) (offset : Nat) : Int64 :=
  Int64.ofNat ((array.index + 1) * offsets + offset % offsets)

/-- The array and offset that an address names. -/
def ofAddress? (address : Int64) : Option (ObjRef × Nat) :=
  let high := address.toInt / offsets
  if 0 < high then
    some (⟨(high - 1).toNat⟩, (address.toInt % offsets).toNat)
  else
    none

/-- The array, its bytes and the offset, when an address names a range of
`count` bytes inside a pinned array. -/
def pinned? (heap : Heap) (address : Int64) (count : Nat) :
    Option (ObjRef × Array UInt8 × Nat) := do
  let (array, offset) ← ofAddress? address
  match ← heap.get? array with
  | .array _ (.bytes _ bytes) pins =>
      if 0 < pins ∧ offset + count ≤ bytes.size then
        some (array, bytes, offset)
      else
        none
  | _ => none

/-- Replace the bytes of an array of primitives. -/
def setBytes (heap : Heap) (array : ObjRef) (change : Array UInt8 → Array UInt8) :
    Heap :=
  heap.modify array fun
    | .array element (.bytes prim bytes) pins =>
        .array element (.bytes prim (change bytes)) pins
    | object => object

/-- Read a primitive at an address. -/
def load? (heap : Heap) (address : Int64) (prim : Prim) : Option Value := do
  let (_, bytes, offset) ← pinned? heap address prim.size
  read? bytes offset prim

/-- Write a primitive at an address. -/
def store? (heap : Heap) (address : Int64) (prim : Prim) (value : Value) :
    Option Heap := do
  let (array, _, offset) ← pinned? heap address prim.size
  let word ← encode? prim value
  some (setBytes heap array fun bytes =>
    overwrite bytes offset (toBytes prim.size word))

/-- Copy bytes; the ranges may overlap. -/
def copy? (heap : Heap) (target source : Int64) (count : Nat) : Option Heap := do
  let (_, bytes, from_) ← pinned? heap source count
  let (array, _, offset) ← pinned? heap target count
  let data := (bytes.extract from_ (from_ + count)).toList
  some (setBytes heap array fun bytes => overwrite bytes offset data)

/-- Fill bytes. -/
def fill? (heap : Heap) (target : Int64) (byte : UInt8) (count : Nat) :
    Option Heap := do
  let (array, _, offset) ← pinned? heap target count
  some (setBytes heap array fun bytes =>
    overwrite bytes offset (List.replicate count byte))

/-! ## Pins -/

/-- Change the number of pins of the array that an element address points
into. -/
def adjustPins (heap : Heap) (value : Value) (change : Nat → Nat) : Heap :=
  match value with
  | .element array _ =>
      heap.modify array fun
        | .array element data pins => .array element data (change pins)
        | object => object
  | _ => heap

/-- Count one more pinned local that holds a value. -/
def pin (heap : Heap) (value : Value) : Heap :=
  adjustPins heap value (· + 1)

/-- Count one pinned local less that holds a value. -/
def unpin (heap : Heap) (value : Value) : Heap :=
  adjustPins heap value (· - 1)

end Memory

end ClassForge
