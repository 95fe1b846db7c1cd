import ClassForge.Machine.Frame

/-!
# Executing an instruction

The effect of one instruction on the running frame and on the machine state.
An instruction that breaks off leaves the frame as it was.
-/

namespace ClassForge

/-- A call of a method. -/
structure Call where
  method : MethodHandle
  args : List Value
  /-- Whether the receiver decides which method runs. -/
  isVirtual : Bool
  deriving DecidableEq

/-- Something to run on a level of its own. -/
inductive Request where
  | method (call : Call)
  | ctor (handle : CtorHandle) (args : List Value)
  deriving DecidableEq

/-- What a frame does with the value of what it called. -/
inductive OnReturn where
  | push
  | drop
  /-- Push the object that a constructor has filled. -/
  | object (value : Value)
  deriving DecidableEq

/-- How a frame goes on after an instruction. -/
inductive Flow where
  | next
  | ret (value : Value)
  | tailCall (call : Call)
  | enter (request : Request) (onReturn : OnReturn)
  /-- A finally handler has ended; the exception goes on looking for a
  handler. -/
  | resume (exception : Value) (position nextRegion : Nat)
  deriving DecidableEq

/-- Computations that change the running frame. -/
abbrev FrameStep := StateT Frame Exec

namespace FrameStep

/-! ## Stack -/

/-- Put a value on the evaluation stack. -/
def push (value : Value) : FrameStep Unit :=
  modify fun frame => { frame with stack := value :: frame.stack }

/-- Take the top value off the evaluation stack. -/
def pop : FrameStep Value := do
  match (← get).stack with
  | [] => Exec.malformed .stackUnderflow
  | value :: stack =>
      modify fun frame => { frame with stack }
      return value

/-- The arguments of a call, first argument first. -/
def popMany (count : Nat) : FrameStep (List Value) := do
  let stack := (← get).stack
  if stack.length < count then
    Exec.malformed .stackUnderflow
  modify fun frame => { frame with stack := stack.drop count }
  return (stack.take count).reverse

/-- Copy the arguments that are passed by value; a receiver is not. -/
def takeArgs (count : Nat) (hasReceiver : Bool) : FrameStep (List Value) := do
  match hasReceiver, ← popMany count with
  | true, receiver :: args => return receiver :: (← copyAll args)
  | _, args => copyAll args
where
  copyAll (args : List Value) : Exec (List Value) :=
    args.mapM Exec.copy

/-- Go to a position. -/
def jump (position : Nat) : FrameStep Unit :=
  modify fun frame => { frame with position }

/-- Go to a label. -/
def branch (label : Label) : FrameStep Unit := do
  jump (← Exec.require ((← get).body.target? label) (.unmarkedLabel label.index))

/-! ## Operands -/

/-- The address that a value stands for. -/
def addressOperand : Value → Exec Int64
  | .native address | .int64 address => return address
  | .element array offset => return Memory.address array offset
  | _ => Exec.malformed .nonAddress

/-- The number of bytes that a value stands for. -/
def countOperand (value : Value) : Exec Nat := do
  return (← Exec.require value.int32? .byteCount).toUInt32.toNat

/-- A number of elements, which must not be negative. -/
def lengthOperand (image : Image) (value : Value) : Exec Nat := do
  let length ← Exec.require value.int64? .arrayLength
  if length < 0 then
    Exec.raise image .overflow
  return length.toInt.toNat

/-- An index into an array of a length. -/
def indexOperand (image : Image) (value : Value) (length : Nat) : Exec Nat := do
  let index ← Exec.require value.int64? .arrayIndex
  if index < 0 ∨ length ≤ index.toInt.toNat then
    Exec.raise image .indexOutOfRange
  return index.toInt.toNat

/-- The array that a value refers to. -/
def arrayOperand (image : Image) (value : Value) : Exec (ObjRef × ArrayData) := do
  match value with
  | .null => Exec.raise image .nullReference
  | .ref object =>
      match (← Exec.heap).get? object with
      | some (.array _ data _) => return (object, data)
      | _ => Exec.malformed .nonArray
  | _ => Exec.malformed .nonArray

/-- The instance whose fields are accessed. -/
def instanceOperand (image : Image) (value : Value) :
    Exec (ObjRef × Array Value) := do
  if value.isNull then
    Exec.raise image .nullReference
  match value.object?, (← Exec.heap).deref? value with
  | some object, some (.instance _ fields) => return (object, fields)
  | _, _ => Exec.malformed .fieldOfNonObject

/-! ## Groups of instructions -/

/-- The value of a constant. -/
def constant : Constant → Value
  | .int32 value => .int32 value
  | .int64 value => .int64 value
  | .float32 value => .float value.toBinary64
  | .float64 value => .float value
  | .string value => .string value
  | .null => .null

/-- Read a field of an instance. -/
def loadField (image : Image) (field : FieldHandle) (object : Value) :
    Exec Value := do
  let info ← Exec.ofImage (image.field field)
  let (_, fields) ← instanceOperand image object
  Exec.require fields[info.slot]? .fieldSlot

/-- Write a copy of a value into a field of an instance. -/
def storeField (image : Image) (field : FieldHandle) (object value : Value) :
    Exec Unit := do
  let info ← Exec.ofImage (image.field field)
  let value ← Exec.copy value
  let (object, fields) ← instanceOperand image object
  if info.slot < fields.size then
    Exec.modifyHeap fun heap => heap.setField object info.slot value
  else
    Exec.malformed .fieldSlot

/-- Read a static field. -/
def loadStatic (image : Image) (field : FieldHandle) : Exec Value := do
  let info ← Exec.ofImage (image.field field)
  Exec.require (← get).statics[info.slot]? .staticStorage

/-- Write a copy of a value into a static field. -/
def storeStatic (image : Image) (field : FieldHandle) (value : Value) :
    Exec Unit := do
  let value ← Exec.copy value
  let info ← Exec.ofImage (image.field field)
  if info.slot < (← get).statics.size then
    modify fun store =>
      { store with statics := store.statics.setIfInBounds info.slot value }
  else
    Exec.malformed .staticStorage

/-- Store into a local; a pinned local holds the array of an element address in
place. -/
def storeLocal (slot : Nat) (value : Value) : FrameStep Unit := do
  let value ← Exec.copy value
  let frame ← get
  match frame.locals[slot]? with
  | none => Exec.malformed .localIndex
  | some old =>
      if (frame.body.locals[slot]?).any LocalDecl.pinned then
        Exec.modifyHeap fun heap => Memory.pin (Memory.unpin heap old) value
      set { frame with locals := frame.locals.setIfInBounds slot value }

/-- Write a copy of a value into an argument. -/
def storeArg (slot : Nat) (value : Value) : FrameStep Unit := do
  let value ← Exec.copy value
  let frame ← get
  if slot < frame.args.size then
    set { frame with args := frame.args.setIfInBounds slot value }
  else
    Exec.malformed .argumentIndex

/-- Make an array with every element at its default. -/
def newArray (image : Image) (element : RunTy) (length : Nat) : Exec Value := do
  let data ← match element.prim? with
    | some prim =>
        pure (ArrayData.bytes prim (Array.replicate (length * prim.size) 0))
    | none => do
        let items ← (List.replicate length element).mapM (Exec.defaultValue image)
        pure (ArrayData.values items.toArray)
  return .ref (← Exec.alloc (.array element data 0))

/-- Read an element of an array. -/
def loadElement (image : Image) (array index : Value) : Exec Value := do
  let (_, data) ← arrayOperand image array
  let index ← indexOperand image index data.size
  match data with
  | .bytes prim content =>
      Exec.require (Memory.read? content (index * prim.size) prim) .elementRead
  | .values items => Exec.require items[index]? .elementRead

/-- Write a copy of a value into an element of an array. -/
def storeElement (image : Image) (array index value : Value) : Exec Unit := do
  let value ← Exec.copy value
  let (object, data) ← arrayOperand image array
  let index ← indexOperand image index data.size
  match data with
  | .bytes prim _ =>
      let word ← Exec.require (Memory.encode? prim value) .elementStore
      Exec.modifyHeap fun heap =>
        Memory.setBytes heap object fun bytes =>
          Memory.overwrite bytes (index * prim.size) (Memory.toBytes prim.size word)
  | .values _ =>
      Exec.modifyHeap fun heap =>
        heap.modify object fun
          | .array element (.values items) pins =>
              .array element (.values (items.setIfInBounds index value)) pins
          | object => object

/-- The address of an element of an array. -/
def elementAddress (image : Image) (array index : Value) : Exec Value := do
  let (object, data) ← arrayOperand image array
  match data with
  | .bytes prim _ =>
      let index ← indexOperand image index data.size
      return .element object (index * prim.size)
  | .values _ => Exec.malformed .elementAddress

/-- Carry out a change of raw memory that may be refused. -/
def accessMemory (image : Image) (change : Heap → Option Heap) : Exec Unit := do
  match change (← Exec.heap) with
  | some heap => Exec.modifyHeap fun _ => heap
  | none => Exec.raise image .accessViolation

/-- Read a number at an address. -/
def loadIndirect (image : Image) (prim : Prim) (address : Value) : Exec Value := do
  let address ← addressOperand address
  match Memory.load? (← Exec.heap) address prim with
  | some value => return value
  | none => Exec.raise image .accessViolation

/-- Write a number at an address. -/
def storeIndirect (image : Image) (prim : Prim) (address value : Value) :
    Exec Unit := do
  let address ← addressOperand address
  accessMemory image fun heap => Memory.store? heap address prim value

/-- Copy bytes between addresses. -/
def copyBlock (image : Image) (target source count : Value) : Exec Unit := do
  let count ← countOperand count
  if 0 < count then
    let source ← addressOperand source
    let target ← addressOperand target
    accessMemory image fun heap => Memory.copy? heap target source count

/-- Write one byte over a range of addresses. -/
def fillBlock (image : Image) (target value count : Value) : Exec Unit := do
  let count ← countOperand count
  let byte := (← Exec.require value.int32? .fillValue).toUInt32.toUInt8
  if 0 < count then
    let target ← addressOperand target
    accessMemory image fun heap => Memory.fill? heap target byte count

/-- Convert a value; an element address becomes a raw address. -/
def convert (image : Image) (conversion : Conversion) (value : Value) :
    Exec Value := do
  match value with
  | .element array offset =>
      if conversion.target.isPointer then
        return .native (Memory.address array offset)
  | _ => pure ()
  Exec.ofArith image (Arith.convert conversion value)

/-- Put a value behind a reference; references stay as they are. -/
def box (image : Image) (type : RunTy) (value : Value) : Exec Value := do
  if image.isValueTy type then
    let handle ← Exec.ofImage (image.handleOf type)
    let value ← Exec.copy value
    return .ref (← Exec.alloc (.boxed handle value))
  else
    return value

/-- Let null and instances of a type pass, and raise an exception for other values. -/
def castClass (image : Image) (type : RunTy) (value : Value) : Exec Value := do
  if value.isNull then
    return value
  if ← Exec.isInstance image value type then
    return value
  Exec.raise image .invalidCast

/-- Take a value out of its box, whose type has to be the given one; for
reference types this is a cast. -/
def unbox (image : Image) (type : RunTy) (value : Value) : Exec Value := do
  if !image.isValueTy type then
    return ← castClass image type value
  let handle ← Exec.ofImage (image.handleOf type)
  if value.isNull then
    Exec.raise image .nullReference
  match (← Exec.heap).deref? value with
  | some (.boxed actual content) =>
      if actual = handle then Exec.copy content
      else Exec.raise image .invalidCast
  | _ => Exec.raise image .invalidCast

/-- Begin a call. -/
def call (image : Image) (method : MethodHandle) (tail isVirtual : Bool) :
    FrameStep Flow := do
  let info ← Exec.ofImage (image.method method)
  let hasReceiver := !info.attrs.isStatic
  let args ← takeArgs (info.params.length + hasReceiver.toNat) hasReceiver
  let call : Call := { method, args, isVirtual }
  if tail then
    return .tailCall call
  return .enter (.method call) (if info.ret.isVoid then .drop else .push)

/-- Go on after a finally handler. -/
def endFinally : FrameStep Flow := do
  let frame ← get
  match frame.pending with
  | [] => Exec.malformed .endFinallyOutside
  | .leave target rest _ :: pending =>
      set (Frame.leaveThrough { frame with pending } target rest)
      return .next
  | .unwind exception position nextRegion _ :: pending =>
      set { frame with pending }
      return .resume exception position nextRegion

/-- Replace the value on top of the stack. -/
def mapTop (action : Value → Exec Value) : FrameStep Flow := do
  push (← action (← pop))
  return .next

/-- Replace the two values on top of the stack. -/
def mapTop₂ (action : Value → Value → Exec Value) : FrameStep Flow := do
  let right ← pop
  let left ← pop
  push (← action left right)
  return .next

/-- Execute an instruction.  The frame already points to the next one, and
`current` is the position of this one. -/
def execute (image : Image) (current : Nat) (instr : Instr) : FrameStep Flow := do
  match instr with
  | .nop => return .next
  | .pop =>
      discard pop
      return .next
  | .dup =>
      let value ← pop
      push value
      push value
      return .next
  | .const value =>
      push (constant value)
      return .next
  | .loadArg slot =>
      push (← Exec.require (← get).args[slot]? .argumentIndex)
      return .next
  | .storeArg slot =>
      storeArg slot (← pop)
      return .next
  | .loadLocal slot =>
      push (← Exec.require (← get).locals[slot]? .localIndex)
      return .next
  | .storeLocal slot =>
      storeLocal slot (← pop)
      return .next
  | .loadField field => mapTop (loadField image field)
  | .storeField field =>
      let value ← pop
      let object ← pop
      storeField image field object value
      return .next
  | .loadStatic field =>
      push (← loadStatic image field)
      return .next
  | .storeStatic field =>
      storeStatic image field (← pop)
      return .next
  | .call method tail => call image method tail false
  | .callVirtual method tail => call image method tail true
  | .newObject ctor =>
      let info ← Exec.ofImage (image.ctor ctor)
      let args ← takeArgs info.params.length false
      let object ← Exec.allocate image info.owner
      return .enter (.ctor ctor (object :: args)) (.object object)
  | .callCtor ctor =>
      let info ← Exec.ofImage (image.ctor ctor)
      let args ← takeArgs (info.params.length + 1) true
      return .enter (.ctor ctor args) .drop
  | .loadFunction method =>
      push (.method method)
      return .next
  | .ret => return .ret ((← get).stack.head?.getD .null)
  | .branch label =>
      branch label
      return .next
  | .branchTrue label =>
      if (← pop).isTruthy then
        branch label
      return .next
  | .branchFalse label =>
      if !(← pop).isTruthy then
        branch label
      return .next
  | .switch labels =>
      let selector ← Exec.require (← pop).int32? .switchSelector
      if let some label := labels[selector.toUInt32.toNat]? then
        branch label
      return .next
  | .leave label =>
      let frame ← get
      let target ←
        Exec.require (frame.body.target? label) (.unmarkedLabel label.index)
      set (frame.leaveThrough target (Frame.finalsBetween frame.body current target))
      return .next
  | .endFinally => endFinally
  | .throw =>
      let exception ← pop
      if exception.isNull then
        Exec.raise image .nullReference
      throw (.throw exception)
  | .arith op =>
      mapTop₂ fun left right => Exec.ofArith image (Arith.binary op left right)
  | .neg => mapTop fun value => Exec.ofArith image (Arith.neg value)
  | .not => mapTop fun value => Exec.ofArith image (Arith.not value)
  | .compare op =>
      mapTop₂ fun left right => do
        return .ofBool (← Exec.ofArith image (Arith.compare op left right))
  | .convert conversion => mapTop (convert image conversion)
  | .newArray element =>
      mapTop fun length => do
        newArray image element (← lengthOperand image length)
  | .loadElement _ => mapTop₂ (loadElement image)
  | .storeElement _ =>
      let value ← pop
      let index ← pop
      let array ← pop
      storeElement image array index value
      return .next
  | .elementAddress _ => mapTop₂ (elementAddress image)
  | .arrayLength =>
      mapTop fun array => do
        let (_, data) ← arrayOperand image array
        return .native (Int64.ofNat data.size)
  | .loadIndirect prim => mapTop (loadIndirect image prim)
  | .storeIndirect prim =>
      let value ← pop
      let address ← pop
      storeIndirect image prim address value
      return .next
  | .copyBlock =>
      let count ← pop
      let source ← pop
      let target ← pop
      copyBlock image target source count
      return .next
  | .fillBlock =>
      let count ← pop
      let value ← pop
      let target ← pop
      fillBlock image target value count
      return .next
  | .box type => mapTop (box image type)
  | .unbox type => mapTop (unbox image type)
  | .castClass type => mapTop (castClass image type)
  | .isInstance type =>
      mapTop fun value => do
        return if ← Exec.isInstance image value type then value else .null

end FrameStep

end ClassForge
