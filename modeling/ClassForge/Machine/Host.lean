import ClassForge.Machine.Run

/-!
# Calls from outside

A host makes objects, calls methods and functions, and looks at objects, fields
and arrays.  Members are found by name and by the values that are passed.
-/

namespace ClassForge

/-- A program with its state, at rest between calls.  No level is open then, so the
depth of calls is a matter of a run and not part of the state. -/
structure Machine where
  image : Image
  /-- Number of levels of calls that may be open at once. -/
  maxDepth : Nat
  store : Store
  deriving DecidableEq

namespace Machine

/-- Depth of calls that is allowed unless the host says otherwise. -/
def defaultMaxDepth : Nat := 10000

/-- A machine that has not run anything. -/
def start (image : Image) (maxDepth : Nat) : Machine where
  image := image
  maxDepth := maxDepth
  store := .initial image

/-- The answer to a call and the machine after it, or nothing when the call did
not end within its fuel. -/
abbrev Reply := Option (Except RunError Value × Machine)

/-- Refuse a call. -/
def refuse (machine : Machine) (error : RunError) : Reply :=
  some (.error error, machine)

/-! ## Finding members -/

/-- Whether a value can be passed for a parameter.  The parameters of erased
types are objects and take anything. -/
def valueFits (machine : Machine) (value : Value) (type : RunTy) : Bool :=
  match type with
  | .builtin .object => true
  | .builtin (.prim prim) =>
      match value with
      | .int32 _ => !prim.isWide && !prim.isFloat
      | .int64 _ => prim.isWide && !prim.isPointer
      | .native _ => prim.isPointer
      | .float _ => prim.isFloat
      | _ => false
  | type =>
      match value with
      | .null => !machine.image.isValueTy type
      | value =>
          !Store.isNumber value &&
            ((Store.isInstance machine.image machine.store.heap value type).toOption.getD
              false)

/-- Whether values can be passed for parameters. -/
def argsFit (machine : Machine) (args : List Value) (params : List RunTy) : Bool :=
  args.length == params.length &&
    (args.zip params).all fun (arg, param) => machine.valueFits arg param

/-- A complete type by name. -/
def completeType (machine : Machine) (name : Name) :
    Except RunError (TypeHandle × TypeInfo) :=
  match machine.image.typeNamed? name with
  | none => .error (.image (.unknownType name))
  | some handle =>
      match machine.image.type? handle with
      | none => .error (.image (.invalidHandle .type handle.index))
      | some info =>
          if info.isComplete then .ok (handle, info) else .error (.notSealed name)

/-- The first constructor of a type that takes some arguments. -/
def findCtor (machine : Machine) (typeName : Name) (args : List Value) :
    Except RunError (TypeHandle × CtorHandle) := do
  let (handle, info) ← machine.completeType typeName
  let found := (machine.image.ctorsOf info).find? fun (_, ctor) =>
    machine.argsFit args ctor.params
  match found with
  | some (ctor, _) => return (handle, ctor)
  | none => throw (.noSuchMember typeName .ctor ctorName)

/-- The first static method of a name that takes some arguments. -/
def findStatic (machine : Machine) (typeName method : Name) (args : List Value) :
    Except RunError MethodHandle := do
  let (_, info) ← machine.completeType typeName
  let found := (machine.image.methodsOf info).find? fun (_, candidate) =>
    candidate.attrs.isStatic && candidate.name == method &&
      machine.argsFit args candidate.params
  match found with
  | some (handle, _) => return handle
  | none => throw (.noSuchMember typeName .staticMethod method)

/-- The first instance method of a name that takes some arguments, on the type
of a receiver or one of its bases. -/
def findInstance (machine : Machine) (receiver : Value) (method : Name)
    (args : List Value) : Except RunError MethodHandle :=
  let lineage := match Store.typeOf? machine.image machine.store.heap receiver with
    | some handle => machine.image.lineage handle
    | none => []
  let found := (lineage.flatMap machine.image.methodsOf).find? fun (_, candidate) =>
    !candidate.attrs.isStatic && candidate.name == method &&
      machine.argsFit args candidate.params
  match found with
  | some (handle, _) => .ok handle
  | none =>
      .error (.noSuchMember
        (Store.describe machine.image machine.store.heap receiver)
        .instanceMethod method)

/-! ## Calls -/

/-- The answer that the end of a run amounts to. -/
def Outcome.answer (image : Image) (store : Store) : Outcome → Except RunError Value
  | .value value => .ok value
  | .error error => .error error
  | .exception exception =>
      .error (.unhandled (Store.describe image store.heap exception)
        (Store.exceptionMessage store.heap exception))

/-- Carry out a request in some state. -/
def perform (machine : Machine) (fuel : Nat) (request : Request) (store : Store) :
    Reply :=
  let result :=
    match enter machine.maxDepth request [] machine.maxDepth store with
    | .running config => run machine.image machine.maxDepth fuel config
    | .finished outcome store => some (outcome, store)
  result.map fun (outcome, store) =>
    (Outcome.answer machine.image store outcome, { machine with store })

/-- Make an object with the first constructor that takes the arguments. -/
def construct (machine : Machine) (fuel : Nat) (typeName : Name)
    (args : List Value) : Reply :=
  match machine.findCtor typeName args with
  | .error error => machine.refuse error
  | .ok (type, ctor) =>
      match (Exec.allocate machine.image type).run machine.store with
      | .ok object store =>
          (machine.perform fuel (.ctor ctor (object :: args)) store).map
            fun (answer, machine) => (answer.map fun _ => object, machine)
      | .error (.fatal error) store => some (.error error, { machine with store })
      | .error (.throw exception) store =>
          some (Outcome.answer machine.image store (.exception exception),
            { machine with store })

/-- Call a static method. -/
def invokeStatic (machine : Machine) (fuel : Nat) (typeName method : Name)
    (args : List Value) : Reply :=
  match machine.findStatic typeName method args with
  | .error error => machine.refuse error
  | .ok method =>
      machine.perform fuel (.method { method, args, isVirtual := false })
        machine.store

/-- Call a method of an object. -/
def invokeInstance (machine : Machine) (fuel : Nat) (receiver : Value)
    (method : Name) (args : List Value) : Reply :=
  match machine.findInstance receiver method args with
  | .error error => machine.refuse error
  | .ok method =>
      machine.perform fuel
        (.method { method, args := receiver :: args, isVirtual := true })
        machine.store

/-- Call a function. -/
def invokeDelegate (machine : Machine) (fuel : Nat) (delegate : Value)
    (args : List Value) : Reply :=
  machine.invokeInstance fuel delegate "Invoke" args

/-- The bytes of some values as elements of a primitive array. -/
def elementBytes (prim : Prim) (values : List Value) :
    Except RunError (List UInt8) := do
  let words ← values.mapM fun value =>
    match Memory.encode? prim value with
    | some word => .ok word
    | none => .error (.invalidProgram (.notOfPrim value prim))
  return words.flatMap (Memory.toBytes prim.size)

/-- Make a primitive array. -/
def newArray (machine : Machine) (prim : Prim) (values : List Value) :
    Except RunError Value × Machine :=
  match elementBytes prim values with
  | .error error => (.error error, machine)
  | .ok bytes =>
      let (object, heap) := machine.store.heap.alloc
        (.array (.prim prim) (.bytes prim bytes.toArray) 0)
      (.ok (.ref object), { machine with store := { machine.store with heap } })

/-- Take the console text. -/
def takeOutput (machine : Machine) : String × Machine :=
  (machine.store.output, { machine with store := { machine.store with output := "" } })

/-! ## Looking at objects -/

/-- The slot of the field of a name, on a type or one of its bases. -/
def fieldSlot? (machine : Machine) (type : TypeHandle) (name : Name)
    (isStatic : Bool) : Option Nat :=
  let fields := (machine.image.lineage type).flatMap machine.image.fieldsOf
  (fields.find? fun (_, field) =>
    field.name == name && field.attrs.isStatic == isStatic).map fun (_, field) =>
      field.slot

/-- A field of an object. -/
def getField? (machine : Machine) (object : Value) (name : Name) : Option Value := do
  match ← machine.store.heap.deref? object with
  | .instance type fields => fields[← machine.fieldSlot? type name false]?
  | _ => none

/-- A static field. -/
def getStatic? (machine : Machine) (typeName name : Name) : Option Value := do
  let type ← machine.image.typeNamed? typeName
  machine.store.statics[← machine.fieldSlot? type name true]?

/-- The elements of an array. -/
def arrayValues? (machine : Machine) (array : Value) : Option (List Value) := do
  match ← machine.store.heap.deref? array with
  | .array _ (.bytes prim content) _ =>
      (List.range (content.size / prim.size)).mapM fun index =>
        Memory.read? content (index * prim.size) prim
  | .array _ (.values items) _ => some items.toList
  | _ => none

/-- The name of the type of a value. -/
def typeName? (machine : Machine) (value : Value) : Option Name :=
  Store.typeName? machine.image machine.store.heap value

end Machine

end ClassForge
