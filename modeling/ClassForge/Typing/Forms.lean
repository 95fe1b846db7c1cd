import ClassForge.Core.Basic
import ClassForge.Expr.Usage
import ClassForge.Scope
import ClassForge.Typing.Members
import ClassForge.Typing.Operators

/-!
# Rules for single nodes

What checking requires of the parts of a node, and the node that results.  The
forms that only act on operands are treated here whole.  A rule takes the
outcomes of checking the operands, so that it can say which of several faults is
reported: the first one in the order in which the rule looks at things.
-/

namespace ClassForge

/-- The result of checking: a value, or the first fault. -/
abbrev Checked := Except Diagnostic

/-- A variable with the marks that its scope gives it. -/
def Binder.of (scope : Usage) (name : Name) (type : SourceTy) : Binder where
  name := name
  type := type
  captured := scope.isCaptured name

namespace TypeContext

/-! ## Requirements -/

/-- An expression has to be of a type. -/
def expectExact (site : Site) (expected : SourceTy) (found : Core) :
    Checked Unit :=
  if found.type = expected then .ok ()
  else .error (.typeMismatch site expected found.type)

/-- An expression has to be assignable to a type. -/
def expectAssignable (context : TypeContext) (site : Site) (goal : SourceTy)
    (found : Core) : Checked Unit :=
  if context.isAssignable found.type goal then .ok ()
  else .error (.typeMismatch site goal found.type)

/-- A member without a result drops whatever its body gives; otherwise the body
has to give a value of the result type. -/
def expectResult (context : TypeContext) (site : Site) (ret : SourceTy)
    (found : Core) : Checked Unit :=
  if ret.isVoid then .ok () else context.expectAssignable site ret found

/-- Refuse a type whose values are copied. -/
def expectReference (context : TypeContext) (construct : Construct)
    (type : SourceTy) : Checked Unit :=
  if context.isReference type then .ok ()
  else .error (.notAReferenceType construct type)

/-- Refuse a type whose values are shared. -/
def expectValue (context : TypeContext) (construct : Construct)
    (type : SourceTy) : Checked Unit :=
  if context.isValue type then .ok () else .error (.notAValueType construct type)

/-- An operand of a raw memory operation has to be of a primitive type. -/
def expectMemory (operand : MemoryOperand) (prim : Prim) (found : Core) :
    Checked Unit :=
  if found.type.isPrim prim then .ok ()
  else .error (.invalidMemoryOperand operand found.type)

/-- Only exceptions are thrown and caught. -/
def expectException (context : TypeContext) (type : SourceTy) : Checked Unit :=
  if context.isAssignable type .exception then .ok ()
  else .error (.notAssignable type .exception)

/-- The element type of an array expression. -/
def elementType (array : Core) : Checked SourceTy :=
  match array.type.element? with
  | some element => .ok element
  | none => .error (.notAnArray array.type)

/-- The receiver of a member access has to have a value. -/
def expectReceiver (receiver : Core) : Checked Unit :=
  if receiver.type.isVoid then
    .error (.notAReferenceType .memberAccess receiver.type)
  else
    .ok ()

/-! ## Members -/

/-- The field that an access through a type or an instance means. -/
def accessField (context : TypeContext) (owner : SourceTy) (name : Name)
    (isStatic : Bool) : Checked FieldTarget := do
  let field ← context.findField owner name
  if field.isStatic == isStatic then
    return field
  else
    throw (.memberNotFound owner (if isStatic then .staticField else .instanceField)
      name)

/-- The getter that reading a property means. -/
def accessGetter (context : TypeContext) (owner : SourceTy) (name : Name)
    (isStatic : Bool) : Checked Callee := do
  let property ← context.findProperty owner name
  if property.hasGetter && property.isStatic == isStatic then
    return property.getter
  else
    throw (.memberNotFound owner .readableProperty name)

/-- The property that writing it means. -/
def accessSetter (context : TypeContext) (owner : SourceTy) (name : Name)
    (isStatic : Bool) : Checked PropertyTarget := do
  let property ← context.findProperty owner name
  if property.hasSetter && property.isStatic == isStatic then
    return property
  else
    throw (.memberNotFound owner .writableProperty name)

/-- Read a field. -/
def loadField (context : TypeContext) (owner : SourceTy) (name : Name)
    (isStatic : Bool) (receiver : List Core) : Checked Core := do
  let field ← context.accessField owner name isStatic
  return .member field.type (.loadField field) receiver

/-- Write a field. -/
def storeField (context : TypeContext) (owner : SourceTy) (name : Name)
    (isStatic : Bool) (receiver : List Core) (value : Checked Core) :
    Checked Core := do
  let field ← context.accessField owner name isStatic
  let value ← value
  context.expectAssignable .fieldAssignment field.type value
  return .member .void (.storeField field) (receiver ++ [value])

/-- Read a property. -/
def loadProperty (context : TypeContext) (owner : SourceTy) (name : Name)
    (isStatic : Bool) (receiver : List Core) : Checked Core := do
  let getter ← context.accessGetter owner name isStatic
  return .member getter.ret (.call getter) receiver

/-- Write a property. -/
def storeProperty (context : TypeContext) (owner : SourceTy) (name : Name)
    (isStatic : Bool) (receiver : List Core) (value : Checked Core) :
    Checked Core := do
  let property ← context.accessSetter owner name isStatic
  let value ← value
  context.expectAssignable .propertyAssignment property.type value
  return .member .void (.write property.setter) (receiver ++ [value])

/-- Call a method. -/
def callMethod (context : TypeContext) (owner : SourceTy) (name : Name)
    (receiver args : List Core) : Checked Core := do
  let candidates := context.methodCandidates owner name (!receiver.isEmpty)
  let callee ← context.select owner name candidates (args.map Core.type)
  return .member callee.ret (.call callee) (receiver ++ args)

/-- The constructor of a type that takes some arguments. -/
def selectCtor (context : TypeContext) (type : SourceTy) (args : List Core) :
    Checked Callee :=
  context.select type ctorName (context.ctorCandidates type) (args.map Core.type)

/-- Only concrete types have instances. -/
def expectConcrete (context : TypeContext) (type : SourceTy) : Checked Unit :=
  if (context.attrs? type).any fun attrs => attrs.isInterface || attrs.isAbstract then
    .error (.invalidDeclaration type.text .abstractInstance)
  else
    .ok ()

/-! ## Nodes by number of operands -/

/-- Whether a numeric conversion takes a type. -/
def isNumeric (type : SourceTy) : Bool :=
  type.prim?.any (· != .bool)

/-- The node for a form with one operand. -/
def unaryCore (context : TypeContext) (form : UnaryForm) (operand : Checked Core) :
    Checked Core := do
  match form with
  | .op op =>
      let operand ← operand
      let (type, action) ← Operators.unary op operand.type
      return .apply type action [operand]
  | .convert target checked =>
      let operand ← operand
      if isNumeric operand.type && target != .bool then
        let unsigned := operand.type.prim?.any Prim.isUnsigned
        return .apply (.prim target) (.convert target checked unsigned) [operand]
      else
        throw (.unsupportedOperator "convert" [operand.type, .prim target])
  | .newArray element =>
      if element.isVoid then
        throw (.unsupportedOperator "new-array" [element])
      let length ← operand
      expectExact .arrayLength .int32 length
      return .apply (.array element) (.onType .newArray element) [length]
  | .arrayLength =>
      let array ← operand
      discard <| elementType array
      return .apply .int32
        (.code [.arrayLength, .convert ⟨.int32, false, false⟩]) [array]
  | .peek prim =>
      let address ← operand
      expectMemory .peek .intPtr address
      return .apply (.prim prim) (.instr (.loadIndirect prim)) [address]
  | .field name =>
      let receiver ← operand
      expectReceiver receiver
      context.loadField receiver.type name false [receiver]
  | .setStaticField owner name => context.storeField owner name true [] operand
  | .property name =>
      let receiver ← operand
      expectReceiver receiver
      context.loadProperty receiver.type name false [receiver]
  | .setStaticProperty owner name =>
      context.storeProperty owner name true [] operand
  | .box =>
      let operand ← operand
      context.expectValue .box operand.type
      return .apply .object (.onType .box operand.type) [operand]
  | .unbox type =>
      let operand ← operand
      expectExact .unboxOperand .object operand
      context.expectValue .unbox type
      return .apply type (.onType .unbox type) [operand]
  | .cast type =>
      let operand ← operand
      related operand .cast type
      return .apply type (.onType .cast type) [operand]
  | .isInstance type =>
      let operand ← operand
      related operand .typeTest type
      return .apply .bool (.onType .test type) [operand]
  | .isNull =>
      let operand ← operand
      context.expectReference .nullTest operand.type
      return .apply .bool (.code [.const .null, .compare .eq]) [operand]
  | .throw type =>
      let exception ← operand
      context.expectException exception.type
      return .apply type (.instr .throw) [exception]
where
  /-- Casts and type tests go between related reference types. -/
  related (operand : Core) (construct : Construct) (type : SourceTy) :
      Checked Unit := do
    context.expectReference construct operand.type
    context.expectReference construct type
    if !context.areRelated operand.type type then
      throw (.notAssignable operand.type type)

/-- The node for a form with two operands. -/
def binaryCore (context : TypeContext) (form : BinaryForm)
    (left right : Checked Core) : Checked Core := do
  match form with
  | .op op =>
      let left ← left
      let right ← right
      let (type, action) ← Operators.binary context op left.type right.type
      return .apply type action [left, right]
  | .arrayRef =>
      let array ← left
      let element ← elementType array
      let index ← right
      expectExact .arrayIndex .int32 index
      return .apply element (.onType .loadElement element) [array, index]
  | .poke =>
      let address ← left
      expectMemory .poke .intPtr address
      let value ← right
      match value.type.prim? with
      | some prim =>
          return .apply .void (.instr (.storeIndirect prim)) [address, value]
      | none => throw (.invalidMemoryOperand .poke value.type)
  | .setField name =>
      let receiver ← left
      expectReceiver receiver
      context.storeField receiver.type name false [receiver] right
  | .setProperty name =>
      let receiver ← left
      expectReceiver receiver
      context.storeProperty receiver.type name false [receiver] right

/-- The node for a form with three operands. -/
def ternaryCore (context : TypeContext) (form : TernaryForm)
    (first second third : Checked Core) : Checked Core := do
  match form with
  | .arraySet =>
      let array ← first
      let element ← elementType array
      let index ← second
      expectExact .arrayIndex .int32 index
      let value ← third
      context.expectAssignable .arrayElement element value
      return .apply .void (.onType .storeElement element) [array, index, value]
  | .memCopy =>
      let target ← first
      expectMemory .memCopy .intPtr target
      let source ← second
      expectMemory .memCopy .intPtr source
      let count ← third
      expectMemory .memCopyCount .uint32 count
      return .apply .void (.instr .copyBlock) [target, source, count]
  | .memFill =>
      let target ← first
      expectMemory .memFill .intPtr target
      let value ← second
      expectMemory .memFillValue .uint8 value
      let count ← third
      expectMemory .memFillCount .uint32 count
      return .apply .void (.instr .fillBlock) [target, value, count]

/-! ## Parts of the other nodes -/

/-- Most entries that the jump table of a `switch` may have. -/
def maxSwitchEntries : Nat := 256

/-- The first label that occurs twice. -/
def repeatedLabel? (seen : List UInt32) : List UInt32 → Option UInt32
  | [] => none
  | label :: labels =>
      if seen.contains label then some label else repeatedLabel? (label :: seen) labels

/-- Labels are distinct and small enough for a jump table. -/
def checkLabels (labels : List UInt32) : Checked Unit := do
  if let some label := repeatedLabel? [] labels then
    throw (.duplicateSwitchLabel label.toNat)
  if let some largest := (labels.map UInt32.toNat).max? then
    if maxSwitchEntries < largest + 1 then
      throw (.switchTableTooLarge (largest + 1))

/-- A selector is an integer of at most 32 bits. -/
def expectSelector (selector : Core) : Checked Unit :=
  if selector.type.prim?.any fun prim => prim.isIntegral && prim.size ≤ 4 then .ok ()
  else .error (.invalidSwitchSelector selector.type)

/-- Only arrays of some primitive types can be pinned. -/
def expectPinnable (array : Core) : Checked Unit :=
  if (array.type.element?.bind Ty.prim?).any Prim.isPinnable then .ok ()
  else .error (.invalidPinTarget array.type)

/-- The variables that cross a boundary, with the types that they have just
outside it. -/
def captureTypes (scope : Scope SourceTy) (crossing : Usage) :
    Checked (List Param) :=
  crossing.names.mapM fun name => do
    let type ← scope.lookup name
    return { name, type }

/-- Parameter and result types of the function that is called. -/
def expectDelegate (function : Core) (argCount : Nat) :
    Checked (List SourceTy × SourceTy) :=
  match function.type.signature? with
  | none => .error (.notADelegate function.type)
  | some (params, ret) =>
      if params.length = argCount then .ok (params, ret)
      else .error (.argCountMismatch function.type.text params.length argCount)

end TypeContext

end ClassForge
