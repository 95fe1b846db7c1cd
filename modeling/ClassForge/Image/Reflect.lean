import ClassForge.Image.Basic

/-!
# Members of platform types

Signatures of the members of platform types, as a program that is being checked
sees them, and the handles of those members, as generated code needs them.

Entries of generic definitions are erased.  The signatures of an instantiation
are made from its type arguments, and its members are found by the number of
their parameters alone.
-/

namespace ClassForge

/-- Signature of a member.  The type is the result of a method, the type of a
field or property, and `Void` for a constructor. -/
structure MemberSig where
  name : Name
  isInstance : Bool
  isVirtual : Bool
  params : List SourceTy
  type : SourceTy
  deriving DecidableEq

namespace Image

/-- The entry of a platform type; declared types and arrays are not platform
types. -/
def platformHandle? (image : Image) : SourceTy → Option TypeHandle
  | .builtin builtin => image.builtin? builtin
  | .generic definition args => image.generic? definition args.length
  | .declared _ | .array _ => none

/-- The entry of a type of the platform. -/
def platformInfo? (image : Image) (type : SourceTy) : Option TypeInfo :=
  (image.platformHandle? type).bind image.type?

/-- The type that a program writes for a resolved type. -/
def sourceTy (image : Image) (type : RunTy) : SourceTy :=
  type.mapKeys image.typeLabel

/-! ## Signatures -/

/-- Whether the values of a built-in type are copied. -/
def isValueBuiltin (image : Image) : Builtin → Bool
  | .prim _ => true
  | builtin => (image.builtin? builtin).any image.isValueHandle

/-- The base of a platform type.  Value types and the root have none. -/
def baseType? (image : Image) (type : SourceTy) : Option SourceTy := do
  let info ← image.platformInfo? type
  if info.attrs.isValueType then
    none
  else
    let base ← image.type? (← info.base)
    match base.origin with
    | .builtin builtin => some (.builtin builtin)
    | _ => some .object

/-- The interfaces of a platform type. -/
def interfaceTypes (image : Image) (type : SourceTy) : List SourceTy :=
  match image.platformInfo? type with
  | none => []
  | some info => info.interfaces.filterMap fun handle => do
      match (← image.type? handle).origin with
      | .builtin builtin => some (.builtin builtin)
      | _ => none

/-- Signature of the call of a function type. -/
def invokeSig? (type : SourceTy) : Option MemberSig :=
  type.signature?.map fun (params, ret) =>
    { name := "Invoke", isInstance := true, isVirtual := true, params, type := ret }

/-- Signatures of the methods of a name that a platform type declares. -/
def methodSigs (image : Image) (owner : SourceTy) (name : Name) :
    List MemberSig :=
  match image.platformInfo? owner with
  | none => []
  | some info =>
      if info.origin.isGeneric then
        if name = "Invoke" then (invokeSig? owner).toList else []
      else
        ((image.methodsOf info).filter fun (_, method) => method.name == name).map
          fun (_, method) =>
            { name := method.name
              isInstance := !method.attrs.isStatic
              isVirtual := method.attrs.isVirtual
              params := method.params.map image.sourceTy
              type := image.sourceTy method.ret }

/-- Signature of a constructor. -/
def ctorSig (params : List SourceTy) : MemberSig where
  name := ctorName
  isInstance := true
  isVirtual := false
  params := params
  type := .void

/-- Signatures of the constructors of a platform type. -/
def ctorSigs (image : Image) (owner : SourceTy) : List MemberSig :=
  match image.platformInfo? owner with
  | none => []
  | some info =>
      match info.origin, owner with
      | .generic definition _, .generic _ args =>
          if definition = Platform.cell then [ctorSig args, ctorSig []]
          else [ctorSig [.object, .intPtr]]
      | _, _ =>
          (image.ctorsOf info).map fun (_, ctor) =>
            ctorSig (ctor.params.map image.sourceTy)

/-- Signature of a field. -/
def fieldSig (name : Name) (isInstance : Bool) (type : SourceTy) :
    MemberSig where
  name := name
  isInstance := isInstance
  isVirtual := false
  params := []
  type := type

/-- Signature of the field of a name.  Programs do not see library fields whose
names start with an underscore. -/
def fieldSig? (image : Image) (owner : SourceTy) (name : Name) :
    Option MemberSig := do
  let info ← image.platformInfo? owner
  match info.origin, owner with
  | .generic definition _, .generic _ args =>
      if definition = Platform.cell ∧ name = "Value" then
        some (fieldSig name true (args.head?.getD .object))
      else
        none
  | _, _ =>
      if name.startsWith "_" then
        none
      else
        let (_, field) ← (image.fieldsOf info).find? fun (_, field) =>
          field.name == name
        some (fieldSig name (!field.attrs.isStatic) (image.sourceTy field.type))

/-- Signature of the property of a name. -/
def propertySig? (image : Image) (owner : SourceTy) (name : Name) :
    Option MemberSig := do
  let info ← image.platformInfo? owner
  let (_, property) ← (image.propertiesOf info).find? fun (_, property) =>
    property.name == name
  let accessor := (property.getter.or property.setter).bind image.method?
  some (fieldSig name (accessor.any fun method => !method.attrs.isStatic)
    (image.sourceTy property.type))

/-! ## Handles -/

/-- The parameters of a member fit the wanted ones; the members of an erased
generic type are told apart by the number of parameters. -/
def paramsMatch (info : TypeInfo) (declared wanted : List RunTy) : Bool :=
  if info.origin.isGeneric then declared.length == wanted.length
  else declared == wanted

/-- The entry of the owner of a member that code refers to. -/
def ownerInfo (image : Image) (owner : RunTy) : Except ImageError TypeInfo := do
  image.type (← image.handleOf owner)

/-- The method with a name and parameters; none is an error. -/
def resolveMethod (image : Image) (owner : RunTy) (name : Name)
    (isInstance : Bool) (params : List RunTy) :
    Except ImageError MethodHandle := do
  let info ← image.ownerInfo owner
  let found := (image.methodsOf info).find? fun (_, method) =>
    method.name == name && method.attrs.isStatic != isInstance &&
      paramsMatch info method.params params
  match found with
  | some (handle, _) => return handle
  | none => throw (.unknownMember owner.text name)

/-- The constructor with given parameters; none is an error. -/
def resolveCtor (image : Image) (owner : RunTy) (params : List RunTy) :
    Except ImageError CtorHandle := do
  let info ← image.ownerInfo owner
  let found := (image.ctorsOf info).find? fun (_, ctor) =>
    paramsMatch info ctor.params params
  match found with
  | some (handle, _) => return handle
  | none => throw (.unknownMember owner.text ctorName)

/-- The field with a name; none is an error. -/
def resolveField (image : Image) (owner : RunTy) (name : Name) :
    Except ImageError FieldHandle := do
  let info ← image.ownerInfo owner
  let found := (image.fieldsOf info).find? fun (_, field) => field.name == name
  match found with
  | some (handle, _) => return handle
  | none => throw (.unknownMember owner.text name)

end Image

end ClassForge
