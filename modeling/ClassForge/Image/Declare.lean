import ClassForge.Image.Basic

/-!
# Building an image

Types and members are declared one by one, code is defined for them, and a type
is completed once every member has what it needs.  Each operation returns the
extended image, or says why it was refused.
-/

namespace ClassForge

namespace Image

/-- A declared type that still takes members. -/
def openType (image : Image) (handle : TypeHandle) :
    Except ImageError TypeInfo := do
  let info ← image.type handle
  if info.origin = .declared && !info.isComplete then
    return info
  else
    throw (.alreadySealed info.name)

/-- Refusal of a second member of the same identity. -/
def duplicate (image : Image) (owner : TypeHandle) (member : Name) : ImageError :=
  .duplicateMember (image.typeLabel owner) member

mutual

/-- Check that every type mentioned in a type exists. -/
def checkTy (image : Image) : RunTy → Except ImageError Unit
  | .builtin builtin => do
      discard <| image.handleOf (.builtin builtin)
  | .generic definition args => do
      discard <| image.handleOf (.generic definition args)
      checkTys image args
  | .declared handle => do
      discard <| image.handleOf (.declared handle)
  | .array element => checkTy image element
termination_by structural type => type

/-- Check that every type mentioned in a list of types exists. -/
def checkTys (image : Image) : List RunTy → Except ImageError Unit
  | [] => .ok ()
  | type :: types => do
      checkTy image type
      checkTys image types
termination_by structural types => types

end

/-- Replace the entry of a type. -/
def modifyType (image : Image) (handle : TypeHandle)
    (change : TypeInfo → TypeInfo) : Image :=
  { image with types := image.types.modify handle.index change }

/-- The base of a new type.  Without a declared base, value types and
interfaces have none and classes derive from `Object`. -/
def resolveBase (image : Image) (attrs : TypeAttrs) (base : Option RunTy) :
    Except ImageError (Option TypeHandle) := do
  match base with
  | some type =>
      let handle ← image.handleOf type
      let info ← image.type handle
      if info.attrs.isSealed || info.attrs.isInterface || info.attrs.isValueType then
        throw (.invalidBase info.name)
      return some handle
  | none =>
      if attrs.isValueType || attrs.isInterface then
        return none
      return some (← image.handleOf .object)

/-- Declare a type.  Names are unique among platform and declared types. -/
def declareType (image : Image) (name : Name) (attrs : TypeAttrs)
    (base : Option RunTy) (interfaces : List RunTy) :
    Except ImageError (TypeHandle × Image) := do
  if (image.typeNamed? name).isSome then
    throw (.duplicateMember "module" name)
  let base ← image.resolveBase attrs base
  let interfaces ← interfaces.mapM image.handleOf
  let info : TypeInfo :=
    { name, attrs, origin := .declared, base, interfaces, fields := [],
      methods := [], ctors := [], properties := [], isComplete := false,
      instanceSlots := 0 }
  return (⟨image.types.size⟩, { image with types := image.types.push info })

/-- Declare a field; field names are unique within a type. -/
def declareField (image : Image) (owner : TypeHandle) (name : Name)
    (type : RunTy) (attrs : FieldAttrs) :
    Except ImageError (FieldHandle × Image) := do
  image.checkTy type
  let info ← image.openType owner
  if (image.fieldsOf info).any fun (_, field) => field.name == name then
    throw (image.duplicate owner name)
  let handle : FieldHandle := ⟨image.fields.size⟩
  let extended := image.modifyType owner fun info =>
    { info with fields := info.fields ++ [handle] }
  return (handle,
    { extended with
      fields := image.fields.push { owner, name, type, attrs, slot := 0 } })

/-- Declare a method; name, parameters and staticness are unique within a
type. -/
def declareMethod (image : Image) (owner : TypeHandle) (name : Name)
    (attrs : MethodAttrs) (params : List RunTy) (ret : RunTy) :
    Except ImageError (MethodHandle × Image) := do
  image.checkTys (params ++ [ret])
  let info ← image.openType owner
  let clashes := (image.methodsOf info).any fun (_, method) =>
    method.name == name && method.params == params &&
      method.attrs.isStatic == attrs.isStatic
  if clashes then
    throw (image.duplicate owner name)
  let handle : MethodHandle := ⟨image.methods.size⟩
  let extended := image.modifyType owner fun info =>
    { info with methods := info.methods ++ [handle] }
  return (handle,
    { extended with
      methods := image.methods.push
        { owner, name, attrs, params, ret, implementation := .missing } })

/-- Declare a constructor; parameters are unique within a type. -/
def declareCtor (image : Image) (owner : TypeHandle) (params : List RunTy) :
    Except ImageError (CtorHandle × Image) := do
  image.checkTys params
  let info ← image.openType owner
  if (image.ctorsOf info).any fun (_, ctor) => ctor.params == params then
    throw (image.duplicate owner ctorName)
  let handle : CtorHandle := ⟨image.ctors.size⟩
  let extended := image.modifyType owner fun info =>
    { info with ctors := info.ctors ++ [handle] }
  return (handle,
    { extended with
      ctors := image.ctors.push { owner, params, implementation := .missing } })

/-- Check that an accessor belongs to a type. -/
def checkAccessor (image : Image) (owner : TypeHandle) (accessor : MethodHandle) :
    Except ImageError Unit := do
  let info ← image.method accessor
  if info.owner ≠ owner then
    throw (.unknownMember (image.typeLabel owner) accessor.text)

/-- Declare a property over methods of the same type; property names are unique
within a type. -/
def declareProperty (image : Image) (owner : TypeHandle) (name : Name)
    (type : RunTy) (getter setter : Option MethodHandle) :
    Except ImageError (PropertyHandle × Image) := do
  let info ← image.openType owner
  if (image.propertiesOf info).any fun (_, property) => property.name == name then
    throw (image.duplicate owner name)
  (getter.toList ++ setter.toList).forM (image.checkAccessor owner)
  let handle : PropertyHandle := ⟨image.properties.size⟩
  let extended := image.modifyType owner fun info =>
    { info with properties := info.properties ++ [handle] }
  return (handle,
    { extended with
      properties := image.properties.push { name, type, getter, setter } })

/-- Define the code of a method. -/
def defineMethod (image : Image) (handle : MethodHandle) (body : Body) :
    Except ImageError Image := do
  let info ← image.method handle
  discard <| image.openType info.owner
  if info.attrs.isAbstract then
    throw (.abstractBody (image.methodLabel info))
  if !info.implementation.isMissing then
    throw (.bodyAlreadyDefined (image.methodLabel info))
  return { image with
    methods := image.methods.modify handle.index fun info =>
      { info with implementation := .code body } }

/-- Define the code of a constructor. -/
def defineCtor (image : Image) (handle : CtorHandle) (body : Body) :
    Except ImageError Image := do
  let info ← image.ctor handle
  discard <| image.openType info.owner
  if !info.implementation.isMissing then
    throw (.bodyAlreadyDefined (image.ctorLabel info))
  return { image with
    ctors := image.ctors.modify handle.index fun info =>
      { info with implementation := .code body } }

/-! ## Completing a type -/

/-- Number of instance fields that a type inherits.  Its base has to be
complete. -/
def inheritedSlots (image : Image) (info : TypeInfo) : Except ImageError Nat := do
  match info.base with
  | none => return 0
  | some base =>
      let baseInfo ← image.type base
      if baseInfo.isComplete then
        return baseInfo.instanceSlots
      else
        throw (.baseNotSealed info.name baseInfo.name)

/-- Check that every member of a type has code where it needs it. -/
def checkBodies (image : Image) (info : TypeInfo) : Except ImageError Unit := do
  info.methods.forM fun handle => do
    let method ← image.method handle
    if method.implementation.isMissing && !method.attrs.isAbstract then
      throw (.missingBody (image.methodLabel method))
  info.ctors.forM fun handle => do
    let ctor ← image.ctor handle
    if ctor.implementation.isMissing then
      throw (.missingBody (info.name ++ "." ++ ctorName))

/-- Whether a type or one of its bases has a concrete method of a name and
parameters. -/
def implements (image : Image) (handle : TypeHandle) (name : Name)
    (params : List RunTy) : Bool :=
  (image.lineage handle).any fun info =>
    (image.methodsOf info).any fun (_, method) =>
      method.name == name && method.params == params && !method.attrs.isAbstract

/-- Check that a concrete type implements the methods of its interfaces. -/
def checkInterfaces (image : Image) (handle : TypeHandle) (info : TypeInfo) :
    Except ImageError Unit := do
  if !info.attrs.isInterface && !info.attrs.isAbstract then
    info.interfaces.forM fun interface => do
      let interfaceInfo ← image.type interface
      interfaceInfo.methods.forM fun required => do
        let method ← image.method required
        if !image.implements handle method.name method.params then
          throw (.missingBody
            (info.name ++ "." ++ method.name ++ " required by " ++
              image.typeLabel interface))

/-- Give fields their slots: instance fields from one counter, static fields
from the other. -/
def assignSlots : (handles : List FieldHandle) → (fields : Array FieldInfo) →
    (nextInstance nextStatic : Nat) → Array FieldInfo × Nat × Nat
  | [], fields, nextInstance, nextStatic => (fields, nextInstance, nextStatic)
  | handle :: handles, fields, nextInstance, nextStatic =>
      match fields[handle.index]? with
      | none => assignSlots handles fields nextInstance nextStatic
      | some field =>
          if field.attrs.isStatic then
            assignSlots handles
              (fields.setIfInBounds handle.index { field with slot := nextStatic })
              nextInstance (nextStatic + 1)
          else
            assignSlots handles
              (fields.setIfInBounds handle.index { field with slot := nextInstance })
              (nextInstance + 1) nextStatic

/-- Complete a type: check its members and lay out its fields. -/
def sealType (image : Image) (handle : TypeHandle) :
    Except ImageError (RealizedType × Image) := do
  let info ← image.openType handle
  let inherited ← image.inheritedSlots info
  image.checkBodies info
  image.checkInterfaces handle info
  let (fields, instanceSlots, staticCount) :=
    assignSlots info.fields image.fields inherited image.staticCount
  let complete := image.modifyType handle fun info =>
    { info with instanceSlots, isComplete := true }
  return (⟨handle, info.name⟩, { complete with fields, staticCount })

end Image

end ClassForge
