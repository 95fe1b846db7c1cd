import ClassForge.Core.Member
import ClassForge.Typing.Context

/-!
# Member lookup and overload choice

Lookups go up the base chain, most derived type first, so a member of a subtype
hides a member of a base with the same signature.  Declared types answer from
their declarations, platform types from their signatures.
-/

namespace ClassForge

/-- A property found on some type of a base chain. -/
structure PropertyTarget where
  owner : SourceTy
  name : Name
  type : SourceTy
  isStatic : Bool
  hasGetter : Bool
  hasSetter : Bool
  deriving DecidableEq

namespace PropertyTarget

/-- The method that reads the property. -/
def getter (property : PropertyTarget) : Callee where
  owner := property.owner
  name := getterName property.name
  isInstance := !property.isStatic
  isVirtual := false
  params := []
  ret := property.type

/-- The method that writes the property. -/
def setter (property : PropertyTarget) : Callee where
  owner := property.owner
  name := setterName property.name
  isInstance := !property.isStatic
  isVirtual := false
  params := [property.type]
  ret := .void

end PropertyTarget

namespace TypeContext

/-! ## Fields and properties -/

/-- The field of a name that a type itself has. -/
def ownField? (context : TypeContext) (name : Name) : SourceTy → Option FieldTarget
  | .declared owner =>
      (context.symbols.fieldNamed? owner name).map fun (_, decl) =>
        { owner := .declared owner, name, type := decl.type,
          isStatic := decl.attrs.isStatic }
  | owner =>
      (context.image.fieldSig? owner name).map fun sig =>
        { owner, name, type := sig.type, isStatic := !sig.isInstance }

/-- The property of a name that a type itself has. -/
def ownProperty? (context : TypeContext) (name : Name) :
    SourceTy → Option PropertyTarget
  | .declared owner =>
      (context.symbols.propertyNamed? owner name).map fun (_, decl) =>
        { owner := .declared owner, name, type := decl.type,
          isStatic := decl.isStatic, hasGetter := decl.hasGetter,
          hasSetter := decl.hasSetter }
  | owner =>
      (context.image.propertySig? owner name).map fun sig =>
        { owner, name, type := sig.type, isStatic := !sig.isInstance
          hasGetter := !(context.image.methodSigs owner (getterName name)).isEmpty
          hasSetter := !(context.image.methodSigs owner (setterName name)).isEmpty }

/-- The field of a name on a type or the nearest of its bases. -/
def findField (context : TypeContext) (owner : SourceTy) (name : Name) :
    Except Diagnostic FieldTarget :=
  match (context.baseChain owner).findSome? (context.ownField? name) with
  | some field => .ok field
  | none => .error (.memberNotFound owner .field name)

/-- The property of a name on a type or the nearest of its bases. -/
def findProperty (context : TypeContext) (owner : SourceTy) (name : Name) :
    Except Diagnostic PropertyTarget :=
  match (context.baseChain owner).findSome? (context.ownProperty? name) with
  | some property => .ok property
  | none => .error (.memberNotFound owner .property name)

/-! ## Candidates for a call -/

/-- The methods of a name that a type itself has. -/
def ownMethods (context : TypeContext) (name : Name) : SourceTy → List Callee
  | .declared owner =>
      (context.symbols.methodsNamed owner name).map fun (key, decl) =>
        { owner := .declared owner, name, isInstance := key.isInstance,
          isVirtual := decl.attrs.isVirtual, params := key.params,
          ret := decl.ret }
  | owner =>
      (context.image.methodSigs owner name).map fun sig =>
        { owner, name, isInstance := sig.isInstance, isVirtual := sig.isVirtual,
          params := sig.params, ret := sig.type }

/-- Of several callees with the same parameters keep the first. -/
def dropHidden (callees : List Callee) : List Callee :=
  callees.foldl
    (fun kept callee =>
      if kept.any fun other => other.params == callee.params then kept
      else kept ++ [callee])
    []

/-- The methods of a name that a call on a type can mean.  Instance calls also
see the methods of interfaces. -/
def methodCandidates (context : TypeContext) (owner : SourceTy) (name : Name)
    (isInstance : Bool) : List Callee :=
  let chain := context.baseChain owner
  let types := if isInstance then context.withAncestors chain else chain
  dropHidden
    ((types.flatMap (context.ownMethods name)).filter fun callee =>
      callee.isInstance == isInstance)

/-- The constructors of a type; constructors are not inherited. -/
def ctorCandidates (context : TypeContext) (owner : SourceTy) : List Callee :=
  let signatures : List (List SourceTy) := match owner with
    | .declared name => (context.symbols.ctorsOf name).map fun (key, _) => key.params
    | owner => (context.image.ctorSigs owner).map MemberSig.params
  signatures.map fun params =>
    { owner, name := ctorName, isInstance := true, isVirtual := false, params,
      ret := .void }

/-! ## Choice -/

/-- Whether every argument can be assigned to its parameter. -/
def accepts (context : TypeContext) (params args : List SourceTy) : Bool :=
  (params.zip args).all fun (param, arg) => context.isAssignable arg param

/-- Why the only candidate of the right number of parameters is refused. -/
def rejection (context : TypeContext) (params args : List SourceTy) : Diagnostic :=
  match (params.zip args).find? fun (param, arg) =>
      !context.isAssignable arg param with
  | some (param, arg) => .typeMismatch .argument param arg
  | none => .internal "overload rejected without a mismatch"

/-- The candidate that a call means: the one whose parameters are exactly the
argument types, otherwise the only one that accepts them. -/
def select (context : TypeContext) (owner : SourceTy) (member : Name)
    (candidates : List Callee) (args : List SourceTy) :
    Except Diagnostic Callee :=
  match candidates with
  | [] =>
      .error (.memberNotFound owner (if member = ctorName then .ctor else .method)
        member)
  | first :: _ =>
      let fitting := candidates.filter fun callee =>
        callee.params.length == args.length
      if fitting.isEmpty then
        .error (.argCountMismatch (owner.text ++ "." ++ member)
          first.params.length args.length)
      else
        match fitting.filter fun callee => callee.params == args with
        | [callee] => .ok callee
        | _ :: _ :: rest =>
            .error (.ambiguousOverload owner member (rest.length + 2))
        | [] =>
            match fitting.filter fun callee => context.accepts callee.params args with
            | [callee] => .ok callee
            | _ :: _ :: rest =>
                .error (.ambiguousOverload owner member (rest.length + 2))
            | [] =>
                match fitting with
                | [callee] => .error (context.rejection callee.params args)
                | _ => .error (.memberNotFound owner .overload member)

end TypeContext

end ClassForge
