import ClassForge.Image.Reflect
import ClassForge.Symbols

/-!
# Types in context

A program mentions types that its own module declares and types of the
platform.  A context answers questions about both: which types are copied, what
a type derives from, and which values can be assigned where.

A value of one type can be assigned to a variable of another when the types are
equal, when the variable holds any object and the value is a reference, or when
the second type is reached from the first through declared bases and interfaces.
Values of value types never convert on their own.
-/

namespace ClassForge

/-- The declarations of a module, and the platform underneath. -/
structure TypeContext where
  symbols : Symbols
  image : Image

/-- Whether values of a type are copied.  Declared types answer by their
attributes; platform classes answer through `platform`. -/
def Symbols.isValue (symbols : Symbols) (platform : Builtin → Bool) : SourceTy → Bool
  | .builtin (.prim _) => true
  | .builtin (.named name) => platform (.named name)
  | .builtin _ | .generic _ _ | .array _ => false
  | .declared name => (symbols.type? name).any fun decl => decl.attrs.isValueType

namespace TypeContext

/-- Whether values of a type are copied. -/
def isValue (context : TypeContext) (type : SourceTy) : Bool :=
  context.symbols.isValue context.image.isValueBuiltin type

/-- Whether values of a type are references. -/
def isReference (context : TypeContext) (type : SourceTy) : Bool :=
  !type.isVoid && !context.isValue type

/-- Attributes of a declared type. -/
def attrs? (context : TypeContext) (type : SourceTy) : Option TypeAttrs := do
  let name ← type.declared?
  let decl ← context.symbols.type? name
  return decl.attrs

/-! ## Direct supertypes -/

/-- The base of a type.  A declared class without one derives from `Object`,
and so does every array. -/
def base? (context : TypeContext) : SourceTy → Option SourceTy
  | .declared name => do
      let decl ← context.symbols.type? name
      if decl.attrs.isValueType || decl.attrs.isInterface then
        none
      else
        return decl.base.getD .object
  | .array _ => some .object
  | .builtin .object | .builtin .void => none
  | type => context.image.baseType? type

/-- The interfaces that a type lists. -/
def interfaces (context : TypeContext) : SourceTy → List SourceTy
  | .declared name => (context.symbols.type? name).elim [] TypeDecl.interfaces
  | .array _ => []
  | type => context.image.interfaceTypes type

/-- The base of a type, then its interfaces. -/
def supertypes (context : TypeContext) (type : SourceTy) : List SourceTy :=
  (context.base? type).toList ++ context.interfaces type

/-- Types among which every direct supertype is found. -/
def parents (context : TypeContext) : List SourceTy :=
  .object ::
    (context.symbols.entries.flatMap fun
      | (_, .type decl) => decl.base.toList ++ decl.interfaces
      | _ => []) ++
    (context.image.types.toList.filterMap fun info =>
      match info.origin with
      | .builtin builtin => some (.builtin builtin)
      | _ => none)

/-! ## Ancestors -/

/-- Extend a chain of types by the bases of its last member, at most `steps`
of them, stopping before a type comes up again. -/
def climb (context : TypeContext) :
    (steps : Nat) → (chain : List SourceTy) → (last : SourceTy) → List SourceTy
  | 0, chain, _ => chain
  | steps + 1, chain, last =>
      match context.base? last with
      | none => chain
      | some base =>
          if chain.contains base then chain
          else context.climb steps (chain ++ [base]) base

/-- A type followed by its bases, most derived first.  Bases are found among the
parents, so there are no more steps than parents. -/
def baseChain (context : TypeContext) (type : SourceTy) : List SourceTy :=
  context.climb context.parents.length [type] type

/-- Add to the types seen so far all that lies above a frontier, level by level
and each once, at most `steps` levels up. -/
def spread (context : TypeContext) :
    (steps : Nat) → (seen frontier : List SourceTy) → List SourceTy
  | 0, seen, _ => seen
  | steps + 1, seen, frontier =>
      let above := frontier.flatMap context.supertypes
      match (above.filter fun type => !seen.contains type).eraseDups with
      | [] => seen
      | fresh => context.spread steps (seen ++ fresh) fresh

/-- Every type that lies above some types, after those types themselves.  Each
level adds a new parent, so there are no more levels than parents. -/
def withAncestors (context : TypeContext) (types : List SourceTy) :
    List SourceTy :=
  context.spread (context.parents.length + 1) types types

/-- Every type that is reached from a type in one or more steps up. -/
def ancestors (context : TypeContext) (type : SourceTy) : List SourceTy :=
  context.spread (context.parents.length + 1) [] [type]

/-! ## Assignability -/

/-- Whether a value of one type can be stored in a variable of another. -/
def isAssignable (context : TypeContext) (source goal : SourceTy) : Bool :=
  source == goal ||
    (!context.isValue source && !source.isVoid &&
      (goal.isObject || (context.ancestors source).contains goal))

/-- Assignable one way or the other, as casts and type tests require. -/
def areRelated (context : TypeContext) (left right : SourceTy) : Bool :=
  context.isAssignable left right || context.isAssignable right left

end TypeContext

end ClassForge
