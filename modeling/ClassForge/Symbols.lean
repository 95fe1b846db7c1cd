import ClassForge.Attributes
import ClassForge.Diagnostic
import ClassForge.KeyTable

/-!
# Symbols

The declared shapes of the types and members of a module.  Checking an
expression needs the signatures of members that do not exist on the platform
yet, or that are declared further down, so every declaration is recorded before
any expression is looked at.
-/

namespace ClassForge

/-- Declared shape of a type. -/
structure TypeDecl where
  attrs : TypeAttrs
  /-- Absent when the type has the default base. -/
  base : Option SourceTy := none
  interfaces : List SourceTy := []
  deriving DecidableEq

/-- Declared signature of a method, apart from what its key says. -/
structure MethodDecl where
  attrs : MethodAttrs
  ret : SourceTy
  deriving DecidableEq

/-- Declared shape of a constructor, apart from what its key says. -/
structure CtorDecl where
  attrs : MethodAttrs
  deriving DecidableEq

/-- Declared shape of a field. -/
structure FieldDecl where
  attrs : FieldAttrs
  type : SourceTy
  deriving DecidableEq

/-- Declared shape of a property. -/
structure PropertyDecl where
  isStatic : Bool
  type : SourceTy
  hasGetter : Bool
  hasSetter : Bool
  deriving DecidableEq

/-- What is recorded under a key. -/
inductive Declaration where
  | type (decl : TypeDecl)
  | method (decl : MethodDecl)
  | ctor (decl : CtorDecl)
  | field (decl : FieldDecl)
  | property (decl : PropertyDecl)
  deriving DecidableEq

/-- The declarations of a module, in order. -/
abbrev Symbols := KeyTable Declaration

namespace Symbols

/-- Record a declaration; a key is declared at most once. -/
def declare (symbols : Symbols) (key : Key) (decl : Declaration) :
    Except Diagnostic Symbols :=
  match symbols.insert? key decl with
  | some symbols => .ok symbols
  | none => .error (.duplicateDeclaration key)

/-- The type declared under a name. -/
def type? (symbols : Symbols) (name : Name) : Option TypeDecl :=
  match symbols.get? (.type name) with
  | some (.type decl) => some decl
  | _ => none

/-- The method declared under a key. -/
def method? (symbols : Symbols) (key : MethodKey) : Option MethodDecl :=
  match symbols.get? (.method key) with
  | some (.method decl) => some decl
  | _ => none

/-- The constructor declared under a key. -/
def ctor? (symbols : Symbols) (key : CtorKey) : Option CtorDecl :=
  match symbols.get? (.ctor key) with
  | some (.ctor decl) => some decl
  | _ => none

/-- Methods of a name that a type itself declares. -/
def methodsNamed (symbols : Symbols) (owner name : Name) :
    List (MethodKey × MethodDecl) :=
  symbols.entries.filterMap fun
    | (.method key, .method decl) =>
        if key.owner = owner ∧ key.name = name then some (key, decl) else none
    | _ => none

/-- Constructors that a type declares. -/
def ctorsOf (symbols : Symbols) (owner : Name) : List (CtorKey × CtorDecl) :=
  symbols.entries.filterMap fun
    | (.ctor key, .ctor decl) => if key.owner = owner then some (key, decl) else none
    | _ => none

/-- The field of a name that a type itself declares. -/
def fieldNamed? (symbols : Symbols) (owner name : Name) :
    Option (FieldKey × FieldDecl) :=
  symbols.entries.findSome? fun
    | (.field key, .field decl) =>
        if key.owner = owner ∧ key.name = name then some (key, decl) else none
    | _ => none

/-- The property of a name that a type itself declares. -/
def propertyNamed? (symbols : Symbols) (owner name : Name) :
    Option (PropertyKey × PropertyDecl) :=
  symbols.entries.findSome? fun
    | (.property key, .property decl) =>
        if key.owner = owner ∧ key.name = name then some (key, decl) else none
    | _ => none

/-- Names of the declared types, in order. -/
def typeNames (symbols : Symbols) : List Name :=
  symbols.entries.filterMap fun
    | (.type name, _) => some name
    | _ => none

end Symbols

end ClassForge
