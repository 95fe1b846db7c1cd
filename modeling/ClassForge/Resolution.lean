import ClassForge.Diagnostic
import ClassForge.KeyTable

/-!
# Resolution

A resolution records the handle that the platform returned for each item that
has been built so far.  Reading an item before it has been built, building it
twice and finding a handle of the wrong kind are errors of the build.
-/

namespace ClassForge

/-- What an item was resolved to. -/
inductive Resolved where
  | type (handle : TypeHandle)
  | method (handle : MethodHandle)
  | ctor (handle : CtorHandle)
  | field (handle : FieldHandle)
  | property (handle : PropertyHandle)
  | completed (realized : RealizedType)
  deriving DecidableEq, Repr

/-- Description of a resolved item in messages about the build itself. -/
def Resolved.describe : Resolved → String
  | type handle => "Type(TypeHandle(" ++ toString handle.index ++ "))"
  | method handle => "Method(MethodHandle(" ++ toString handle.index ++ "))"
  | ctor handle => "Constructor(CtorHandle(" ++ toString handle.index ++ "))"
  | field handle => "Field(FieldHandle(" ++ toString handle.index ++ "))"
  | property handle => "Property(PropertyHandle(" ++ toString handle.index ++ "))"
  | completed realized =>
      "Completed(RealizedType \x7b handle: TypeHandle(" ++
        toString realized.handle.index ++ "), name: `" ++ realized.name ++
        "` \x7d)"

/-- Handles of the items built so far. -/
abbrev Resolution := KeyTable Resolved

namespace Resolution

/-- Record what an item was resolved to. -/
def insert (resolution : Resolution) (key : Key) (value : Resolved) :
    Except Diagnostic Resolution :=
  match resolution.insert? key value with
  | some resolution => .ok resolution
  | none => .error (.internal (key.text ++ " resolved twice"))

/-- Read an item back as a handle of the kind that `view` accepts. -/
def lookup {α : Type} (resolution : Resolution) (key : Key)
    (view : Resolved → Option α) : Except Diagnostic α :=
  match resolution.get? key with
  | none => .error (.unresolved key)
  | some resolved =>
      match view resolved with
      | some handle => .ok handle
      | none =>
          .error (.internal
            (key.text ++ " resolved to the wrong kind of handle: " ++
              resolved.describe))

/-- The type declared under a name. -/
def type (resolution : Resolution) (name : Name) : Except Diagnostic TypeHandle :=
  resolution.lookup (.type name) fun
    | .type handle => some handle
    | _ => none

/-- The method declared under a key. -/
def method (resolution : Resolution) (key : MethodKey) :
    Except Diagnostic MethodHandle :=
  resolution.lookup (.method key) fun
    | .method handle => some handle
    | _ => none

/-- The constructor declared under a key. -/
def ctor (resolution : Resolution) (key : CtorKey) :
    Except Diagnostic CtorHandle :=
  resolution.lookup (.ctor key) fun
    | .ctor handle => some handle
    | _ => none

/-- The field declared under a key. -/
def field (resolution : Resolution) (key : FieldKey) :
    Except Diagnostic FieldHandle :=
  resolution.lookup (.field key) fun
    | .field handle => some handle
    | _ => none

/-- The property declared under a key. -/
def property (resolution : Resolution) (key : PropertyKey) :
    Except Diagnostic PropertyHandle :=
  resolution.lookup (.property key) fun
    | .property handle => some handle
    | _ => none

/-- The type completed under a name. -/
def completed (resolution : Resolution) (name : Name) :
    Except Diagnostic RealizedType :=
  resolution.lookup (.completed name) fun
    | .completed realized => some realized
    | _ => none

/-- Read an item back as what the kind of its key stands for. -/
def read (resolution : Resolution) : Key → Except Diagnostic Resolved
  | .type name => .type <$> resolution.type name
  | .method key => .method <$> resolution.method key
  | .ctor key => .ctor <$> resolution.ctor key
  | .field key => .field <$> resolution.field key
  | .property key => .property <$> resolution.property key
  | .completed name => .completed <$> resolution.completed name

/-- Replace declared types by their handles. -/
def runTy (resolution : Resolution) (type : SourceTy) : Except Diagnostic RunTy :=
  type.resolve resolution.type

/-- Replace declared types by their handles throughout a list. -/
def runTys (resolution : Resolution) (types : List SourceTy) :
    Except Diagnostic (List RunTy) :=
  Ty.resolveList resolution.type types

end Resolution

end ClassForge
