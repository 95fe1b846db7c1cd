import ClassForge.Ty

/-!
# Keys

A key identifies an item of a module under compilation by what a program can
say about it: its owner, its name and its signature.  Keys are plain values, so
a call can refer to a method before anything has been declared on the platform.
A type has two keys, one for the declared type and one for the completed type
that exists once every member is in place.
-/

namespace ClassForge

/-- Identity of a method of a declared type. -/
structure MethodKey where
  owner : Name
  name : Name
  isInstance : Bool
  params : List SourceTy
  deriving DecidableEq, Repr

/-- Identity of a constructor of a declared type. -/
structure CtorKey where
  owner : Name
  params : List SourceTy
  deriving DecidableEq, Repr

/-- Identity of a field of a declared type. -/
structure FieldKey where
  owner : Name
  name : Name
  type : SourceTy
  deriving DecidableEq, Repr

/-- Identity of a property of a declared type. -/
structure PropertyKey where
  owner : Name
  name : Name
  type : SourceTy
  indexParams : List SourceTy := []
  deriving DecidableEq, Repr

/-- Any item that a build step consumes or produces. -/
inductive Key where
  | type (name : Name)
  | method (key : MethodKey)
  | ctor (key : CtorKey)
  | field (key : FieldKey)
  | property (key : PropertyKey)
  | completed (name : Name)
  deriving DecidableEq, Repr

/-- Name of the method that reads a property. -/
def getterName (property : Name) : Name :=
  "get_" ++ property

/-- Name of the method that writes a property. -/
def setterName (property : Name) : Name :=
  "set_" ++ property

namespace PropertyKey

/-- Key of the method that reads the property. -/
def getter (key : PropertyKey) (isInstance : Bool) : MethodKey where
  owner := key.owner
  name := getterName key.name
  isInstance := isInstance
  params := key.indexParams

/-- Key of the method that writes the property. -/
def setter (key : PropertyKey) (isInstance : Bool) : MethodKey where
  owner := key.owner
  name := setterName key.name
  isInstance := isInstance
  params := key.indexParams ++ [key.type]

end PropertyKey

/-! ## Texts -/

/-- A method as diagnostics print it. -/
def MethodKey.text (key : MethodKey) : String :=
  (if key.isInstance then "method " else "static method ") ++
    key.owner ++ "." ++ key.name ++ "(" ++ SourceTy.listText key.params ++ ")"

/-- A constructor as diagnostics print it. -/
def CtorKey.text (key : CtorKey) : String :=
  "constructor " ++ key.owner ++ "(" ++ SourceTy.listText key.params ++ ")"

/-- A field as diagnostics print it. -/
def FieldKey.text (key : FieldKey) : String :=
  "field " ++ key.owner ++ "." ++ key.name ++ ": " ++ key.type.text

/-- A property as diagnostics print it. -/
def PropertyKey.text (key : PropertyKey) : String :=
  "property " ++ key.owner ++ "." ++ key.name ++
    (if key.indexParams.isEmpty then ""
      else "[" ++ SourceTy.listText key.indexParams ++ "]") ++
    ": " ++ key.type.text

/-! ## Orders -/

/-- The order of methods. -/
def MethodKey.cmp (left right : MethodKey) : Ordering :=
  (compare left.owner right.owner)
    |>.then (compare left.name right.name)
    |>.then (compare left.isInstance right.isInstance)
    |>.then (SourceTy.cmpList left.params right.params)

/-- The order of constructors. -/
def CtorKey.cmp (left right : CtorKey) : Ordering :=
  (compare left.owner right.owner)
    |>.then (SourceTy.cmpList left.params right.params)

/-- The order of fields. -/
def FieldKey.cmp (left right : FieldKey) : Ordering :=
  (compare left.owner right.owner)
    |>.then (compare left.name right.name)
    |>.then (left.type.cmp right.type)

/-- The order of properties. -/
def PropertyKey.cmp (left right : PropertyKey) : Ordering :=
  (compare left.owner right.owner)
    |>.then (compare left.name right.name)
    |>.then (left.type.cmp right.type)
    |>.then (SourceTy.cmpList left.indexParams right.indexParams)

namespace Key

/-- The declared type that an item belongs to. -/
def owner : Key → Name
  | type name => name
  | method key => key.owner
  | ctor key => key.owner
  | field key => key.owner
  | property key => key.owner
  | completed name => name

/-- Whether the item is a member of a type rather than a type. -/
def isMember : Key → Bool
  | type _ | completed _ => false
  | _ => true

/-- Text of a key as messages and step labels write it. -/
def text : Key → String
  | type name => "type " ++ name
  | method key => key.text
  | ctor key => key.text
  | field key => key.text
  | property key => key.text
  | completed name => "completed type " ++ name

/-- Position of the kind of a key in the order of keys. -/
def kindRank : Key → Nat
  | type _ => 0
  | method _ => 1
  | ctor _ => 2
  | field _ => 3
  | property _ => 4
  | completed _ => 5

/-- Order of keys: by kind, then by parts from left to right. -/
def cmp : Key → Key → Ordering
  | type left, type right => compare left right
  | method left, method right => left.cmp right
  | ctor left, ctor right => left.cmp right
  | field left, field right => left.cmp right
  | property left, property right => left.cmp right
  | completed left, completed right => compare left right
  | left, right => compare left.kindRank right.kindRank

end Key

/-- Keys of the declared types mentioned in some types, each once, in the order
of first occurrence. -/
def typeKeys (types : List SourceTy) : List Key :=
  ((types.flatMap fun type => type.mentions).eraseDups).map Key.type

end ClassForge
