import ClassForge.Prim

/-!
# Types

A type is one that the platform already has, an instantiation of a generic
definition, a type that is being declared, or an array.  Declared types are
named in two ways.  Before anything exists on the platform they are known by
name (`SourceTy`); once declared they are known by the handle that the platform
gave them.  `Ty` is therefore a family over the way declared types are named,
and resolving a type is a traversal that replaces names by handles.
-/

namespace ClassForge

/-- Identifiers, compared by content. -/
abbrev Name := String

/-- A type that exists on the platform before any compilation. -/
inductive Builtin where
  | void
  | object
  | string
  | prim (prim : Prim)
  | named (name : Name)
  deriving DecidableEq, Repr

namespace Builtin

/-- A built-in type as diagnostics print it. -/
def text : Builtin → String
  | void => "Void"
  | object => "Object"
  | string => "String"
  | prim p => p.name
  | named name => name

/-- Order of platform types: by kind, then by primitive type or by name. -/
def cmp : Builtin → Builtin → Ordering
  | prim left, prim right => compare left.rank right.rank
  | named left, named right => compare left right
  | left, right => compare (kind left) (kind right)
where
  kind : Builtin → Nat
    | void => 0
    | object => 1
    | string => 2
    | prim _ => 3
    | named _ => 4

end Builtin

/-! ## Names of the generic definitions and classes that the compiler relies on -/

namespace Platform

/-- Name of the type of all exceptions. -/
def exception : Name := "Exception"
/-- Name of the generic type of cells. -/
def cell : Name := "StrongBox"
/-- Name of the types of functions with a result. -/
def func : Name := "Func"
/-- Name of the types of functions without one. -/
def action : Name := "Action"
/-- Name of the class of the console. -/
def console : Name := "Console"
/-- Name of the class of the mathematical functions. -/
def math : Name := "Math"

end Platform

/-- A type whose declared types are named by values of `κ`. -/
inductive Ty (κ : Type) where
  | builtin (builtin : Builtin)
  | generic (definition : Name) (args : List (Ty κ))
  | declared (key : κ)
  | array (element : Ty κ)
  deriving Repr

/-- A type as a program mentions it: declared types go by name. -/
abbrev SourceTy := Ty Name

namespace Ty

variable {κ μ : Type}

instance : Inhabited (Ty κ) :=
  ⟨builtin .void⟩

/-! ## Equality -/

section Equality

variable [DecidableEq κ]

mutual

/-- Structural equality of types. -/
def decEq : (left right : Ty κ) → Decidable (left = right)
  | builtin left, builtin right =>
      if same : left = right then .isTrue (same ▸ rfl)
      else .isFalse fun equal => same (Ty.builtin.inj equal)
  | generic left leftArgs, generic right rightArgs =>
      if same : left = right then
        match decEqList leftArgs rightArgs with
        | .isTrue sameArgs => .isTrue (same ▸ sameArgs ▸ rfl)
        | .isFalse different =>
            .isFalse fun equal => different (Ty.generic.inj equal).2
      else .isFalse fun equal => same (Ty.generic.inj equal).1
  | declared left, declared right =>
      if same : left = right then .isTrue (same ▸ rfl)
      else .isFalse fun equal => same (Ty.declared.inj equal)
  | array left, array right =>
      match decEq left right with
      | .isTrue same => .isTrue (same ▸ rfl)
      | .isFalse different => .isFalse fun equal => different (Ty.array.inj equal)
  | builtin _, generic _ _ => .isFalse (by simp)
  | builtin _, declared _ => .isFalse (by simp)
  | builtin _, array _ => .isFalse (by simp)
  | generic _ _, builtin _ => .isFalse (by simp)
  | generic _ _, declared _ => .isFalse (by simp)
  | generic _ _, array _ => .isFalse (by simp)
  | declared _, builtin _ => .isFalse (by simp)
  | declared _, generic _ _ => .isFalse (by simp)
  | declared _, array _ => .isFalse (by simp)
  | array _, builtin _ => .isFalse (by simp)
  | array _, generic _ _ => .isFalse (by simp)
  | array _, declared _ => .isFalse (by simp)
termination_by structural left => left

/-- Structural equality of lists of types. -/
def decEqList : (left right : List (Ty κ)) → Decidable (left = right)
  | [], [] => .isTrue rfl
  | [], _ :: _ => .isFalse (by simp)
  | _ :: _, [] => .isFalse (by simp)
  | left :: lefts, right :: rights =>
      match decEq left right with
      | .isFalse different =>
          .isFalse fun equal => different (List.cons.inj equal).1
      | .isTrue same =>
          match decEqList lefts rights with
          | .isTrue sameTail => .isTrue (same ▸ sameTail ▸ rfl)
          | .isFalse different =>
              .isFalse fun equal => different (List.cons.inj equal).2
termination_by structural left => left

end

instance : DecidableEq (Ty κ) :=
  decEq

end Equality

/-! ## Common types -/

/-- The type of no value. -/
def void : Ty κ := builtin .void
/-- The type of all objects. -/
def object : Ty κ := builtin .object
/-- The type of strings. -/
def string : Ty κ := builtin .string
/-- A primitive type. -/
def prim (p : Prim) : Ty κ := builtin (.prim p)
/-- The type of truth values. -/
def bool : Ty κ := prim .bool
/-- The type of signed words of 32 bits. -/
def int32 : Ty κ := prim .int32
/-- The type of addresses. -/
def intPtr : Ty κ := prim .intPtr

/-- A platform class looked up by name. -/
def named (name : Name) : Ty κ := builtin (.named name)

/-- The root of the exception classes. -/
def exception : Ty κ := named Platform.exception

/-- The heap cell that holds a captured variable of type `content`. -/
def cell (content : Ty κ) : Ty κ := generic Platform.cell [content]

/-- The type of functions with a signature: functions without a result form the
`Action` family, the others the `Func` family with the result type last. -/
def delegate [DecidableEq κ] (params : List (Ty κ)) (ret : Ty κ) : Ty κ :=
  if ret = void then generic Platform.action params
  else generic Platform.func (params ++ [ret])

/-! ## Views -/

/-- Whether a type is that of no value. -/
def isVoid : Ty κ → Bool
  | builtin .void => true
  | _ => false

/-- Whether a type is that of all objects. -/
def isObject : Ty κ → Bool
  | builtin .object => true
  | _ => false

/-- Whether a type is one of arrays. -/
def isArray : Ty κ → Bool
  | array _ => true
  | _ => false

/-- The primitive type that a type is. -/
def prim? : Ty κ → Option Prim
  | builtin (.prim p) => some p
  | _ => none

/-- Whether a type is a given primitive one. -/
def isPrim (type : Ty κ) (p : Prim) : Bool :=
  type.prim? == some p

/-- The key of a declared type. -/
def declared? : Ty κ → Option κ
  | declared key => some key
  | _ => none

/-- The type of the elements of an array type. -/
def element? : Ty κ → Option (Ty κ)
  | array element => some element
  | _ => none

/-- The content type of a cell type. -/
def cellContent? : Ty κ → Option (Ty κ)
  | generic definition [content] =>
      if definition = Platform.cell then some content else none
  | _ => none

/-- Parameter and result types of a function type. -/
def signature? : Ty κ → Option (List (Ty κ) × Ty κ)
  | generic definition args =>
      if definition = Platform.func then
        args.getLast?.map fun ret => (args.dropLast, ret)
      else if definition = Platform.action then some (args, void)
      else none
  | _ => none

/-- Whether a type is one of functions. -/
def isDelegate (type : Ty κ) : Bool :=
  type.signature?.isSome

/-! ## Text -/

mutual

/-- Text of a type, given the text of declared types. -/
def text (keyText : κ → String) : Ty κ → String
  | builtin b => b.text
  | generic definition args =>
      definition ++ "<" ++ ", ".intercalate (texts keyText args) ++ ">"
  | declared key => keyText key
  | array element => text keyText element ++ "[]"
termination_by structural type => type

/-- Texts of a list of types. -/
def texts (keyText : κ → String) : List (Ty κ) → List String
  | [] => []
  | type :: types => text keyText type :: texts keyText types
termination_by structural types => types

end

/-! ## Declared types inside a type -/

mutual

/-- Every declared type that is mentioned, in order and with repetitions. -/
def mentions : Ty κ → List κ
  | builtin _ => []
  | generic _ args => mentionsList args
  | declared key => [key]
  | array element => mentions element
termination_by structural type => type

/-- Declared types mentioned in a list of types. -/
def mentionsList : List (Ty κ) → List κ
  | [] => []
  | type :: types => mentions type ++ mentionsList types
termination_by structural types => types

end

/-! ## Renaming declared types -/

mutual

/-- Replace the keys of declared types, failing at the first key that has no
replacement. -/
def resolve {ε : Type} (replace : κ → Except ε μ) : Ty κ → Except ε (Ty μ)
  | builtin b => .ok (builtin b)
  | generic definition args => do
      let args ← resolveList replace args
      return generic definition args
  | declared key => do
      let key ← replace key
      return declared key
  | array element => do
      let element ← resolve replace element
      return array element
termination_by structural type => type

/-- Replace the keys of declared types throughout a list of types. -/
def resolveList {ε : Type} (replace : κ → Except ε μ) :
    List (Ty κ) → Except ε (List (Ty μ))
  | [] => .ok []
  | type :: types => do
      let type ← resolve replace type
      let types ← resolveList replace types
      return type :: types
termination_by structural types => types

end

mutual

/-- Replace the keys of declared types. -/
def mapKeys (replace : κ → μ) : Ty κ → Ty μ
  | builtin b => builtin b
  | generic definition args => generic definition (mapKeysList replace args)
  | declared key => declared (replace key)
  | array element => array (mapKeys replace element)
termination_by structural type => type

/-- Replace the keys of declared types throughout a list of types. -/
def mapKeysList (replace : κ → μ) : List (Ty κ) → List (Ty μ)
  | [] => []
  | type :: types => mapKeys replace type :: mapKeysList replace types
termination_by structural types => types

end

/-! ## Order -/

/-- Position of the kind of a type in the order of types. -/
def kindRank : Ty κ → Nat
  | builtin _ => 0
  | generic _ _ => 1
  | declared _ => 2
  | array _ => 3

mutual

/-- Order of types: by kind, then by parts from left to right. -/
def cmp (cmpKey : κ → κ → Ordering) : Ty κ → Ty κ → Ordering
  | builtin left, builtin right => left.cmp right
  | generic left leftArgs, generic right rightArgs =>
      (compare left right).then (cmpList cmpKey leftArgs rightArgs)
  | declared left, declared right => cmpKey left right
  | array left, array right => cmp cmpKey left right
  | left, right => compare left.kindRank right.kindRank
termination_by structural left => left

/-- Lexicographic order of lists of types. -/
def cmpList (cmpKey : κ → κ → Ordering) :
    List (Ty κ) → List (Ty κ) → Ordering
  | [], [] => .eq
  | [], _ :: _ => .lt
  | _ :: _, [] => .gt
  | left :: lefts, right :: rights =>
      (cmp cmpKey left right).then (cmpList cmpKey lefts rights)
termination_by structural left => left

end

end Ty

namespace SourceTy

/-- Text of a type as messages write it. -/
def text (type : SourceTy) : String :=
  Ty.text id type

/-- Texts of types, separated by commas. -/
def listText (types : List SourceTy) : String :=
  ", ".intercalate (types.map text)

/-- The declared types that are mentioned, each once, by first occurrence. -/
def keys (type : SourceTy) : List Name :=
  type.mentions.eraseDups

/-- The order of types by name. -/
def cmp (left right : SourceTy) : Ordering :=
  Ty.cmp compare left right

/-- The order of lists of types by name. -/
def cmpList (left right : List SourceTy) : Ordering :=
  Ty.cmpList compare left right

end SourceTy

end ClassForge
