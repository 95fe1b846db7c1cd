import ClassForge.Image.Error
import ClassForge.Machine.Arith

/-!
# What goes wrong at run time

A run can end in an exception that no handler catches, or in an error of the
machine, which no handler ever sees.
-/

namespace ClassForge

/-- Ways in which code can be malformed. -/
inductive Malformation where
  | stackUnderflow
  | unmarkedLabel (label : Nat)
  | pastEnd
  | argumentIndex
  | localIndex
  | staticStorage
  | switchSelector
  | endFinallyOutside
  | callWithoutReceiver
  | elementAddress
  | fillValue
  | fieldSlot
  | fieldOfNonObject
  | nonArray
  | arrayLength
  | arrayIndex
  | elementRead
  | elementStore
  | nonAddress
  | byteCount
  | missingArgument
  | floatArgument
  | integerArgument
  | cellCtor
  | delegateWithoutMethod
  | delegateCtor
  | unknownException (name : Name)
  | operands (op : String) (left right : Value)
  | operand (op : String) (value : Value)
  | conversion (value : Value)
  | notOfPrim (value : Value) (prim : Prim)
  deriving DecidableEq

/-- Kinds of members that a host looks up by name. -/
inductive HostMember where
  | ctor
  | staticMethod
  | instanceMethod
  deriving DecidableEq, Repr

/-- Why a call from outside failed. -/
inductive RunError where
  /-- An exception that no handler caught. -/
  | unhandled (type message : String)
  | stackOverflow (limit : Nat)
  | noSuchMember (owner : String) (kind : HostMember) (name : Name)
  | notSealed (type : Name)
  | noBody (member : String)
  | invalidProgram (cause : Malformation)
  | image (error : ImageError)
  deriving DecidableEq

/-- How the execution of an instruction breaks off. -/
inductive Trap where
  /-- With an exception, which handlers may catch. -/
  | throw (exception : Value)
  | fatal (error : RunError)
  deriving DecidableEq

/-- What is wrong with a program, as errors print it. -/
def Malformation.text : Malformation → String
  | stackUnderflow => "evaluation stack underflow"
  | unmarkedLabel label => "unmarked label " ++ toString label
  | pastEnd => "execution ran past the end of the body"
  | argumentIndex => "argument index out of range"
  | localIndex => "local index out of range"
  | staticStorage => "static field has no storage"
  | switchSelector => "switch selector is not an int32"
  | endFinallyOutside => "endfinally outside a finally handler"
  | callWithoutReceiver => "virtual call without a receiver"
  | elementAddress => "ldelema on a non-primitive array"
  | fillValue => "initblk value is not an int32"
  | fieldSlot => "field slot out of range"
  | fieldOfNonObject => "field access on a non-object"
  | nonArray => "array operation on a non-array"
  | arrayLength => "array length is not an integer"
  | arrayIndex => "array index is not an integer"
  | elementRead => "element read out of range"
  | elementStore => "element store of the wrong type"
  | nonAddress => "raw memory access through a non-address"
  | byteCount => "byte count is not an int32"
  | missingArgument => "native call is missing an argument"
  | floatArgument => "expected a float argument"
  | integerArgument => "expected an integer argument"
  | cellCtor => "StrongBox constructor on a non-box"
  | delegateWithoutMethod => "delegate constructed without a function pointer"
  | delegateCtor => "delegate constructor on a non-object"
  | unknownException name => "unknown exception type `" ++ name ++ "`"
  | operands op left right =>
      "`" ++ op ++ "` on " ++ left.describe ++ " and " ++ right.describe
  | operand op value => "`" ++ op ++ "` on " ++ value.describe
  | conversion value => "conversion of " ++ value.describe
  | notOfPrim value prim => value.describe ++ " is not a " ++ prim.name

/-- A kind of member as errors print it. -/
def HostMember.text : HostMember → String
  | ctor => "constructor"
  | staticMethod => "static method"
  | instanceMethod => "instance method"

/-- Name of the kind of error, under which tools sort errors. -/
def RunError.kind : RunError → String
  | unhandled .. => "Unhandled"
  | stackOverflow .. => "StackOverflow"
  | noSuchMember .. => "NoSuchMember"
  | notSealed .. => "NotSealed"
  | noBody .. => "NoBody"
  | invalidProgram .. => "InvalidProgram"
  | image .. => "Target"

/-- The message of an error. -/
def RunError.message : RunError → String
  | unhandled type text => "unhandled " ++ type ++ ": " ++ text
  | stackOverflow limit =>
      "call depth exceeded " ++ toString limit ++ " frames"
  | noSuchMember owner kind name =>
      "no " ++ kind.text ++ " `" ++ name ++ "` on `" ++ owner ++
        "` accepts those arguments"
  | notSealed type => "type `" ++ type ++ "` is not sealed"
  | noBody member => "`" ++ member ++ "` has no executable body"
  | invalidProgram cause => "invalid program: " ++ cause.text
  | image error => error.message

end ClassForge
