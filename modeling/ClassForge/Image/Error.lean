import ClassForge.Handle

/-!
# What an image refuses

Reasons for which a code body cannot be finished, or for which an image turns
down a request to declare, define, complete or look up an item.
-/

namespace ClassForge

/-- The tables that a handle can point into. -/
inductive HandleKind where
  | type
  | field
  | method
  | ctor
  deriving DecidableEq, Repr

/-- Ways to misuse the calls that lay out exception blocks. -/
inductive BlockMisuse where
  | noOpenTry
  | catchAfterFinally
  | withoutHandlers
  | unterminated
  deriving DecidableEq, Repr

/-- Why a request was refused. -/
inductive ImageError where
  | unknownType (type : String)
  | unknownMember (owner member : String)
  | duplicateMember (owner member : String)
  | invalidHandle (kind : HandleKind) (index : Nat)
  | alreadySealed (type : String)
  | baseNotSealed (type base : String)
  | invalidBase (type : String)
  | missingBody (member : String)
  | abstractBody (member : String)
  | bodyAlreadyDefined (member : String)
  | unmarkedLabel (label : Nat)
  | labelMarkedTwice (label : Nat)
  | blockMisuse (misuse : BlockMisuse)
  | tooManyLocals
  deriving DecidableEq, Repr

/-- A kind of handle as errors print it. -/
def HandleKind.text : HandleKind → String
  | type => "type"
  | field => "field"
  | method => "method"
  | ctor => "constructor"

/-- A misuse of exception blocks as errors print it. -/
def BlockMisuse.text : BlockMisuse → String
  | noOpenTry => "no open try block"
  | catchAfterFinally => "catch after finally"
  | withoutHandlers => "try block without handlers"
  | unterminated => "unterminated try block"

/-- Name of the kind of refusal, under which tools sort refusals. -/
def ImageError.kind : ImageError → String
  | unknownType .. => "UnknownType"
  | unknownMember .. => "UnknownMember"
  | duplicateMember .. => "DuplicateMember"
  | invalidHandle .. => "InvalidHandle"
  | alreadySealed .. => "AlreadySealed"
  | baseNotSealed .. => "BaseNotSealed"
  | invalidBase .. => "InvalidBase"
  | missingBody .. => "MissingBody"
  | abstractBody .. => "AbstractBody"
  | bodyAlreadyDefined .. => "BodyAlreadyDefined"
  | unmarkedLabel .. => "UnmarkedLabel"
  | labelMarkedTwice .. => "LabelMarkedTwice"
  | blockMisuse .. => "ExceptionBlock"
  | tooManyLocals => "TooManyLocals"

/-- The message of a refusal. -/
def ImageError.message : ImageError → String
  | unknownType type => "unknown type `" ++ type ++ "`"
  | unknownMember owner member =>
      "`" ++ owner ++ "` has no member `" ++ member ++ "` with that signature"
  | duplicateMember owner member =>
      "`" ++ owner ++ "` already declares `" ++ member ++ "`"
  | invalidHandle kind index =>
      "invalid " ++ kind.text ++ " handle " ++ toString index
  | alreadySealed type => "type `" ++ type ++ "` is already sealed"
  | baseNotSealed type base =>
      "cannot seal `" ++ type ++ "` before its base type `" ++ base ++ "`"
  | invalidBase type => "`" ++ type ++ "` cannot be used as a base type"
  | missingBody member => "`" ++ member ++ "` has no body"
  | abstractBody member =>
      "abstract member `" ++ member ++ "` cannot have a body"
  | bodyAlreadyDefined member => "`" ++ member ++ "` already has a body"
  | unmarkedLabel label =>
      "label L" ++ toString label ++ " is used but never marked"
  | labelMarkedTwice label => "label L" ++ toString label ++ " is marked twice"
  | blockMisuse misuse => "exception block misuse: " ++ misuse.text
  | tooManyLocals => "too many locals in one method body"

end ClassForge
