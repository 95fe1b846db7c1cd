import ClassForge.Image.Error
import ClassForge.Key

/-!
# Diagnostics

Every reason for which a compilation fails.  The first one ends the
compilation.  A diagnostic is a cause with the items it concerns; its wording is
in `Diagnostic.message`.
-/

namespace ClassForge

/-- Broad classes of diagnostics. -/
inductive Category where
  | declaration
  | type
  | resolution
  | scheduling
  | internal
  | target
  deriving DecidableEq, Repr

/-- Rules that a declaration can break. -/
inductive DeclarationRule where
  | valueTypeInterface
  | noBaseAllowed
  | derivesFromItself
  | interfaceState
  | interfaceMethodBody
  | missingBody
  | abstractWithBody
  | abstractInConcrete
  | staticVirtual
  | propertyWithoutAccessor
  | voidProperty
  | sharedNodeId
  | valueTypeBaseArgs
  | abstractInstance
  | tryWithoutHandler
  deriving DecidableEq, Repr

/-- Places where a value of one type meets a type that is required. -/
inductive Site where
  | returnValue
  | assignment
  | logicalOperand
  | ifCondition
  | elseBranch
  | ifWithoutElse
  | whileCondition
  | switchArm
  | letrecInitializer
  | loopInitializer
  | loopBody
  | delegateArgument
  | argument
  | arrayLength
  | arrayIndex
  | arrayElement
  | fieldAssignment
  | propertyAssignment
  | unboxOperand
  | catchClause
  deriving DecidableEq, Repr

/-- Constructs that need a value type or a reference type. -/
inductive Construct where
  | memberAccess
  | nullLiteral
  | box
  | unbox
  | cast
  | typeTest
  | nullTest
  deriving DecidableEq, Repr

/-- Operands of the raw memory operations. -/
inductive MemoryOperand where
  | peek
  | poke
  | memCopy
  | memCopyCount
  | memFill
  | memFillValue
  | memFillCount
  deriving DecidableEq, Repr

/-- What was looked for on a type. -/
inductive MemberKind where
  | field
  | staticField
  | instanceField
  | property
  | readableProperty
  | writableProperty
  | method
  | ctor
  | overload
  deriving DecidableEq, Repr

/-- Why a compilation failed. -/
inductive Diagnostic where
  | duplicateDeclaration (key : Key)
  | duplicateOutput (key : Key) (first second : String)
  | invalidDeclaration (item : String) (rule : DeclarationRule)
  | typeMismatch (site : Site) (expected found : SourceTy)
  | argCountMismatch (callee : String) (expected found : Nat)
  | unsupportedOperator (op : String) (operands : List SourceTy)
  | unboundVariable (name : Name)
  | notADelegate (type : SourceTy)
  | notAnArray (type : SourceTy)
  | notAValueType (construct : Construct) (type : SourceTy)
  | notAReferenceType (construct : Construct) (type : SourceTy)
  | notAssignable (source goal : SourceTy)
  | invalidPinTarget (type : SourceTy)
  | invalidMemoryOperand (operand : MemoryOperand) (type : SourceTy)
  | duplicateSwitchLabel (label : Nat)
  | switchTableTooLarge (entries : Nat)
  | invalidSwitchSelector (type : SourceTy)
  | memberNotFound (owner : SourceTy) (kind : MemberKind) (member : String)
  | ambiguousOverload (owner : SourceTy) (member : String) (candidates : Nat)
  | unproducible (key : Key) (step : String)
  | unresolved (key : Key)
  | cycle (phase : Nat) (steps : List String)
  | missingOutput (step : String) (key : Key)
  | internal (message : String)
  | target (error : ImageError)
  deriving DecidableEq

/-- A category as diagnostics print it. -/
def Category.text : Category → String
  | declaration => "Declaration"
  | type => "Type"
  | resolution => "Resolution"
  | scheduling => "Scheduling"
  | internal => "Internal"
  | target => "Target"

/-- What a rule of declarations says. -/
def DeclarationRule.text : DeclarationRule → String
  | valueTypeInterface => "a value type cannot be an interface"
  | noBaseAllowed => "value types and interfaces have no base type"
  | derivesFromItself => "a type cannot derive from itself"
  | interfaceState => "interfaces declare only methods"
  | interfaceMethodBody => "interface methods are abstract instance methods"
  | missingBody => "only abstract methods may omit a body"
  | abstractWithBody => "abstract methods have no body"
  | abstractInConcrete => "abstract methods need an abstract type"
  | staticVirtual => "static methods cannot be virtual"
  | propertyWithoutAccessor => "needs a getter or a setter"
  | voidProperty => "properties cannot be void"
  | sharedNodeId =>
      "node id is shared by more than one lambda, loop, try or pin block"
  | valueTypeBaseArgs => "value types have no base constructor"
  | abstractInstance => "abstract types cannot be instantiated"
  | tryWithoutHandler => "needs a catch or finally clause"

/-- A place of a value as diagnostics print it. -/
def Site.text : Site → String
  | returnValue => "return value"
  | assignment => "assignment"
  | logicalOperand => "logical operand"
  | ifCondition => "if condition"
  | elseBranch => "else branch"
  | ifWithoutElse => "if without else"
  | whileCondition => "while condition"
  | switchArm => "switch arm"
  | letrecInitializer => "letrec initializer"
  | loopInitializer => "loop initializer"
  | loopBody => "loop body"
  | delegateArgument => "delegate argument"
  | argument => "argument"
  | arrayLength => "array length"
  | arrayIndex => "array index"
  | arrayElement => "array element"
  | fieldAssignment => "field assignment"
  | propertyAssignment => "property assignment"
  | unboxOperand => "unbox operand"
  | catchClause => "catch clause"

/-- A construct as diagnostics print it. -/
def Construct.text : Construct → String
  | memberAccess => "member access"
  | nullLiteral => "null literal"
  | box => "box"
  | unbox => "unbox"
  | cast => "cast"
  | typeTest => "type test"
  | nullTest => "null test"

/-- A memory operation as diagnostics print it. -/
def MemoryOperand.text : MemoryOperand → String
  | peek => "peek"
  | poke => "poke"
  | memCopy => "mem-copy"
  | memCopyCount => "mem-copy count"
  | memFill => "mem-fill"
  | memFillValue => "mem-fill value"
  | memFillCount => "mem-fill count"

/-- A kind of member as diagnostics print it. -/
def MemberKind.text : MemberKind → String
  | field => "field"
  | staticField => "static field"
  | instanceField => "instance field"
  | property => "property"
  | readableProperty => "readable property"
  | writableProperty => "writable property"
  | method => "method"
  | ctor => "constructor"
  | overload => "overload for these arguments of"

/-- A text between backquotes. -/
def quoteName (text : String) : String :=
  "`" ++ text ++ "`"

namespace Diagnostic

/-- The message of a diagnostic. -/
def message : Diagnostic → String
  | duplicateDeclaration key => "duplicate declaration of " ++ key.text
  | duplicateOutput key first second =>
      key.text ++ " is produced by both " ++ quoteName first ++ " and " ++
        quoteName second
  | invalidDeclaration item rule =>
      "invalid declaration of " ++ item ++ ": " ++ rule.text
  | typeMismatch site expected found =>
      "type mismatch in " ++ site.text ++ ": expected " ++
        quoteName expected.text ++ ", found " ++ quoteName found.text
  | argCountMismatch callee expected found =>
      "wrong number of arguments to " ++ callee ++ ": expected " ++
        toString expected ++ ", found " ++ toString found
  | unsupportedOperator op operands =>
      "operator " ++ quoteName op ++ " is not defined for " ++
        " and ".intercalate (operands.map fun type => quoteName type.text)
  | unboundVariable name => "unbound variable " ++ quoteName name
  | notADelegate type => quoteName type.text ++ " is not a delegate type"
  | notAnArray type => quoteName type.text ++ " is not an array type"
  | notAValueType construct type =>
      construct.text ++ " requires a value type, found " ++ quoteName type.text
  | notAReferenceType construct type =>
      construct.text ++ " requires a reference type, found " ++
        quoteName type.text
  | notAssignable source goal =>
      quoteName source.text ++ " and " ++ quoteName goal.text ++
        " are not related by assignment"
  | invalidPinTarget type =>
      "cannot pin " ++ quoteName type.text ++
        ": only arrays of numeric or pointer-sized primitives can be pinned"
  | invalidMemoryOperand operand type =>
      operand.text ++ " cannot operate on " ++ quoteName type.text
  | duplicateSwitchLabel label =>
      "switch label " ++ toString label ++ " appears in more than one arm"
  | switchTableTooLarge entries =>
      "switch jump table needs " ++ toString entries ++
        " entries; the limit is 256"
  | invalidSwitchSelector type =>
      "switch selector must be an integer of at most 32 bits, found " ++
        quoteName type.text
  | memberNotFound owner kind member =>
      quoteName owner.text ++ " has no " ++ kind.text ++ " " ++ quoteName member
  | ambiguousOverload owner member candidates =>
      "call to " ++ quoteName (owner.text ++ "." ++ member) ++
        " is ambiguous between " ++ toString candidates ++ " overloads"
  | unproducible key step =>
      "don't know how to make " ++ key.text ++ " (needed by " ++
        quoteName step ++ ")"
  | unresolved key => key.text ++ " was used before the step producing it ran"
  | cycle phase steps =>
      "dependency cycle among phase " ++ toString phase ++ " steps: " ++
        ", ".intercalate steps
  | missingOutput step key =>
      "step " ++ quoteName step ++ " finished without producing " ++ key.text
  | internal text => "internal compiler error: " ++ text
  | target error => "target module: " ++ error.message

/-- Name of the kind of diagnostic, under which tools sort diagnostics. -/
def kind : Diagnostic → String
  | duplicateDeclaration .. => "DuplicateDeclaration"
  | duplicateOutput .. => "DuplicateOutput"
  | invalidDeclaration .. => "InvalidDeclaration"
  | typeMismatch .. => "TypeMismatch"
  | argCountMismatch .. => "ArgCountMismatch"
  | unsupportedOperator .. => "UnsupportedOperator"
  | unboundVariable .. => "UnboundVariable"
  | notADelegate .. => "NotADelegate"
  | notAnArray .. => "NotAnArray"
  | notAValueType .. => "NotAValueType"
  | notAReferenceType .. => "NotAReferenceType"
  | notAssignable .. => "NotAssignable"
  | invalidPinTarget .. => "InvalidPinTarget"
  | invalidMemoryOperand .. => "InvalidMemoryOperand"
  | duplicateSwitchLabel .. => "DuplicateSwitchLabel"
  | switchTableTooLarge .. => "SwitchTableTooLarge"
  | invalidSwitchSelector .. => "InvalidSwitchSelector"
  | memberNotFound .. => "MemberNotFound"
  | ambiguousOverload .. => "AmbiguousOverload"
  | unproducible .. => "Unproducible"
  | unresolved .. => "Unresolved"
  | cycle .. => "Cycle"
  | missingOutput .. => "MissingOutput"
  | internal .. => "Internal"
  | target .. => "Target"

/-- The class that a diagnostic belongs to. -/
def category : Diagnostic → Category
  | duplicateDeclaration .. | duplicateOutput .. | invalidDeclaration .. =>
      .declaration
  | typeMismatch .. | argCountMismatch .. | unsupportedOperator ..
  | unboundVariable .. | notADelegate .. | notAnArray .. | notAValueType ..
  | notAReferenceType .. | notAssignable .. | invalidPinTarget ..
  | invalidMemoryOperand .. | duplicateSwitchLabel .. | switchTableTooLarge ..
  | invalidSwitchSelector .. | memberNotFound .. | ambiguousOverload .. => .type
  | unproducible .. | unresolved .. => .resolution
  | cycle .. | missingOutput .. => .scheduling
  | internal .. => .internal
  | target .. => .target

end Diagnostic

end ClassForge
