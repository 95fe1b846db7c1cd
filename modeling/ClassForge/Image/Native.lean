/-!
# Built-in members

Members of the platform library that the machine carries out by itself.
-/

namespace ClassForge

/-- How a console member turns its argument into text. -/
inductive Rendering where
  | plain
  | truth
  | character
  deriving DecidableEq, Repr

/-- Real functions of one argument. -/
inductive MathFunction where
  | sqrt | sin | cos | tan | exp | log | abs | floor | ceiling
  deriving DecidableEq, Repr

/-- Real functions of two arguments. -/
inductive MathFunction₂ where
  | pow | atan2 | min | max
  deriving DecidableEq, Repr

/-- A member without a code body.  The integer functions exist for 32 and for
64 bits. -/
inductive Native where
  | objectCtor
  | objectText
  | concat
  | textLength
  | write (rendering : Rendering) (newline : Bool)
  | writeEmptyLine
  | math (function : MathFunction)
  | math₂ (function : MathFunction₂)
  | intAbs (wide : Bool)
  | intMin (wide : Bool)
  | intMax (wide : Bool)
  | exceptionCtor
  | exceptionCtorMessage
  | exceptionMessage
  | cellCtor
  | cellCtorEmpty
  | delegateCtor
  | delegateInvoke
  deriving DecidableEq, Repr

end ClassForge
