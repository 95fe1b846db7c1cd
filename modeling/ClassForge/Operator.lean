/-!
# Operators

The unary and binary operators of expressions, the names that tools write them
with, and the symbols that messages use for them.
-/

namespace ClassForge

/-- Operators with two operands. -/
inductive BinaryOp where
  | add | sub | mul | div | rem
  | bitAnd | bitOr | bitXor | shl | shr
  | eq | ne | lt | le | gt | ge
  | pow | atan2 | min | max
  deriving DecidableEq, Repr

/-- Operators with one operand. -/
inductive UnaryOp where
  | neg | bitNot | not
  | abs | sqrt | sin | cos | tan | exp | log | floor | ceiling
  deriving DecidableEq, Repr

namespace BinaryOp

/-- The operators with the names that tools write them with. -/
def named : List (String × BinaryOp) :=
  [("add", add), ("sub", sub), ("mul", mul), ("div", div), ("rem", rem),
    ("and", bitAnd), ("or", bitOr), ("xor", bitXor), ("shl", shl), ("shr", shr),
    ("eq", eq), ("ne", ne), ("lt", lt), ("le", le), ("gt", gt), ("ge", ge),
    ("pow", pow), ("atan2", atan2), ("min", min), ("max", max)]

/-- The operator of a name. -/
def ofName? (name : String) : Option BinaryOp :=
  named.lookup name

/-- An operator as diagnostics print it. -/
def symbol : BinaryOp → String
  | add => "+"
  | sub => "-"
  | mul => "*"
  | div => "/"
  | rem => "%"
  | bitAnd => "&"
  | bitOr => "|"
  | bitXor => "^"
  | shl => "<<"
  | shr => ">>"
  | eq => "=="
  | ne => "!="
  | lt => "<"
  | le => "<="
  | gt => ">"
  | ge => ">="
  | pow => "pow"
  | atan2 => "atan2"
  | min => "min"
  | max => "max"

/-- Whether an operator compares. -/
def isComparison : BinaryOp → Bool
  | eq | ne | lt | le | gt | ge => true
  | _ => false

/-- Whether an operator shifts bits. -/
def isShift : BinaryOp → Bool
  | shl | shr => true
  | _ => false

end BinaryOp

namespace UnaryOp

/-- The operators with the names that tools write them with. -/
def named : List (String × UnaryOp) :=
  [("neg", neg), ("bitnot", bitNot), ("not", not), ("abs", abs), ("sqrt", sqrt),
    ("sin", sin), ("cos", cos), ("tan", tan), ("exp", exp), ("log", log),
    ("floor", floor), ("ceiling", ceiling)]

/-- The operator of a name. -/
def ofName? (name : String) : Option UnaryOp :=
  named.lookup name

/-- An operator as diagnostics print it. -/
def symbol : UnaryOp → String
  | neg => "-"
  | bitNot => "~"
  | not => "!"
  | abs => "abs"
  | sqrt => "sqrt"
  | sin => "sin"
  | cos => "cos"
  | tan => "tan"
  | exp => "exp"
  | log => "log"
  | floor => "floor"
  | ceiling => "ceiling"

end UnaryOp

end ClassForge
