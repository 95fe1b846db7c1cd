import ClassForge.Literal
import ClassForge.Operator

/-!
# Expressions

The expressions that method bodies are made of.  Most kinds of node evaluate a
fixed number of operands and then act on their values; they are grouped by that
number (`UnaryForm`, `BinaryForm`, `TernaryForm`), so that an analysis which
only looks at the operands treats each group at once.  The other constructors
are the forms that bind names, that choose what to evaluate, or that take any
number of arguments.

Lambdas, named loops, `try` and `pin` blocks are *boundaries*: the code inside
is moved into a member of its own.  Each carries a number from which the name
of that member is made.
-/

namespace ClassForge

/-- Number of a boundary within a module. -/
abbrev NodeId := Nat

/-- A typed name: a parameter, a loop variable, a recursive binding or the
exception of a `catch`. -/
structure Param where
  name : Name
  type : SourceTy
  deriving DecidableEq, Repr

/-- Nodes that act on the value of one operand. -/
inductive UnaryForm where
  | op (op : UnaryOp)
  /-- Numeric conversion; a checked one raises an exception on overflow. -/
  | convert (target : Prim) (checked : Bool)
  | newArray (element : SourceTy)
  | arrayLength
  /-- Read a primitive at a raw address. -/
  | peek (prim : Prim)
  | field (name : Name)
  | setStaticField (owner : SourceTy) (name : Name)
  | property (name : Name)
  | setStaticProperty (owner : SourceTy) (name : Name)
  | box
  | unbox (type : SourceTy)
  | cast (type : SourceTy)
  | isInstance (type : SourceTy)
  | isNull
  /-- Raise an exception; the type is the one that the expression claims. -/
  | throw (type : SourceTy)
  deriving DecidableEq, Repr

/-- Nodes that act on the values of two operands. -/
inductive BinaryForm where
  | op (op : BinaryOp)
  | arrayRef
  /-- Write a primitive at a raw address. -/
  | poke
  | setField (name : Name)
  | setProperty (name : Name)
  deriving DecidableEq, Repr

/-- Nodes that act on the values of three operands. -/
inductive TernaryForm where
  | arraySet
  /-- Destination, source and number of bytes. -/
  | memCopy
  /-- Destination, byte and number of bytes. -/
  | memFill
  deriving DecidableEq, Repr

/-- The two short-circuit connectives. -/
inductive Connective where
  | and
  | or
  deriving DecidableEq, Repr

/-- An expression. -/
inductive Expr where
  | literal (value : Literal)
  | var (name : Name)
  | set (name : Name) (value : Expr)
  /-- Evaluate in order; the value is that of the last. -/
  | seq (items : List Expr)
  | logic (connective : Connective) (items : List Expr)
  /-- A conditional without an alternative. -/
  | when (test body : Expr)
  | cond (test yes no : Expr)
  | while (test body : Expr)
  | switch (selector : Expr) (arms : List (List UInt32 × Expr)) (default : Expr)
  /-- Every initializer sees the outer scope. -/
  | letPar (clauses : List (Name × Expr)) (body : Expr)
  /-- Each initializer sees the names bound before it. -/
  | letSeq (clauses : List (Name × Expr)) (body : Expr)
  /-- Every initializer sees every name. -/
  | letRec (clauses : List (Param × Expr)) (body : Expr)
  /-- A function of the loop variables, bound to `name` in its own body and
  called once with the initial values. -/
  | loop (id : NodeId) (name : Name) (vars : List (Param × Expr))
      (ret : SourceTy) (body : Expr)
  | lambda (id : NodeId) (params : List Param) (body : Expr)
  /-- Call a function value. -/
  | invoke (function : Expr) (args : List Expr)
  | unary (form : UnaryForm) (operand : Expr)
  | binary (form : BinaryForm) (left right : Expr)
  | ternary (form : TernaryForm) (first second third : Expr)
  | staticField (owner : SourceTy) (name : Name)
  | staticProperty (owner : SourceTy) (name : Name)
  | staticCall (owner : SourceTy) (name : Name) (args : List Expr)
  | call (receiver : Expr) (name : Name) (args : List Expr)
  | new (type : SourceTy) (args : List Expr)
  | tryCatch (id : NodeId) (body : Expr) (catches : List (Param × Expr))
  | tryFinally (id : NodeId) (body : Expr) (catches : List (Param × Expr))
      (final : Expr)
  /-- Bind pointers to the first elements of arrays that stay in place while
  the body runs. -/
  | pin (id : NodeId) (arrays : List (Name × Expr)) (body : Expr)

/-- Name under which an instance member sees its receiver. -/
def thisName : Name := "this"

/-- Name under which the setter of a property sees the assigned value. -/
def setterValueName : Name := "value"

namespace UnaryForm

/-- Short name of the kind of node. -/
def kind : UnaryForm → String
  | op _ => "unary"
  | convert _ _ => "convert"
  | newArray _ => "new-array"
  | arrayLength => "array-length"
  | peek _ => "peek"
  | field _ => "field-ref"
  | setStaticField _ _ => "field-set"
  | property _ => "property-ref"
  | setStaticProperty _ _ => "property-set"
  | box => "box"
  | unbox _ => "unbox"
  | cast _ => "cast"
  | isInstance _ => "is-instance"
  | isNull => "is-null"
  | throw _ => "throw"

end UnaryForm

namespace BinaryForm

/-- Short name of the kind of node. -/
def kind : BinaryForm → String
  | op _ => "binary"
  | arrayRef => "array-ref"
  | poke => "poke"
  | setField _ => "field-set"
  | setProperty _ => "property-set"

end BinaryForm

namespace TernaryForm

/-- Short name of the kind of node. -/
def kind : TernaryForm → String
  | arraySet => "array-set"
  | memCopy => "mem-copy"
  | memFill => "mem-fill"

end TernaryForm

namespace Expr

/-- Short name of the kind of node. -/
def kind : Expr → String
  | literal _ => "literal"
  | var _ => "var"
  | set _ _ => "set"
  | seq _ => "begin"
  | logic .and _ => "and"
  | logic .or _ => "or"
  | when _ _ | cond _ _ _ => "if"
  | .while _ _ => "while"
  | switch _ _ _ => "switch"
  | letPar _ _ => "let"
  | letSeq _ _ => "let*"
  | letRec _ _ => "letrec"
  | loop _ _ _ _ _ => "loop"
  | lambda _ _ _ => "lambda"
  | invoke _ _ => "invoke"
  | unary form _ => form.kind
  | binary form _ _ => form.kind
  | ternary form _ _ _ => form.kind
  | staticField _ _ => "field-ref"
  | staticProperty _ _ => "property-ref"
  | staticCall _ _ _ | call _ _ _ => "method-call"
  | new _ _ => "new"
  | tryCatch _ _ _ | tryFinally _ _ _ _ => "try"
  | pin _ _ _ => "pin"

/-- Direct subexpressions, in evaluation order. -/
def children : Expr → List Expr
  | literal _ | var _ => []
  | set _ value => [value]
  | seq items | logic _ items => items
  | when test body => [test, body]
  | cond test yes no => [test, yes, no]
  | .while test body => [test, body]
  | switch selector arms default => selector :: arms.map (·.2) ++ [default]
  | letPar clauses body | letSeq clauses body => clauses.map (·.2) ++ [body]
  | letRec clauses body => clauses.map (·.2) ++ [body]
  | loop _ _ vars _ body => vars.map (·.2) ++ [body]
  | lambda _ _ body => [body]
  | invoke function args => function :: args
  | unary _ operand => [operand]
  | binary _ left right => [left, right]
  | ternary _ first second third => [first, second, third]
  | staticField _ _ | staticProperty _ _ => []
  | staticCall _ _ args => args
  | call receiver _ args => receiver :: args
  | new _ args => args
  | tryCatch _ body catches => body :: catches.map (·.2)
  | tryFinally _ body catches final => body :: catches.map (·.2) ++ [final]
  | pin _ arrays body => arrays.map (·.2) ++ [body]

/-- The number of a boundary. -/
def nodeId? : Expr → Option NodeId
  | loop id _ _ _ _ => some id
  | lambda id _ _ => some id
  | tryCatch id _ _ => some id
  | tryFinally id _ _ _ => some id
  | pin id _ _ => some id
  | _ => none

end Expr

end ClassForge
