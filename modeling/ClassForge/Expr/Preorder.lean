import ClassForge.Expr.Basic

/-!
# Preorder of an expression

Every subexpression of an expression, outermost first and in evaluation order,
and the boundaries among them.
-/

namespace ClassForge

namespace Expr

mutual

/-- The expression itself and every subexpression, outermost first. -/
def preorder : Expr → List Expr
  | literal value => [literal value]
  | var name => [var name]
  | set name value => set name value :: preorder value
  | seq items => seq items :: preorderAll items
  | logic connective items => logic connective items :: preorderAll items
  | when test body => when test body :: (preorder test ++ preorder body)
  | cond test yes no =>
      cond test yes no :: (preorder test ++ preorder yes ++ preorder no)
  | .while test body => .while test body :: (preorder test ++ preorder body)
  | switch selector arms default =>
      switch selector arms default ::
        (preorder selector ++ preorderArms arms ++ preorder default)
  | letPar clauses body =>
      letPar clauses body :: (preorderNamed clauses ++ preorder body)
  | letSeq clauses body =>
      letSeq clauses body :: (preorderNamed clauses ++ preorder body)
  | letRec clauses body =>
      letRec clauses body :: (preorderTyped clauses ++ preorder body)
  | loop id name vars ret body =>
      loop id name vars ret body :: (preorderTyped vars ++ preorder body)
  | lambda id params body => lambda id params body :: preorder body
  | invoke function args =>
      invoke function args :: (preorder function ++ preorderAll args)
  | unary form operand => unary form operand :: preorder operand
  | binary form left right =>
      binary form left right :: (preorder left ++ preorder right)
  | ternary form first second third =>
      ternary form first second third ::
        (preorder first ++ preorder second ++ preorder third)
  | staticField owner name => [staticField owner name]
  | staticProperty owner name => [staticProperty owner name]
  | staticCall owner name args => staticCall owner name args :: preorderAll args
  | call receiver name args =>
      call receiver name args :: (preorder receiver ++ preorderAll args)
  | new type args => new type args :: preorderAll args
  | tryCatch id body catches =>
      tryCatch id body catches :: (preorder body ++ preorderTyped catches)
  | tryFinally id body catches final =>
      tryFinally id body catches final ::
        (preorder body ++ preorderTyped catches ++ preorder final)
  | pin id arrays body =>
      pin id arrays body :: (preorderNamed arrays ++ preorder body)
termination_by structural expr => expr

/-- Preorders of a list of expressions, one after the other. -/
def preorderAll : List Expr → List Expr
  | [] => []
  | expr :: exprs => preorder expr ++ preorderAll exprs
termination_by structural exprs => exprs

/-- Preorders of the arms of a `switch`. -/
def preorderArms : List (List UInt32 × Expr) → List Expr
  | [] => []
  | (_, expr) :: arms => preorder expr ++ preorderArms arms
termination_by structural arms => arms

/-- Preorders of named clauses. -/
def preorderNamed : List (Name × Expr) → List Expr
  | [] => []
  | (_, expr) :: clauses => preorder expr ++ preorderNamed clauses
termination_by structural clauses => clauses

/-- Preorders of typed clauses. -/
def preorderTyped : List (Param × Expr) → List Expr
  | [] => []
  | (_, expr) :: clauses => preorder expr ++ preorderTyped clauses
termination_by structural clauses => clauses

end

/-- Numbers of the boundaries in an expression, outermost first. -/
def boundaryIds (expr : Expr) : List NodeId :=
  expr.preorder.filterMap nodeId?

end Expr

end ClassForge
