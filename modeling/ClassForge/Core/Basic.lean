import ClassForge.Core.Action
import ClassForge.Core.Member
import ClassForge.Expr.Basic

/-!
# Checked expressions

The tree that checking an expression gives and that code is generated from.
Names carry their types, operators and member accesses carry what they were
found to mean, every binding says whether it lives in a cell, and every boundary
lists the variables that cross it.

Nothing has to be looked up in the declarations of the module any more: the type
of each node can be read off it.
-/

namespace ClassForge

/-- A variable that a node binds. -/
structure Binder where
  name : Name
  type : SourceTy
  /-- Whether some boundary in its scope uses the variable, which then lives in
  a cell. -/
  captured : Bool
  deriving DecidableEq

/-- What a catch handler catches, and the variable that it binds the exception
to.  There is none when the handler does not mention it. -/
structure CatchBinder where
  type : SourceTy
  binder : Option Binder
  deriving DecidableEq

/-- A checked expression. -/
inductive Core where
  | literal (value : Literal)
  | var (name : Name) (type : SourceTy)
  | set (name : Name) (value : Core)
  | seq (items : List Core)
  | logic (connective : Connective) (items : List Core)
  | when (test body : Core)
  | cond (test yes no : Core)
  | while (test body : Core)
  | switch (selector : Core) (arms : List (List UInt32 × Core)) (default : Core)
  | letPar (clauses : List (Binder × Core)) (body : Core)
  | letSeq (clauses : List (Binder × Core)) (body : Core)
  | letRec (clauses : List (Binder × Core)) (body : Core)
  /-- The function of the loop is bound by `function`, the loop variables are
  its parameters. -/
  | loop (id : NodeId) (function : Binder) (vars : List (Binder × Core))
      (ret : SourceTy) (captures : List Param) (body : Core)
  | lambda (id : NodeId) (params : List Binder) (captures : List Param)
      (body : Core)
  | invoke (type : SourceTy) (function : Core) (args : List Core)
  /-- Evaluate the operands in order, then act on their values. -/
  | apply (type : SourceTy) (action : Action) (operands : List Core)
  /-- Evaluate the operands in order, the receiver first if there is one, then
  use a member. -/
  | member (type : SourceTy) (use : MemberUse) (operands : List Core)
  | tryCatch (id : NodeId) (captures : List Param) (body : Core)
      (catches : List (CatchBinder × Core))
  | tryFinally (id : NodeId) (captures : List Param) (body : Core)
      (catches : List (CatchBinder × Core)) (final : Core)
  | pin (id : NodeId) (captures : List Param) (arrays : List (Binder × Core))
      (body : Core)

namespace Core

mutual

/-- The type of a checked expression. -/
def type : Core → SourceTy
  | literal value => value.type
  | var _ type => type
  | set _ _ => .void
  | seq items => lastType items
  | logic _ _ => .bool
  | when _ body => type body
  | cond _ yes _ => type yes
  | .while _ _ => .void
  | switch _ _ default => type default
  | letPar _ body => type body
  | letSeq _ body => type body
  | letRec _ body => type body
  | loop _ _ _ ret _ _ => ret
  | lambda _ params _ body => .delegate (params.map Binder.type) (type body)
  | invoke type _ _ => type
  | apply type _ _ => type
  | member type _ _ => type
  | tryCatch _ _ body _ => type body
  | tryFinally _ _ body _ _ => type body
  | pin _ _ _ body => type body
termination_by structural core => core

/-- The type of the last member of a list, `Void` for the empty list. -/
def lastType : List Core → SourceTy
  | [] => .void
  | [item] => type item
  | _ :: item :: items => lastType (item :: items)
termination_by structural items => items

end

mutual

/-- The expression itself and every subexpression, outermost first. -/
def preorder : Core → List Core
  | literal value => [literal value]
  | var name type => [var name type]
  | set name value => set name value :: preorder value
  | seq items => seq items :: preorderAll items
  | logic connective items => logic connective items :: preorderAll items
  | when test body => when test body :: (preorder test ++ preorder body)
  | cond test yes no =>
      cond test yes no :: (preorder test ++ (preorder yes ++ preorder no))
  | .while test body => .while test body :: (preorder test ++ preorder body)
  | switch selector arms default =>
      switch selector arms default ::
        (preorder selector ++ (preorderArms arms ++ preorder default))
  | letPar clauses body =>
      letPar clauses body :: (preorderBound clauses ++ preorder body)
  | letSeq clauses body =>
      letSeq clauses body :: (preorderBound clauses ++ preorder body)
  | letRec clauses body =>
      letRec clauses body :: (preorderBound clauses ++ preorder body)
  | loop id function vars ret captures body =>
      loop id function vars ret captures body ::
        (preorderBound vars ++ preorder body)
  | lambda id params captures body =>
      lambda id params captures body :: preorder body
  | invoke type function args =>
      invoke type function args :: (preorder function ++ preorderAll args)
  | apply type action operands => apply type action operands :: preorderAll operands
  | member type use operands => member type use operands :: preorderAll operands
  | tryCatch id captures body catches =>
      tryCatch id captures body catches ::
        (preorder body ++ preorderCatches catches)
  | tryFinally id captures body catches final =>
      tryFinally id captures body catches final ::
        (preorder body ++ (preorderCatches catches ++ preorder final))
  | pin id captures arrays body =>
      pin id captures arrays body :: (preorderBound arrays ++ preorder body)
termination_by structural core => core

/-- Preorders of a list of expressions, one after the other. -/
def preorderAll : List Core → List Core
  | [] => []
  | item :: items => preorder item ++ preorderAll items
termination_by structural items => items

/-- Preorders of the arms of a `switch`. -/
def preorderArms : List (List UInt32 × Core) → List Core
  | [] => []
  | (_, item) :: arms => preorder item ++ preorderArms arms
termination_by structural arms => arms

/-- Preorders of clauses that bind variables. -/
def preorderBound : List (Binder × Core) → List Core
  | [] => []
  | (_, item) :: clauses => preorder item ++ preorderBound clauses
termination_by structural clauses => clauses

/-- Preorders of catch handlers. -/
def preorderCatches : List (CatchBinder × Core) → List Core
  | [] => []
  | (_, item) :: catches => preorder item ++ preorderCatches catches
termination_by structural catches => catches

end

end Core

end ClassForge
