import ClassForge.Attributes
import ClassForge.Core.Basic

/-!
# Members that boundaries move their code into

A lambda or named loop becomes a class of its own: a field for the cell of each
captured variable, a constructor that stores the cells, and a method that holds
the code.  A `try` or `pin` block becomes a static method of the class it stands
in, which takes the cells of the captured variables, and for a `pin` the arrays,
as arguments.

Names are made from the class and the number of the boundary.
-/

namespace ClassForge

/-- The class behind a lambda or a named loop. -/
structure Closure where
  typeName : Name
  captures : List Param
  params : List Binder
  ret : SourceTy
  body : Core

/-- The static method behind a `try` or `pin` block. -/
structure Block where
  host : Name
  name : Name
  captures : List Param
  /-- Types of the arrays that are passed after the cells. -/
  arrays : List SourceTy
  /-- The block itself. -/
  core : Core

/-- Types of the cells of captured variables. -/
def cellTypes (captures : List Param) : List SourceTy :=
  captures.map fun capture => .cell capture.type

namespace Closure

/-- The class behind a lambda. -/
def ofLambda (host : Name) (id : NodeId) (params : List Binder)
    (captures : List Param) (body : Core) : Closure where
  typeName := host ++ "$closure" ++ toString id
  captures := captures
  params := params
  ret := body.type
  body := body

/-- The class behind a named loop. -/
def ofLoop (host : Name) (id : NodeId) (vars : List Binder) (ret : SourceTy)
    (captures : List Param) (body : Core) : Closure where
  typeName := host ++ "$loop" ++ toString id
  captures := captures
  params := vars
  ret := ret
  body := body

/-- Name of the method that holds the code. -/
def invokeName : Name := "Invoke"

/-- The field for the cell of a captured variable. -/
def fieldKey (closure : Closure) (capture : Param) : FieldKey where
  owner := closure.typeName
  name := capture.name
  type := .cell capture.type

/-- Keys of the fields for the captured variables. -/
def fieldKeys (closure : Closure) : List FieldKey :=
  closure.captures.map closure.fieldKey

/-- The constructor that stores the cells. -/
def ctorKey (closure : Closure) : CtorKey where
  owner := closure.typeName
  params := cellTypes closure.captures

/-- Types of the parameters of a function. -/
def paramTypes (closure : Closure) : List SourceTy :=
  closure.params.map Binder.type

/-- The method that holds the code. -/
def invokeKey (closure : Closure) : MethodKey where
  owner := closure.typeName
  name := invokeName
  isInstance := true
  params := closure.paramTypes

/-- The type of the function that the boundary evaluates to. -/
def delegateType (closure : Closure) : SourceTy :=
  .delegate closure.paramTypes closure.ret

end Closure

namespace Block

/-- Parameter types of the method of a block: cells, then arrays. -/
def params (block : Block) : List SourceTy :=
  cellTypes block.captures ++ block.arrays

/-- What the method of a block gives. -/
def ret (block : Block) : SourceTy :=
  block.core.type

/-- Key of the method of a block. -/
def key (block : Block) : MethodKey where
  owner := block.host
  name := block.name
  isInstance := false
  params := block.params

end Block

namespace Core

/-- The class behind a node, if it is a lambda or a loop in a class `host`. -/
def closure? (host : Name) : Core → Option Closure
  | lambda id params captures body => some (.ofLambda host id params captures body)
  | loop id _ vars ret captures body =>
      some (.ofLoop host id (vars.map (·.1)) ret captures body)
  | _ => none

/-- The static method behind a node, if it is a `try` or `pin` block in a class
`host`. -/
def block? (host : Name) (core : Core) : Option Block :=
  match core with
  | tryCatch id captures _ _ | tryFinally id captures _ _ _ =>
      some { host, name := "$try" ++ toString id, captures, arrays := [], core }
  | pin id captures arrays _ =>
      some
        { host, name := "$pin" ++ toString id, captures
          arrays := arrays.map fun (_, array) => array.type, core }
  | _ => none

end Core

end ClassForge
