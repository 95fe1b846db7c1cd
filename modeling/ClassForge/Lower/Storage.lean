import ClassForge.Lower.Basic

/-!
# Where variables are stored

A variable lives in an argument slot, in a local slot or in a field of the
receiver.  A variable that a boundary captures lives in a cell, and the slot
holds the cell: both sides of the boundary then share it.
-/

namespace ClassForge

/-- A slot that holds a variable or its cell. -/
inductive Place where
  | argument (slot : Nat)
  | localSlot (slot : Nat)
  | receiverField (field : FieldHandle)
  deriving DecidableEq

/-- A variable of the code being generated. -/
structure Binding where
  type : SourceTy
  place : Place
  /-- Whether the slot holds a cell with the value in it. -/
  boxed : Bool
  deriving DecidableEq

namespace Place

/-- Push what a slot holds. -/
def load : Place → Lower Unit
  | argument slot => Lower.emit (.loadArg slot)
  | localSlot slot => Lower.emit (.loadLocal slot)
  | receiverField field => Lower.emitAll [.loadArg 0, .loadField field]

/-- Store in a slot what some code pushes. -/
def store (value : Lower Unit) : Place → Lower Unit
  | argument slot => do
      value
      Lower.emit (.storeArg slot)
  | localSlot slot => do
      value
      Lower.emit (.storeLocal slot)
  | receiverField field => do
      Lower.emit (.loadArg 0)
      value
      Lower.emit (.storeField field)

end Place

namespace LowerContext

/-! ## Cells -/

/-- Handle of the field of a cell that holds the value. -/
def cellField (context : LowerContext) (content : SourceTy) : Lower FieldHandle := do
  let cell ← context.runTy (.cell content)
  Lower.ofImage (context.image.resolveField cell "Value")

/-- Make a cell, with the value on top of the stack if `filled`, and store it in
a new local slot. -/
def newCell (context : LowerContext) (content : SourceTy) (filled : Bool) :
    Lower Binding := do
  let ctor ← context.platformCtor (.cell content) (if filled then [content] else [])
  Lower.emit (.newObject ctor)
  let slot ← context.storeTop (.cell content)
  return { type := content, place := .localSlot slot, boxed := true }

/-- A variable that holds the value on top of the stack. -/
def bindTop (context : LowerContext) (type : SourceTy) (boxed : Bool) :
    Lower Binding := do
  if boxed then
    context.newCell type true
  else
    let slot ← context.storeTop type
    return { type, place := .localSlot slot, boxed := false }

/-- A variable that has not been given a value. -/
def bindFresh (context : LowerContext) (type : SourceTy) (boxed : Bool) :
    Lower Binding := do
  if boxed then
    context.newCell type false
  else
    let slot ← context.declareLocal type
    return { type, place := .localSlot slot, boxed := false }

/-! ## Access -/

/-- Push the value of a variable. -/
def fetch (context : LowerContext) (binding : Binding) : Lower Unit := do
  binding.place.load
  if binding.boxed then
    let field ← context.cellField binding.type
    Lower.emit (.loadField field)

/-- Store in a variable what some code pushes.  A cell is pushed before the
code runs. -/
def store (context : LowerContext) (binding : Binding) (value : Lower Unit) :
    Lower Unit := do
  if binding.boxed then
    binding.place.load
    value
    let field ← context.cellField binding.type
    Lower.emit (.storeField field)
  else
    binding.place.store value

end LowerContext

/-- Push the cell of a variable. -/
def Binding.fetchCell (binding : Binding) (name : Name) : Lower Unit :=
  if binding.boxed then
    binding.place.load
  else
    throw (.internal
      ("attempt to fetch box of unboxed binding `" ++ name ++ "`"))

/-- Push the cells of captured variables. -/
def Scope.fetchCells (scope : Scope Binding) (captures : List Param) : Lower Unit :=
  captures.forM fun capture => do
    let binding ← scope.lookup capture.name
    binding.fetchCell capture.name

end ClassForge
