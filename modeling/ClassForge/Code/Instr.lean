import ClassForge.Handle
import ClassForge.Number.Layout

/-!
# Instructions

The instructions of a stack machine.  Operands are pushed on an evaluation
stack, branches go to labels, and arguments and locals are addressed by slot.
Exception blocks are not instructions; a code body lists them beside its
instructions.
-/

namespace ClassForge

/-- A branch target within one code body. -/
structure Label where
  index : Nat
  deriving DecidableEq, Repr

/-- A label as listings print it. -/
def Label.text (label : Label) : String :=
  "L" ++ toString label.index

/-- A constant that an instruction pushes. -/
inductive Constant where
  | int32 (value : Int32)
  | int64 (value : Int64)
  | float32 (value : Binary32)
  | float64 (value : Binary64)
  | string (value : String)
  | null
  deriving DecidableEq

/-- Arithmetic on two operands.  Division, remainder and right shift have a
form each for signed and for unsigned operands. -/
inductive ArithOp where
  | add | sub | mul
  | div | divUnsigned | rem | remUnsigned
  | and | or | xor
  | shl | shr | shrUnsigned
  deriving DecidableEq, Repr

/-- Comparisons, which push a truth value.  The unsigned forms also hold when
a float operand is not a number. -/
inductive CompareOp where
  | eq
  | gt | gtUnsigned
  | lt | ltUnsigned
  deriving DecidableEq, Repr

/-- A numeric conversion. -/
structure Conversion where
  target : Prim
  /-- Raise an exception when the value does not fit. -/
  checked : Bool
  /-- Read the operand as unsigned. -/
  unsignedSource : Bool
  deriving DecidableEq, Repr

/-- An instruction. -/
inductive Instr where
  | nop
  | pop
  | dup
  | const (value : Constant)
  | loadArg (slot : Nat)
  | storeArg (slot : Nat)
  | loadLocal (slot : Nat)
  | storeLocal (slot : Nat)
  | loadField (field : FieldHandle)
  | storeField (field : FieldHandle)
  | loadStatic (field : FieldHandle)
  | storeStatic (field : FieldHandle)
  /-- Direct call.  The result of a tail call is that of the calling frame,
  which is given up. -/
  | call (method : MethodHandle) (tail : Bool)
  /-- Call that is dispatched on the run-time type of the receiver. -/
  | callVirtual (method : MethodHandle) (tail : Bool)
  /-- Allocate an instance and run a constructor on it. -/
  | newObject (ctor : CtorHandle)
  /-- Run a constructor on an existing receiver. -/
  | callCtor (ctor : CtorHandle)
  /-- Push a reference to a method. -/
  | loadFunction (method : MethodHandle)
  | ret
  | branch (label : Label)
  | branchTrue (label : Label)
  | branchFalse (label : Label)
  /-- Jump table on an unsigned selector; a selector beyond it falls through. -/
  | switch (labels : List Label)
  /-- Leave an exception block by way of the enclosing finally handlers. -/
  | leave (label : Label)
  | endFinally
  | throw
  | arith (op : ArithOp)
  | neg
  | not
  | compare (op : CompareOp)
  | convert (conversion : Conversion)
  | newArray (element : RunTy)
  | loadElement (element : RunTy)
  | storeElement (element : RunTy)
  /-- Push the address of an array element. -/
  | elementAddress (element : RunTy)
  | arrayLength
  | loadIndirect (prim : Prim)
  | storeIndirect (prim : Prim)
  /-- Copy bytes; operands are destination, source and count. -/
  | copyBlock
  /-- Fill bytes; operands are destination, value and count. -/
  | fillBlock
  | box (type : RunTy)
  | unbox (type : RunTy)
  | castClass (type : RunTy)
  | isInstance (type : RunTy)
  deriving DecidableEq

/-- A load of a constant as listings print it. -/
def Constant.text : Constant → String
  | int32 value => "ldc.i4 " ++ toString value.toInt
  | int64 value => "ldc.i8 " ++ toString value.toInt
  | float32 value => "ldc.r4 " ++ value.text
  | float64 value => "ldc.r8 " ++ value.text
  | string value => "ldstr `" ++ value ++ "`"
  | null => "ldnull"

/-- An operation as listings print it. -/
def ArithOp.mnemonic : ArithOp → String
  | add => "add"
  | sub => "sub"
  | mul => "mul"
  | div => "div"
  | divUnsigned => "div.un"
  | rem => "rem"
  | remUnsigned => "rem.un"
  | and => "and"
  | or => "or"
  | xor => "xor"
  | shl => "shl"
  | shr => "shr"
  | shrUnsigned => "shr.un"

/-- A comparison as listings print it. -/
def CompareOp.mnemonic : CompareOp → String
  | eq => "ceq"
  | gt => "cgt"
  | gtUnsigned => "cgt.un"
  | lt => "clt"
  | ltUnsigned => "clt.un"

/-- A conversion as listings print it. -/
def Conversion.text (conversion : Conversion) : String :=
  "conv" ++ (if conversion.checked then ".ovf" else "") ++
    (if conversion.unsignedSource then ".un" else "") ++
    " " ++ conversion.target.name

namespace Instr

/-- Instructions without operands. -/
def plain : List Instr :=
  [nop, pop, dup, const .null, ret, endFinally, throw,
    arith .add, arith .sub, arith .mul, arith .div, arith .divUnsigned,
    arith .rem, arith .remUnsigned, arith .and, arith .or, arith .xor,
    arith .shl, arith .shr, arith .shrUnsigned, neg, not,
    compare .eq, compare .gt, compare .gtUnsigned, compare .lt,
    compare .ltUnsigned, arrayLength, copyBlock, fillBlock]

/-- Instructions with one number, a slot, a handle or a label, by mnemonic. -/
def numbered : List (String × (Nat → Instr)) :=
  [("ldarg", loadArg), ("starg", storeArg), ("ldloc", loadLocal),
    ("stloc", storeLocal), ("ldfld", fun index => loadField ⟨index⟩),
    ("stfld", fun index => storeField ⟨index⟩),
    ("ldsfld", fun index => loadStatic ⟨index⟩),
    ("stsfld", fun index => storeStatic ⟨index⟩),
    ("newobj", fun index => newObject ⟨index⟩),
    ("callctor", fun index => callCtor ⟨index⟩),
    ("ldftn", fun index => loadFunction ⟨index⟩),
    ("br", fun index => branch ⟨index⟩),
    ("brtrue", fun index => branchTrue ⟨index⟩),
    ("brfalse", fun index => branchFalse ⟨index⟩),
    ("leave", fun index => leave ⟨index⟩)]

/-- Instructions with one type, by mnemonic. -/
def typed : List (String × (RunTy → Instr)) :=
  [("newarr", newArray), ("ldelem", loadElement), ("stelem", storeElement),
    ("ldelema", elementAddress), ("box", box), ("unbox.any", unbox),
    ("castclass", castClass), ("isinst", isInstance)]

/-- The text of an instruction in a listing. -/
def text : Instr → String
  | nop => "nop"
  | pop => "pop"
  | dup => "dup"
  | const value => value.text
  | loadArg slot => "ldarg " ++ toString slot
  | storeArg slot => "starg " ++ toString slot
  | loadLocal slot => "ldloc " ++ toString slot
  | storeLocal slot => "stloc " ++ toString slot
  | loadField field => "ldfld " ++ field.text
  | storeField field => "stfld " ++ field.text
  | loadStatic field => "ldsfld " ++ field.text
  | storeStatic field => "stsfld " ++ field.text
  | call method tail => (if tail then "tail." else "") ++ "call " ++ method.text
  | callVirtual method tail =>
      (if tail then "tail." else "") ++ "callvirt " ++ method.text
  | newObject ctor => "newobj " ++ ctor.text
  | callCtor ctor => "call " ++ ctor.text
  | loadFunction method => "ldftn " ++ method.text
  | ret => "ret"
  | branch label => "br " ++ label.text
  | branchTrue label => "brtrue " ++ label.text
  | branchFalse label => "brfalse " ++ label.text
  | switch labels =>
      "switch (" ++ ", ".intercalate (labels.map Label.text) ++ ")"
  | leave label => "leave " ++ label.text
  | endFinally => "endfinally"
  | throw => "throw"
  | arith op => op.mnemonic
  | neg => "neg"
  | not => "not"
  | compare op => op.mnemonic
  | convert conversion => conversion.text
  | newArray element => "newarr " ++ element.text
  | loadElement element => "ldelem " ++ element.text
  | storeElement element => "stelem " ++ element.text
  | elementAddress element => "ldelema " ++ element.text
  | arrayLength => "ldlen"
  | loadIndirect prim => "ldind " ++ prim.name
  | storeIndirect prim => "stind " ++ prim.name
  | copyBlock => "cpblk"
  | fillBlock => "initblk"
  | box type => "box " ++ type.text
  | unbox type => "unbox.any " ++ type.text
  | castClass type => "castclass " ++ type.text
  | isInstance type => "isinst " ++ type.text

/-- The instruction without operands that has a given text. -/
def ofPlainText? (text : String) : Option Instr :=
  plain.find? fun instr => instr.text = text

/-- Labels that an instruction may branch to. -/
def targets : Instr → List Label
  | branch label | branchTrue label | branchFalse label | leave label => [label]
  | switch labels => labels
  | _ => []

end Instr

end ClassForge
