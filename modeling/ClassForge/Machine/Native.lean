import ClassForge.Machine.Store

/-!
# Carrying out built-in members

What the members of the platform library do.
-/

namespace ClassForge

namespace Native

/-- How a built-in member ends. -/
inductive Outcome where
  | value (value : Value)
  /-- With a call of a method, whose value is that of the member. -/
  | call (method : MethodHandle) (args : List Value)

/-- The value of a function of one number. -/
def MathFunction.apply : MathFunction → Binary64 → Binary64
  | .sqrt => Binary64.lift Float.sqrt
  | .sin => Binary64.lift Float.sin
  | .cos => Binary64.lift Float.cos
  | .tan => Binary64.lift Float.tan
  | .exp => Binary64.lift Float.exp
  | .log => Binary64.lift Float.log
  | .abs => Binary64.abs
  | .floor => Binary64.lift Float.floor
  | .ceiling => Binary64.lift Float.ceil

/-- The value of a function of two numbers. -/
def MathFunction₂.apply : MathFunction₂ → Binary64 → Binary64 → Binary64
  | .pow => Binary64.lift₂ Float.pow
  | .atan2 => Binary64.lift₂ Float.atan2
  | .min => Binary64.min
  | .max => Binary64.max

/-! ## Text of values -/

/-- A float as the console writes it. -/
def floatText (value : Binary64) : String :=
  match value.datum with
  | .infinite false => "∞"
  | .infinite true => "-∞"
  | _ => value.text

/-- The character with a code point, or nothing. -/
def charText (code : Nat) : String :=
  if code.isValidChar then String.singleton (Char.ofNat code) else ""

/-- How the content of a box is written. -/
def boxedRendering (image : Image) (type : TypeHandle) : Rendering :=
  match (image.type? type).map TypeInfo.origin with
  | some (.builtin (.prim .bool)) => .truth
  | some (.builtin (.prim .char)) => .character
  | _ => .plain

/-- The text of a value, looking into at most `bound` boxes. -/
def renderUpTo (image : Image) (heap : Heap) :
    (bound : Nat) → Rendering → Value → String
  | _, _, .null => ""
  | _, .truth, value => if value.isTruthy then "True" else "False"
  | _, .character, .int32 code => charText code.toUInt32.toNat
  | _, _, .float value => floatText value
  | _, _, .string value => value
  | _, _, .int32 value => toString value.toInt
  | _, _, .int64 value | _, _, .native value => toString value.toInt
  | _, _, .method _ | _, _, .element _ _ => Prim.intPtr.name
  | bound, _, value =>
      match heap.deref? value with
      | some (.boxed type content) =>
          match bound with
          | 0 => ""
          | bound + 1 =>
              renderUpTo image heap bound (boxedRendering image type) content
      | some (.array element _ _) => element.text ++ "[]"
      | _ => Store.describe image heap value

/-- The text of a value.  A box holds an older object, so boxes nest at most as
deep as there are objects. -/
def render (image : Image) (heap : Heap) (rendering : Rendering) (value : Value) :
    String :=
  renderUpTo image heap (heap.size + 1) rendering value

/-- Number of UTF-16 units of a text. -/
def units16 (text : String) : Nat :=
  text.foldl (fun count c => count + if c.toNat < 0x10000 then 1 else 2) 0

/-! ## Arguments -/

/-- An argument of a native routine. -/
def arg (args : List Value) (index : Nat) : Exec Value :=
  Exec.require args[index]? .missingArgument

/-- An argument that has to be a float. -/
def floatArg (args : List Value) (index : Nat) : Exec Binary64 := do
  Exec.require (← arg args index).float? .floatArgument

/-- An argument that has to be an integer. -/
def intArg (args : List Value) (index : Nat) : Exec Int64 := do
  Exec.require (← arg args index).int64? .integerArgument

/-- The result of an integer function for the wanted width. -/
def intResult (wide : Bool) (value : Int64) : Outcome :=
  .value (if wide then .int64 value else .int32 value.toInt32)

/-- Append to the console text. -/
def print (text : String) : Exec Outcome := do
  modify fun store => { store with output := store.output ++ text }
  return .value .null

/-- Carry out a built-in member. -/
def run (image : Image) (native : Native) (args : List Value) : Exec Outcome := do
  match native with
  | .objectCtor => return .value .null
  | .objectText =>
      let text := render image (← Exec.heap) .plain (← arg args 0)
      return .value (.string text)
  | .concat =>
      let heap ← Exec.heap
      let left := render image heap .plain (← arg args 0)
      let right := render image heap .plain (← arg args 1)
      return .value (.string (left ++ right))
  | .textLength =>
      match ← arg args 0 with
      | .string text => return .value (.int32 (Int32.ofNat (units16 text)))
      | _ => Exec.raise image .nullReference
  | .write rendering newline =>
      let text := render image (← Exec.heap) rendering (← arg args 0)
      print (if newline then text ++ "\n" else text)
  | .writeEmptyLine => print "\n"
  | .math function =>
      return .value (.float (MathFunction.apply function (← floatArg args 0)))
  | .math₂ function =>
      let left ← floatArg args 0
      let right ← floatArg args 1
      return .value (.float (MathFunction₂.apply function left right))
  | .intAbs wide =>
      let value ← intArg args 0
      let value := if wide then value else value.toInt32.toInt64
      let least := if wide then Int64.minValue else Int32.minValue.toInt64
      if value = least then
        Exec.raise image .overflow
      else
        return intResult wide (if value < 0 then -value else value)
  | .intMin wide =>
      let left ← intArg args 0
      let right ← intArg args 1
      return intResult wide (if right < left then right else left)
  | .intMax wide =>
      let left ← intArg args 0
      let right ← intArg args 1
      return intResult wide (if left < right then right else left)
  | .exceptionCtor =>
      let exception ← arg args 0
      let name := Store.describe image (← Exec.heap) exception
      if let some object := exception.object? then
        Exec.setMessage object (Exec.defaultMessage name)
      return .value .null
  | .exceptionCtorMessage =>
      let exception ← arg args 0
      let message ← arg args 1
      let heap ← Exec.heap
      let text := match message with
        | .null => Exec.defaultMessage (Store.describe image heap exception)
        | message => render image heap .plain message
      if let some object := exception.object? then
        Exec.setMessage object text
      return .value .null
  | .exceptionMessage =>
      let exception ← arg args 0
      return .value (.string (Store.exceptionMessage (← Exec.heap) exception))
  | .cellCtor =>
      let cell ← arg args 0
      let content ← Exec.copy (← arg args 1)
      match cell.object?, (← Exec.heap).deref? cell with
      | some object, some (.instance _ fields) =>
          if fields.isEmpty then
            Exec.malformed .cellCtor
          Exec.modifyHeap fun heap => heap.setField object 0 content
          return .value .null
      | _, _ => Exec.malformed .cellCtor
  | .cellCtorEmpty => return .value .null
  | .delegateCtor =>
      let delegate ← arg args 0
      let target ← arg args 1
      match ← arg args 2 with
      | .method method =>
          match delegate.object?, (← Exec.heap).deref? delegate with
          | some object, some (.instance type _) =>
              Exec.modifyHeap fun heap =>
                heap.modify object fun _ => .delegate type target method
              return .value .null
          | _, _ => Exec.malformed .delegateCtor
      | _ => Exec.malformed .delegateWithoutMethod
  | .delegateInvoke =>
      match (← Exec.heap).deref? (← arg args 0) with
      | some (.delegate _ target method) =>
          let info ← Exec.ofImage (image.method method)
          let rest := args.drop 1
          return .call method (if info.attrs.isStatic then rest else target :: rest)
      | _ => Exec.raise image .nullReference

end Native

end ClassForge
