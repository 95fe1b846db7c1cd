/-!
# Declaration attributes

Types, methods and fields carry a set of flags.  A set is written as a number,
one bit a flag; bits beyond the known flags are dropped when a number is read.
-/

namespace ClassForge

/-- Flags of a type declaration. -/
structure TypeAttrs where
  isPublic : Bool := false
  isValueType : Bool := false
  isInterface : Bool := false
  isAbstract : Bool := false
  isSealed : Bool := false
  deriving DecidableEq, Repr

/-- Flags of a method or constructor declaration. -/
structure MethodAttrs where
  isPublic : Bool := false
  isStatic : Bool := false
  declaredVirtual : Bool := false
  isAbstract : Bool := false
  isSpecial : Bool := false
  deriving DecidableEq, Repr

/-- Flags of a field declaration. -/
structure FieldAttrs where
  isPublic : Bool := false
  isStatic : Bool := false
  isInitOnly : Bool := false
  deriving DecidableEq, Repr

/-- The number whose bits, least first, are the given flags. -/
def packFlags : List Bool → Nat
  | [] => 0
  | flag :: flags => flag.toNat + 2 * packFlags flags

namespace TypeAttrs

/-- The flags as bits, from the lowest one up. -/
def bits (attrs : TypeAttrs) : Nat :=
  packFlags
    [attrs.isPublic, attrs.isValueType, attrs.isInterface, attrs.isAbstract,
      attrs.isSealed]

/-- The flags that bits stand for. -/
def ofBits (bits : Nat) : TypeAttrs where
  isPublic := bits.testBit 0
  isValueType := bits.testBit 1
  isInterface := bits.testBit 2
  isAbstract := bits.testBit 3
  isSealed := bits.testBit 4

/-- Reading a written set of flags gives the set back. -/
theorem ofBits_bits (attrs : TypeAttrs) : ofBits attrs.bits = attrs := by
  rcases attrs with ⟨a, b, c, d, e⟩
  cases a <;> cases b <;> cases c <;> cases d <;> cases e <;> decide

/-- A plain public class. -/
def publicClass : TypeAttrs :=
  { isPublic := true }

/-- A public value type; value types have no subtypes. -/
def publicValueType : TypeAttrs :=
  { isPublic := true, isValueType := true, isSealed := true }

/-- A public interface; an interface is abstract. -/
def publicInterface : TypeAttrs :=
  { isPublic := true, isInterface := true, isAbstract := true }

/-- A public class without subtypes. -/
def sealedClass : TypeAttrs :=
  { isPublic := true, isSealed := true }

/-- A public holder of static members. -/
def staticClass : TypeAttrs :=
  { isPublic := true, isAbstract := true, isSealed := true }

end TypeAttrs

namespace MethodAttrs

/-- The flags as bits, from the lowest one up. -/
def bits (attrs : MethodAttrs) : Nat :=
  packFlags
    [attrs.isPublic, attrs.isStatic, attrs.declaredVirtual, attrs.isAbstract,
      attrs.isSpecial]

/-- The flags that bits stand for. -/
def ofBits (bits : Nat) : MethodAttrs where
  isPublic := bits.testBit 0
  isStatic := bits.testBit 1
  declaredVirtual := bits.testBit 2
  isAbstract := bits.testBit 3
  isSpecial := bits.testBit 4

/-- Reading a written set of flags gives the set back. -/
theorem ofBits_bits (attrs : MethodAttrs) : ofBits attrs.bits = attrs := by
  rcases attrs with ⟨a, b, c, d, e⟩
  cases a <;> cases b <;> cases c <;> cases d <;> cases e <;> decide

/-- An abstract method is virtual even when it is not declared so. -/
def isVirtual (attrs : MethodAttrs) : Bool :=
  attrs.declaredVirtual || attrs.isAbstract

/-- Attributes of a public method of an instance. -/
def publicInstance : MethodAttrs :=
  { isPublic := true }

/-- Attributes of a public static method. -/
def publicStatic : MethodAttrs :=
  { isPublic := true, isStatic := true }

/-- Attributes of a public virtual method. -/
def publicVirtual : MethodAttrs :=
  { isPublic := true, declaredVirtual := true }

/-- Attributes of generated accessors and constructors. -/
def generated (isStatic : Bool) : MethodAttrs :=
  { isPublic := true, isStatic := isStatic, isSpecial := true }

end MethodAttrs

namespace FieldAttrs

/-- The flags as bits, from the lowest one up. -/
def bits (attrs : FieldAttrs) : Nat :=
  packFlags [attrs.isPublic, attrs.isStatic, attrs.isInitOnly]

/-- The flags that bits stand for. -/
def ofBits (bits : Nat) : FieldAttrs where
  isPublic := bits.testBit 0
  isStatic := bits.testBit 1
  isInitOnly := bits.testBit 2

/-- Reading a written set of flags gives the set back. -/
theorem ofBits_bits (attrs : FieldAttrs) : ofBits attrs.bits = attrs := by
  rcases attrs with ⟨a, b, c⟩
  cases a <;> cases b <;> cases c <;> decide

/-- Attributes of a public field of an instance. -/
def publicInstance : FieldAttrs :=
  { isPublic := true }

end FieldAttrs

end ClassForge
