import ClassForge.Machine.Arith
import Mathlib.Algebra.Group.Nat.Defs

/-!
# Integers as run-time values

A number in the range of a type is its own reduction into that range, and the value that stands for
it on the stack is an integer with the same low bits.  Values of different types can share a slot
of the stack, so what tells two numbers of a type apart is their bits within the width of the type.
-/

namespace ClassForge

namespace Prim

variable {prim : Prim} {value other : Int}

/-! ## Reduction into a range -/

/-- Number of the words that a type has room for. -/
def modulus (prim : Prim) : Nat :=
  2 ^ prim.width

theorem modulus_pos (prim : Prim) : 0 < prim.modulus :=
  Nat.two_pow_pos _

/-- The words of a type are the words of its bytes. -/
theorem modulus_eq (prim : Prim) : prim.modulus = 256 ^ prim.size := by
  rw [modulus, width, Nat.pow_mul]

theorem wrap_eq (prim : Prim) (value : Int) :
    prim.wrap value = if prim.isUnsigned || prim == bool then value % prim.modulus
      else value.bmod prim.modulus :=
  rfl

/-- Reduction keeps the bits that a type has room for. -/
theorem wrap_emod (prim : Prim) (value : Int) :
    prim.wrap value % prim.modulus = value % prim.modulus := by
  rw [wrap_eq]
  split
  · exact Int.emod_emod_of_dvd value (Int.dvd_refl _)
  · exact Int.bmod_emod

/-- Numbers with the same bits have the same reduction. -/
theorem wrap_congr (same : value % prim.modulus = other % prim.modulus) :
    prim.wrap value = prim.wrap other := by
  rw [wrap_eq, wrap_eq]
  split
  · exact same
  · rw [← Int.emod_bmod value, same, Int.emod_bmod]

/-- A number in the range of a type is its own reduction. -/
theorem wrap_of_holds (holds : prim.Holds value) : prim.wrap value = value := by
  obtain ⟨least, greatest⟩ := holds
  cases prim <;>
    first
    | exact Int.emod_eq_of_lt least (Int.lt_of_le_of_lt greatest (by decide))
    | exact Int.bmod_eq_of_le least (Int.lt_of_le_of_lt greatest (by decide))

/-- Reduction leads into the range, except that a truth value is not reduced to a bit. -/
theorem holds_wrap (notBool : prim ≠ .bool) (value : Int) : prim.Holds (prim.wrap value) := by
  have pos : 0 < (prim.modulus : Int) := Int.natCast_pos.mpr prim.modulus_pos
  have even : prim.modulus = 2 * 2 ^ (prim.width - 1) := by
    cases prim <;> rfl
  rw [wrap_eq]
  unfold Holds minValue maxValue
  rw [beq_false_of_ne notBool, Bool.or_false, if_neg Bool.false_ne_true]
  change (if prim.isUnsigned then (0 : Int) else -(2 ^ (prim.width - 1) : Nat)) ≤ _ ∧
    _ ≤ if prim.isUnsigned then ((prim.modulus : Nat) : Int) - 1
      else ((2 ^ (prim.width - 1) : Nat) : Int) - 1
  cases prim.isUnsigned with
  | true =>
      have := Int.emod_nonneg value (Int.ne_of_gt pos)
      have := Int.emod_lt_of_pos value pos
      simp only [if_true]
      omega
  | false =>
      have := Int.le_bmod (x := value) prim.modulus_pos
      have := Int.bmod_lt (x := value) prim.modulus_pos
      simp only [Bool.false_eq_true, if_false]
      omega

end Prim

/-! ## Words -/

/-- The bits of a 64-bit integer, as a number that is not negative. -/
theorem Int64.natCast_toNat (word : Int64) :
    (word.toUInt64.toNat : Int) = word.toInt % (2 ^ 64 : Nat) := by
  have bits : word.toBitVec = BitVec.ofInt 64 word.toInt := (BitVec.ofInt_toInt).symm
  rw [← Int64.toNat_toBitVec, bits, BitVec.toNat_ofInt, Int.toNat_of_nonneg]
  exact Int.emod_nonneg _ (by decide)

namespace Arith

variable {prim : Prim} {number : Int}

/-- The value of a number has the bits of the number. -/
theorem int64?_intValue (notFloat : prim.isFloat = false) (holds : prim.Holds number) :
    ∃ word, (intValue prim number).int64? = some word ∧
      word.toInt % prim.modulus = number % prim.modulus := by
  have reduces {larger : Nat} (divides : prim.modulus ∣ larger) :
      number.bmod larger % prim.modulus = number % prim.modulus := by
    have divides : (prim.modulus : Int) ∣ larger := Int.natCast_dvd_natCast.mpr divides
    rw [← Int.emod_emod_of_dvd (number.bmod larger) divides, Int.bmod_emod,
      Int.emod_emod_of_dvd number divides]
  cases prim
  case float32 | float64 => cases notFloat
  case bool =>
    obtain rfl | rfl : number = 0 ∨ number = 1 := by
      obtain ⟨least, greatest⟩ := holds
      change 0 ≤ number at least
      change number ≤ 1 at greatest
      omega
    · exact ⟨0, rfl, rfl⟩
    · exact ⟨1, rfl, rfl⟩
  case int64 | uint64 | intPtr | uintPtr =>
    exact ⟨Int64.ofInt number, rfl, Int64.toInt_ofInt ▸ reduces (by decide)⟩
  all_goals
    refine ⟨(Int32.ofInt number).toInt64, rfl, ?_⟩
    rw [Int32.toInt_toInt64, Int32.toInt_ofInt]
    exact reduces (by decide)

end Arith

end ClassForge
