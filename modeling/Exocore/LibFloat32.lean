import Mathlib

/-! Binary floating point numbers of 32 bits, as far as their comparison. -/
namespace Float32Bits

/-- A number by its bits: the sign, the exponent and the fraction. -/
structure F32 where
  bits : Fin (2^32)
deriving DecidableEq

namespace F32

def isNegative (x : F32) : Bool := 2^31 ≤ x.bits.val

def exponent (x : F32) : ℕ := x.bits.val / 2^23 % 2^8

def fraction (x : F32) : ℕ := x.bits.val % 2^23

def isNan (x : F32) : Bool := x.exponent = 255 ∧ x.fraction ≠ 0

/-- The size of a number in units of 2^(-149), of which each finite number is a multiple. An
infinity is behind the largest of them. -/
def magnitude (x : F32) : ℕ :=
  if x.exponent = 0 then x.fraction else (2^23 + x.fraction) * 2^(x.exponent - 1)

/-- What the number stands for, which is the same for both zeros. -/
def value (x : F32) : ℤ := if x.isNegative then -(x.magnitude : ℤ) else x.magnitude

def partialCmp (x y : F32) : Option Ordering :=
  if x.isNan ∨ y.isNan then none else some (cmp x.value y.value)

/-- The comparison for equality, in which no NaN is equal to itself. -/
def eq (x y : F32) : Bool := x.partialCmp y = some .eq

theorem partialCmp_eq (x y : F32) (hx : x.isNan = false) (hy : y.isNan = false) :
    x.partialCmp y = some (cmp x.value y.value) := by
  rw [partialCmp, hx, hy, if_neg (by simp)]

theorem eq_iff (x y : F32) (hx : x.isNan = false) (hy : y.isNan = false) :
    x.eq y = true ↔ x.value = y.value := by
  rw [eq, partialCmp_eq x y hx hy, decide_eq_true_iff, Option.some.injEq, cmp_eq_eq_iff]

/-- The zeros differ in their bits alone. -/
example : (⟨0⟩ : F32).eq ⟨2^31⟩ = true := by decide +kernel

end F32

end Float32Bits
