import Mathlib

/-!
# Shared vocabulary of the kernel library

Machine integers are natural numbers below a power of two. Arithmetic on
them is ordinary arithmetic followed by an explicit wrap to 64 bits; the
error values and the page constants are those of `LibStd`.
-/

namespace WorkbenchOS.LibStd

/-- Wrap a result to the 64 bits of `u64`, `size_t` and pointers. -/
def u64 (value : ℕ) : ℕ := value%2^64

/-- Difference of two 64-bit values, wrapping below zero. -/
def u64Sub (left right : ℕ) : ℕ := u64 (left+2^64-right)

/-- A result wrapped to the 32 bits of `int`. -/
def int32 (value : ℤ) : ℤ := Int.bmod value (2^32)

/-- A signed value converted to `u64`. -/
def toU64 (value : ℤ) : ℕ := (value%2^64).toNat

/-- Bytes in one page. -/
def Page : ℕ := 4096

/-- `Std::Error`: a code or a message. -/
inductive Error where
  /-- `Error::from_code`. -/
  | fromCode (code : ℕ)
  /-- `Error::with_message`. -/
  | withMessage (message : String)
  deriving DecidableEq,Repr

/-- Values already below the width are unchanged. -/
theorem u64_of_lt {value : ℕ} (h : value<2^64) : u64 value=value := Nat.mod_eq_of_lt h

/-- Every wrapped value fits 64 bits. -/
theorem u64_lt (value : ℕ) : u64 value<2^64 := Nat.mod_lt _ (by decide)

/-- A difference that does not go below zero is the natural one. -/
theorem u64Sub_of_le {left right : ℕ} (h : right≤left) (hl : left<2^64) :
    u64Sub left right=left-right := by
  unfold u64Sub u64
  omega

/-- Values in the range of `int` are unchanged. -/
theorem int32_of_range {value : ℤ} (hl : -2^31≤value) (hu : value<2^31) : int32 value=value :=
  Int.bmod_eq_of_le (by omega) (by omega)

/-- No wrapped value is above the range of `int`. -/
theorem int32_lt (value : ℤ) : int32 value<2^31 := @Int.bmod_lt value (2^32) (by decide)

/-- Values that are not negative keep their value in `u64`. -/
theorem toU64_of_nonneg {value : ℤ} (hl : 0≤value) (hu : value<2^64) :
    (toU64 value : ℤ)=value := by
  rw [toU64,Int.emod_eq_of_lt hl hu,Int.toNat_of_nonneg hl]

end WorkbenchOS.LibStd
