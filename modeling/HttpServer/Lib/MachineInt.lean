import Mathlib

set_option autoImplicit false

/-!
# Two's complement integers

A fixed-width signed variable is an `ℤ` on which every assignment is followed
by the conversion to the variable's width. Inside the range the conversion
disappears.
-/
namespace MachineInt

def wrap8 (x : ℤ) : ℤ := Int.bmod x (2 ^ 8)
def wrap16 (x : ℤ) : ℤ := Int.bmod x (2 ^ 16)
def wrap32 (x : ℤ) : ℤ := Int.bmod x (2 ^ 32)
def wrap64 (x : ℤ) : ℤ := Int.bmod x (2 ^ 64)

/-- Pointers are unsigned 64-bit addresses. -/
def addr64 (x : ℤ) : ℤ := x % 2 ^ 64

theorem wrap8_eq {x : ℤ} (lo : -128 ≤ x) (hi : x < 128) : wrap8 x = x :=
  Int.bmod_eq_of_le (by norm_num; omega) (by norm_num; omega)

theorem wrap16_eq {x : ℤ} (lo : -32768 ≤ x) (hi : x < 32768) : wrap16 x = x :=
  Int.bmod_eq_of_le (by norm_num; omega) (by norm_num; omega)

theorem wrap32_eq {x : ℤ} (lo : -2147483648 ≤ x) (hi : x < 2147483648) : wrap32 x = x :=
  Int.bmod_eq_of_le (by norm_num; omega) (by norm_num; omega)

theorem wrap64_eq {x : ℤ} (lo : -9223372036854775808 ≤ x) (hi : x < 9223372036854775808) :
    wrap64 x = x :=
  Int.bmod_eq_of_le (by norm_num; omega) (by norm_num; omega)

theorem wrap8_bounds (x : ℤ) : -128 ≤ wrap8 x ∧ wrap8 x < 128 := by
  have lo := Int.le_bmod (x := x) (m := 2 ^ 8) (by norm_num)
  have hi := Int.bmod_lt (x := x) (m := 2 ^ 8) (by norm_num)
  norm_num at lo hi
  exact ⟨lo, hi⟩

theorem wrap32_bounds (x : ℤ) : -2147483648 ≤ wrap32 x ∧ wrap32 x < 2147483648 := by
  have lo := Int.le_bmod (x := x) (m := 2 ^ 32) (by norm_num)
  have hi := Int.bmod_lt (x := x) (m := 2 ^ 32) (by norm_num)
  norm_num at lo hi
  exact ⟨lo, hi⟩

theorem wrap32_emod (x : ℤ) : wrap32 x % 4294967296 = x % 4294967296 :=
  Int.bmod_emod

theorem wrap64_bounds (x : ℤ) :
    -9223372036854775808 ≤ wrap64 x ∧ wrap64 x < 9223372036854775808 := by
  have lo := Int.le_bmod (x := x) (m := 2 ^ 64) (by norm_num)
  have hi := Int.bmod_lt (x := x) (m := 2 ^ 64) (by norm_num)
  norm_num at lo hi
  exact ⟨lo, hi⟩

theorem addr64_eq {x : ℤ} (lo : 0 ≤ x) (hi : x < 18446744073709551616) : addr64 x = x :=
  Int.emod_eq_of_lt lo (by norm_num; exact hi)

theorem wrap8_succ_ne (x : ℤ) : wrap8 (x + 1) ≠ x := by
  intro h
  unfold wrap8 at h
  have key := congrArg (· % ((2 ^ 8 : ℕ) : ℤ)) h
  simp only [Int.bmod_emod] at key
  norm_num at key
  omega

end MachineInt
