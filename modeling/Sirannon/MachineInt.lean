import Mathlib.Tactic

/-!
# Machine integers

Integers are unbounded here; these are the values the 32 bit types of the
source hold after a conversion or an operation that wraps.
-/

set_option autoImplicit false

namespace Sirannon.MachineInt

@[irreducible] def int32 (x : ℤ) : ℤ := x.bmod (2^32)

@[irreducible] def uint32 (x : ℤ) : ℕ := (x % 2^32).toNat

theorem int32_of_range (x : ℤ) (h₀ : -2^31 ≤ x) (h₁ : x < 2^31) : int32 x = x := by
  rw [int32]
  exact Int.bmod_eq_of_le (by omega) (by omega)

theorem uint32_of_range (x : ℕ) (h : x < 2^32) : uint32 (x : ℤ) = x := by
  rw [uint32]
  omega

theorem uint32_of_bounds {x : ℤ} (h₀ : 0 ≤ x) (h₁ : x < 2^32) : ((uint32 x : ℕ) : ℤ) = x := by
  rw [uint32]
  omega

theorem int32_low (x : ℤ) : -2^31 ≤ int32 x := by
  rw [int32]
  exact Int.le_bmod (by norm_num)

theorem int32_high (x : ℤ) : int32 x < 2^31 := by
  rw [int32]
  exact Int.bmod_lt (by norm_num)

theorem int32_le {x : ℤ} (h : -2^31 ≤ x) : int32 x ≤ x := by
  rw [int32, Int.bmod_def]
  split_ifs <;> omega

theorem int32_emod (x : ℤ) : int32 x%2^32 = x%2^32 := by
  rw [int32]
  exact Int.bmod_emod

theorem int32_int32 (x : ℤ) : int32 (int32 x) = int32 x :=
  int32_of_range _ (int32_low x) (int32_high x)

theorem int32_int32_add (x y : ℤ) : int32 (int32 x+y) = int32 (x+y) := by
  rw [int32, int32, int32, Int.bmod_add_bmod]

theorem uint32_emod (x : ℤ) : ((uint32 x : ℕ) : ℤ) = x%2^32 := by
  rw [uint32]
  omega

theorem int32_congr {x y : ℤ} (h : x%2^32 = y%2^32) : int32 x = int32 y := by
  rw [int32, int32, Int.bmod_def, Int.bmod_def]
  norm_num at h ⊢
  rw [h]

theorem uint32_add (m n : ℕ) : uint32 (m+n) = (m+n)%2^32 := by
  rw [uint32]
  omega

theorem uint32_int32 (x : ℤ) : uint32 (int32 x) = uint32 x := by
  have hmod : x.bmod (2^32)%2^32 = x%2^32 := Int.bmod_emod
  rw [uint32, int32, hmod, uint32]

theorem int32_uint32 {x : ℤ} (h : -2^31 ≤ x ∧ x < 2^31) : int32 (uint32 x%2^32 : ℕ) = x := by
  rw [int32, uint32]
  have hmod : ((x%2^32).toNat%2^32 : ℕ) = x%2^32 := by
    push_cast
    omega
  rw [hmod, show (2:ℤ)^32 = ((2^32 : ℕ) : ℤ) by norm_num, Int.emod_bmod]
  exact Int.bmod_eq_of_le (by omega) (by omega)

end Sirannon.MachineInt
