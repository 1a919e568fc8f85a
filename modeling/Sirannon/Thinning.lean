import Mathlib.Algebra.Order.Ring.Int
import Mathlib.Data.List.Induction
import Mathlib.Tactic.Linarith
import Mathlib.Tactic.Ring

/-!
# Thinning in proportion

Of a sequence only the part `num/den` is kept, spread evenly: an element is
kept when the whole part of the proportion grows with it. To decide this from
one element to the next it is enough to carry the remainder along.
-/

set_option autoImplicit false

namespace Thinning

variable {α : Type} {num den : ℤ}

def Keeps (num den : ℤ) (i : ℕ) : Prop := i*num/den < (i+1)*num/den

instance (i : ℕ) : Decidable (Keeps num den i) := inferInstanceAs (Decidable (_ < _))

/-- The first element has the number `i`. -/
def thinFrom (num den : ℤ) : ℕ → List α → List α
  | _, [] => []
  | i, a::as => if Keeps num den i then a::thinFrom num den (i+1) as else thinFrom num den (i+1) as

def thin (num den : ℤ) (as : List α) : List α := thinFrom num den 0 as

/-- What is carried along. -/
def carry (num den : ℤ) (i : ℕ) : ℤ := i*num%den

theorem thinFrom_append (i : ℕ) (as bs : List α) :
    thinFrom num den i (as++bs) = thinFrom num den i as ++ thinFrom num den (i+as.length) bs := by
  induction as generalizing i with
  | nil => simp [thinFrom]
  | cons a as ih =>
    have hnext : i+1+as.length = i+(a::as).length := by
      rw [List.length_cons]
      omega
    rw [List.cons_append, thinFrom, thinFrom, ih, hnext]
    by_cases hkeep : Keeps num den i
    · rw [if_pos hkeep, if_pos hkeep, List.cons_append]
    · rw [if_neg hkeep, if_neg hkeep]

theorem thin_snoc (as : List α) (a : α) :
    thin num den (as++[a]) = thin num den as ++ if Keeps num den as.length then [a] else [] := by
  rw [thin, thinFrom_append, Nat.zero_add]
  rfl

theorem carry_nonneg (num : ℤ) (h : 0 < den) (i : ℕ) : 0 ≤ carry num den i := Int.emod_nonneg _ h.ne'

theorem carry_lt (num : ℤ) (h : 0 < den) (i : ℕ) : carry num den i < den := Int.emod_lt_of_pos _ h

theorem next_quotient (h : 0 < den) (i : ℕ) :
    (i+1)*num/den = i*num/den+(carry num den i+num)/den := by
  have hsplit : ((i : ℤ)+1)*num = carry num den i+num+den*(i*num/den) := by
    have hdiv := Int.emod_add_mul_ediv (i*num) den
    rw [carry]
    linarith
  rw [hsplit, Int.add_mul_ediv_left _ _ h.ne', add_comm]

theorem quotient_of_reached {x : ℤ} (h : den ≤ x) (hx : x < 2*den) : x/den = 1 := by
  have hden : 0 < den := by omega
  have hlow : 1 ≤ x/den := (Int.le_ediv_iff_mul_le hden).2 (by omega)
  have hhigh : x/den < 2 := (Int.ediv_lt_iff_lt_mul hden).2 (by omega)
  omega

/-- An element is kept when the remainder and the proportion reach the whole. -/
theorem keeps_iff (hnum : 0 < num) (hle : num ≤ den) (i : ℕ) :
    Keeps num den i ↔ den ≤ carry num den i+num := by
  have hden : 0 < den := by omega
  have hlow := carry_nonneg num hden i
  have hhigh := carry_lt num hden i
  rw [Keeps, next_quotient hden]
  by_cases hreach : den ≤ carry num den i+num
  · rw [quotient_of_reached hreach (by omega)]
    omega
  · have hzero : (carry num den i+num)/den = 0 := Int.ediv_eq_zero_of_lt (by omega) (by omega)
    rw [hzero]
    omega

theorem carry_succ (i : ℕ) : (carry num den i+num)%den = carry num den (i+1) := by
  rw [carry, carry, Int.emod_add_emod]
  push_cast
  ring_nf

theorem carry_dropped (hnum : 0 < num) (hle : num ≤ den) {i : ℕ} (h : ¬Keeps num den i) :
    carry num den i+num = carry num den (i+1) := by
  have hden : 0 < den := by omega
  have hlow := carry_nonneg num hden i
  rw [keeps_iff hnum hle] at h
  rw [← carry_succ, Int.emod_eq_of_lt (by omega) (by omega)]

theorem thin_length (hnum : 0 < num) (hle : num ≤ den) (as : List α) :
    ((thin num den as).length : ℤ) = as.length*num/den := by
  have hden : 0 < den := by omega
  induction as using List.reverseRecOn with
  | nil => simp [thin, thinFrom]
  | append_singleton as a ih =>
    have hlow := carry_nonneg num hden as.length
    have hhigh := carry_lt num hden as.length
    rw [thin_snoc, List.length_append, List.length_append, List.length_singleton, Nat.cast_add,
      Nat.cast_add, Nat.cast_one, next_quotient hden, ih]
    by_cases hkeep : Keeps num den as.length
    · rw [if_pos hkeep, quotient_of_reached ((keeps_iff hnum hle _).1 hkeep) (by omega)]
      rfl
    · rw [if_neg hkeep, carry_dropped hnum hle hkeep,
        Int.ediv_eq_zero_of_lt (carry_nonneg num hden _) (carry_lt num hden _)]
      rfl

end Thinning
