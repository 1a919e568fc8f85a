import Mathlib.Tactic

/-!
# Scaling a time from one time base to another

The product is divided with the halves rounded away from zero. For times from
zero on the result is the nearest number of ticks: it is off by at most half a
tick, it keeps the order, and on a finer scale two times do not fall together.
-/

set_option autoImplicit false

namespace Sirannon.Rescale

def INT_MAX : ℤ := 2^31-1

structure AVRational where
  num : ℤ
  den : ℤ
  deriving DecidableEq, Repr

/-- `av_rescale_rnd` with `AV_ROUND_NEAR_INF`, from zero on. -/
def rescale_positive (a b c : ℤ) : ℤ :=
  let r := c/2
  if b ≤ INT_MAX ∧ c ≤ INT_MAX then
    if a ≤ INT_MAX then (a*b+r)/c else a/c*b + (a%c*b+r)/c
  else
    -- the long division of the 128 bit product
    ((a*b+r)/c).bmod (2^64)

def av_rescale_rnd (a b c : ℤ) : ℤ :=
  if a < 0 then -rescale_positive (-a) b c else rescale_positive a b c

def av_rescale_q (a : ℤ) (bq cq : AVRational) : ℤ :=
  av_rescale_rnd a (bq.num*cq.den) (cq.num*bq.den)

variable {a a' b c : ℤ}

theorem rescale_nearest (ha₀ : 0 ≤ a) (ha : a ≤ INT_MAX) (hb : b ≤ INT_MAX) (hc : c ≤ INT_MAX) :
    av_rescale_rnd a b c = (a*b+c/2)/c := by
  rw [av_rescale_rnd, if_neg (by omega), rescale_positive, if_pos ⟨hb, hc⟩, if_pos ha]

theorem nearest_low (hc : 0 < c) : a*b ≤ c*((a*b+c/2)/c)+c/2 := by
  have hdiv := Int.mul_ediv_add_emod (a*b+c/2) c
  have hmod := Int.emod_lt_of_pos (a*b+c/2) hc
  have hhalf : c-1-c/2 ≤ c/2 := by omega
  linarith

theorem nearest_high (hc : 0 < c) : c*((a*b+c/2)/c) ≤ a*b+c/2 := by
  have hdiv := Int.mul_ediv_add_emod (a*b+c/2) c
  have hmod := Int.emod_nonneg (a*b+c/2) hc.ne'
  linarith

theorem nearest_nonneg (ha : 0 ≤ a) (hb : 0 ≤ b) (hc : 0 < c) : 0 ≤ (a*b+c/2)/c := by
  have hab : 0 ≤ a*b := mul_nonneg ha hb
  exact Int.ediv_nonneg (by omega) hc.le

theorem nearest_mono (hb : 0 ≤ b) (hc : 0 < c) (h : a ≤ a') : (a*b+c/2)/c ≤ (a'*b+c/2)/c := by
  have hab : a*b ≤ a'*b := mul_le_mul_of_nonneg_right h hb
  exact Int.ediv_le_ediv hc (by omega)

/-- One step further on the coarser scale is at least one on the finer scale. -/
theorem nearest_strict (hb : c ≤ b) (hc : 0 < c) (h : a < a') :
    (a*b+c/2)/c < (a'*b+c/2)/c := by
  have hstep : a*b+b ≤ a'*b := by
    have hsucc : (a+1)*b ≤ a'*b := mul_le_mul_of_nonneg_right h (by omega)
    linarith
  have hone : (a*b+c/2+c)/c = (a*b+c/2)/c+1 := by
    rw [Int.add_ediv_of_dvd_right (dvd_refl c), Int.ediv_self hc.ne']
  have hmono : (a*b+c/2+c)/c ≤ (a'*b+c/2)/c := Int.ediv_le_ediv hc (by omega)
  omega

/-- A coarser scale has no larger numbers. -/
theorem nearest_le (ha : 0 ≤ a) (hb : b ≤ c) (hc : 0 < c) : (a*b+c/2)/c ≤ a := by
  have hab : a*b ≤ a*c := mul_le_mul_of_nonneg_left hb ha
  have hlt : (a*b+c/2)/c < a+1 := by
    apply Int.ediv_lt_of_lt_mul hc
    have hhalf : c/2 < c := by omega
    linarith
  omega

end Sirannon.Rescale
