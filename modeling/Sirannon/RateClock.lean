import Mathlib.Algebra.Order.Ring.Defs
import Mathlib.Tactic.Linarith
import Mathlib.Tactic.Ring

/-!
# Clocks with a speed

A clock starts at a given time and from then on runs at a speed that can be
changed, and can be halted. Its reading is the sum, over the stretches between
the changes, of the length of the stretch times the speed in force there.
-/

set_option autoImplicit false

namespace Sirannon.Timing

structure RateClock (K : Type) where
  start : K
  last : K
  reading : K
  speed : K
  halted : Bool

variable {K : Type} [CommRing K] [LinearOrder K]

/-- The part of the time from `a` to `b` that comes after `start`. -/
def after (start a b : K) : K := max b start-max a start

def RateClock.rate (c : RateClock K) : K := if c.halted then 0 else c.speed

attribute [grind =] RateClock.rate

def RateClock.read (c : RateClock K) (t : K) : K := c.reading+c.rate*after c.start c.last t

def RateClock.moved (c : RateClock K) (t : K) : RateClock K :=
  { c with last := t, reading := c.read t }

def RateClock.halt (c : RateClock K) : RateClock K := { c with halted := true }

def RateClock.go (c : RateClock K) : RateClock K := { c with halted := false }

/-- A speed that is not positive is no speed. -/
def RateClock.setSpeed (c : RateClock K) (x : K) : RateClock K :=
  if 0 < x then { c with speed := x } else c

theorem after_self (start a : K) : after start a a = 0 := sub_self _

theorem after_before {start a b : K} (h : b ≤ start) (h' : a ≤ start) : after start a b = 0 := by
  rw [after, max_eq_right h, max_eq_right h', sub_self]

theorem after_across {start a b : K} (h : start ≤ b) (h' : a ≤ start) :
    after start a b = b-start := by
  rw [after, max_eq_left h, max_eq_right h']

theorem after_running {start a b : K} (h : start ≤ a) (h' : a ≤ b) : after start a b = b-a := by
  rw [after, max_eq_left (h.trans h'), max_eq_left h]

theorem after_trans (start a b d : K) : after start a b+after start b d = after start a d := by
  simp only [after]
  ring

theorem read_last (c : RateClock K) : c.read c.last = c.reading := by
  rw [RateClock.read, after_self, mul_zero, add_zero]

theorem read_halted {c : RateClock K} (h : c.halted = true) (t : K) : c.read t = c.reading := by
  rw [RateClock.read, RateClock.rate, if_pos h, zero_mul, add_zero]

theorem read_going {c : RateClock K} (h : c.halted = false) (t : K) :
    c.read t = c.reading+c.speed*after c.start c.last t := by
  rw [RateClock.read, RateClock.rate, if_neg (by simp [h])]

theorem moved_read (c : RateClock K) (t t' : K) : (c.moved t).read t' = c.read t' := by
  show c.reading+c.rate*after c.start c.last t+c.rate*after c.start t t' = c.read t'
  rw [RateClock.read, ← after_trans c.start c.last t t']
  ring

theorem halt_read (c : RateClock K) : c.halt.read c.last = c.read c.last :=
  (read_last c.halt).trans (read_last c).symm

theorem go_read (c : RateClock K) : c.go.read c.last = c.read c.last :=
  (read_last c.go).trans (read_last c).symm

theorem setSpeed_last (c : RateClock K) (x : K) : (c.setSpeed x).last = c.last := by
  rw [RateClock.setSpeed]
  split_ifs <;> rfl

theorem setSpeed_read (c : RateClock K) (x : K) : (c.setSpeed x).read c.last = c.read c.last := by
  rw [RateClock.setSpeed]
  split_ifs
  · exact (read_last { c with speed := x }).trans (read_last c).symm
  · rfl

theorem rate_nonneg {c : RateClock K} (h : 0 ≤ c.speed) : 0 ≤ c.rate := by
  rw [RateClock.rate]
  split_ifs
  · exact le_rfl
  · exact h

theorem rate_le {c : RateClock K} (h : 0 ≤ c.speed) : c.rate ≤ c.speed := by
  rw [RateClock.rate]
  split_ifs
  · exact h
  · exact le_rfl

theorem read_sub (c : RateClock K) (t t' : K) : c.read t'-c.read t = c.rate*after c.start t t' := by
  simp only [RateClock.read]
  rw [← after_trans c.start c.last t t']
  ring

section Ordered

variable [IsStrictOrderedRing K]

theorem after_nonneg (start : K) {a b : K} (h : a ≤ b) : 0 ≤ after start a b :=
  sub_nonneg.mpr (max_le_max h (le_refl start))

theorem after_le (start : K) {a b : K} (h : a ≤ b) : after start a b ≤ b-a := by
  rcases le_total b start with hb | hb
  · rw [after_before hb (h.trans hb)]
    exact sub_nonneg.mpr h
  · rcases le_total a start with ha | ha
    · rw [after_across hb ha]
      exact sub_le_sub_left ha b
    · rw [after_running ha h]

/-- A clock does not go back. -/
theorem read_mono {c : RateClock K} (h : 0 ≤ c.speed) {t t' : K} (ht : t ≤ t') :
    c.read t ≤ c.read t' := by
  have hsub := read_sub c t t'
  have hpos := mul_nonneg (rate_nonneg h) (after_nonneg c.start ht)
  linarith

/-- Nor does it jump. -/
theorem read_step {c : RateClock K} (h : 0 ≤ c.speed) {t t' : K} (ht : t ≤ t') :
    c.read t' ≤ c.read t+c.speed*(t'-t) := by
  have hsub := read_sub c t t'
  have hpos := mul_le_mul (rate_le h) (after_le c.start ht) (after_nonneg c.start ht) h
  linarith

end Ordered

end Sirannon.Timing
