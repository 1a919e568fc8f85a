import Mathlib.Tactic

/-!
# A buffer of bounded size

Slices are added one after the other; one that no longer fits is left out,
and the next one may fit again. The buffer then is a prefix of all slices just
when those added behind a gap repeat what stands in their place.
-/

set_option autoImplicit false

namespace BoundedBuffer

variable {α : Type} (room : ℕ)

def keep (buffer slice : List α) : List α :=
  if buffer.length+slice.length ≤ room then buffer ++ slice else buffer

attribute [grind =] keep

def kept (slices : List (List α)) : List α := slices.foldl (keep room) []

/-- The length of what is kept, from the lengths of the slices. -/
def filled (sizes : List ℕ) : ℕ := sizes.foldl (fun n k => if n+k ≤ room then n+k else n) 0

/-- A slice kept behind one that was left out is found at its place in the whole. -/
def Repeats (slices : List (List α)) : Prop :=
  ∀ front slice back, slices = front ++ slice::back →
    filled room (front.map List.length) ≠ (front.map List.length).sum →
    filled room (front.map List.length)+slice.length ≤ room →
      slice <+: slices.flatten.drop (filled room (front.map List.length))

variable {room} {slices front : List (List α)} {slice : List α}

theorem kept_snoc : kept room (slices ++ [slice]) = keep room (kept room slices) slice := by
  rw [kept, List.foldl_append]
  rfl

theorem filled_snoc (sizes : List ℕ) (k : ℕ) : filled room (sizes ++ [k]) =
    if filled room sizes+k ≤ room then filled room sizes+k else filled room sizes := by
  rw [filled, List.foldl_append]
  rfl

theorem kept_length : (kept room slices).length = filled room (slices.map List.length) := by
  induction slices using List.reverseRecOn with
  | nil => rfl
  | append_singleton slices slice ih =>
    rw [kept_snoc, List.map_append, List.map_singleton, filled_snoc, ← ih, keep]
    split_ifs
    · rw [List.length_append]
    · rfl

theorem filled_le (sizes : List ℕ) : filled room sizes ≤ room ∧ filled room sizes ≤ sizes.sum := by
  induction sizes using List.reverseRecOn with
  | nil => exact ⟨Nat.zero_le room, le_refl 0⟩
  | append_singleton sizes k ih =>
    rw [filled_snoc, List.sum_append, List.sum_singleton]
    split_ifs with h
    · omega
    · omega

/-- As long as all of it fits, nothing is left out. -/
theorem filled_all {sizes : List ℕ} (h : sizes.sum ≤ room) : filled room sizes = sizes.sum := by
  induction sizes using List.reverseRecOn with
  | nil => rfl
  | append_singleton sizes k ih =>
    rw [List.sum_append, List.sum_singleton] at h ⊢
    rw [filled_snoc, ih (by omega), if_pos h]

/-- What was too much did not fit, so little room is left. -/
theorem filled_full {sizes : List ℕ} {k : ℕ} (hk : ∀ n ∈ sizes, n ≤ k) (h : room < sizes.sum) :
    room < filled room sizes+k := by
  induction sizes using List.reverseRecOn with
  | nil => exact absurd h (Nat.not_lt_zero room)
  | append_singleton sizes n ih =>
    have hn := hk n (List.mem_append_right sizes List.mem_cons_self)
    rw [List.sum_append, List.sum_singleton] at h
    rw [filled_snoc]
    by_cases hsum : room < sizes.sum
    · have hfull := ih (fun m hm => hk m (List.mem_append_left [n] hm)) hsum
      split_ifs <;> omega
    · rw [filled_all (not_lt.1 hsum), if_neg (by omega)]
      omega

/-- When nothing is left out, all slices are kept as they are. -/
theorem kept_all (h : filled room (slices.map List.length) = (slices.map List.length).sum) :
    kept room slices = slices.flatten := by
  induction slices using List.reverseRecOn with
  | nil => rfl
  | append_singleton slices slice ih =>
    have hle : _ ≤ room ∧ filled room (slices.map List.length) ≤ _ := filled_le (slices.map List.length)
    rw [List.map_append, List.map_singleton, filled_snoc, List.sum_append, List.sum_singleton] at h
    rw [kept_snoc, keep, kept_length, List.flatten_append, List.flatten_singleton]
    by_cases hfits : filled room (slices.map List.length)+slice.length ≤ room
    · rw [if_pos hfits] at h ⊢
      rw [ih (by omega)]
    · rw [if_neg hfits] at h
      omega

theorem kept_grows (back : List (List α)) : kept room slices <+: kept room (slices ++ back) := by
  induction back using List.reverseRecOn with
  | nil => rw [List.append_nil]
  | append_singleton back slice ih =>
    rw [← List.append_assoc, kept_snoc, keep]
    split_ifs
    · exact ih.trans (List.prefix_append _ _)
    · exact ih

theorem repeats_all (h : (slices.map List.length).sum ≤ room) : Repeats room slices := by
  intro front slice back hslices hgap
  rw [hslices, List.map_append, List.sum_append] at h
  exact absurd (filled_all (by omega)) hgap

/-- A list behind a prefix of the whole. -/
theorem append_prefix_iff {a b whole : List α} (h : a <+: whole) :
    a ++ b <+: whole ↔ b <+: whole.drop a.length := by
  obtain ⟨rest, rfl⟩ := h
  rw [List.prefix_append_right_inj, List.drop_left]

theorem kept_prefix_iff : kept room slices <+: slices.flatten ↔ Repeats room slices := by
  constructor
  · intro h front slice back hslices _ hfits
    rw [← kept_length] at hfits ⊢
    have hfront : kept room (front ++ [slice]) <+: slices.flatten := by
      have hgrows : kept room (front ++ [slice]) <+: kept room (front ++ [slice] ++ back) := kept_grows back
      rw [List.append_assoc, List.singleton_append, ← hslices] at hgrows
      exact hgrows.trans h
    rw [kept_snoc, keep, if_pos hfits] at hfront
    rw [← append_prefix_iff ((List.prefix_append _ _).trans hfront)]
    exact hfront
  · intro h
    suffices hall : ∀ front back, slices = front ++ back → kept room front <+: slices.flatten from
      hall slices [] (List.append_nil slices).symm
    intro front
    induction front using List.reverseRecOn with
    | nil =>
      intro back _
      exact List.nil_prefix
    | append_singleton front slice ih =>
      intro back hslices
      rw [List.append_assoc, List.singleton_append] at hslices
      have hfront := ih (slice::back) hslices
      rw [kept_snoc, keep]
      by_cases hfits : (kept room front).length+slice.length ≤ room
      · rw [if_pos hfits]
        by_cases hgap : filled room (front.map List.length) = (front.map List.length).sum
        · rw [kept_all hgap, hslices, List.flatten_append, List.flatten_cons, ← List.append_assoc]
          exact List.prefix_append _ _
        · rw [append_prefix_iff hfront, kept_length]
          rw [kept_length] at hfits
          exact h front slice back hslices hgap hfits
      · rw [if_neg hfits]
        exact hfront

end BoundedBuffer
