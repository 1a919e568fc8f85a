import Mathlib.Tactic

/-!
# What recurs every so many steps

Something fires when it is due, and is due again `n` steps later. A restart
makes it due at once. Between restarts it fires once in each window of `n`
steps.
-/

set_option autoImplicit false

namespace Recurrence

/-- A step, with how often it fired and whether there was a restart right before, or a restart. -/
inductive Beat
  | step (bRestart : Bool) (fires : ℕ)
  | restart

def Beat.fires : Beat → ℕ
  | .step _ fires => fires
  | .restart => 0

def Beat.isStep : Beat → Prop
  | .step _ _ => True
  | .restart => False

/-- A step without a restart. -/
def Beat.isPlain : Beat → Prop
  | .step bRestart _ => bRestart = false
  | .restart => False

/-- It fires in `due` steps. -/
def Regular (n : ℕ) : ℕ → List Beat → Prop
  | _, [] => True
  | _, .restart::bs => Regular n 0 bs
  | due, .step bRestart fires::bs =>
    if bRestart = true ∨ due = 0 then fires = 1 ∧ Regular n (n-1) bs
    else fires = 0 ∧ Regular n (due-1) bs

attribute [grind =] Regular

variable {n due : ℕ} {bs front rest back : List Beat} {b : Beat}

theorem regular_prefix (h : Regular n due (bs ++ back)) : Regular n due bs := by
  induction bs generalizing due with
  | nil => trivial
  | cons b bs ih =>
    cases b with
    | restart =>
      show Regular n 0 bs
      exact ih h
    | step bRestart fires =>
      rw [List.cons_append, Regular] at h
      rw [Regular]
      by_cases hdue : bRestart = true ∨ due = 0
      · rw [if_pos hdue] at h ⊢
        exact ⟨h.1, ih h.2⟩
      · rw [if_neg hdue] at h ⊢
        exact ⟨h.1, ih h.2⟩

theorem regular_suffix (hdue : due < n) (h : Regular n due (front ++ bs)) :
    ∃ due' < n, Regular n due' bs := by
  induction front generalizing due with
  | nil => exact ⟨due, hdue, h⟩
  | cons b front ih =>
    cases b with
    | restart =>
      change Regular n 0 (front ++ bs) at h
      exact ih (by omega) h
    | step bRestart fires =>
      rw [List.cons_append, Regular] at h
      by_cases hnow : bRestart = true ∨ due = 0
      · rw [if_pos hnow] at h
        exact ih (by omega) h.2
      · rw [if_neg hnow] at h
        exact ih (by omega) h.2

/-- In fewer steps than it takes to recur it fires once or not at all. -/
theorem plain_fires (h : Regular n due bs) (hplain : ∀ b ∈ bs, b.isPlain) (hlen : bs.length ≤ n) :
    (bs.map Beat.fires).sum = if due < bs.length then 1 else 0 := by
  induction bs generalizing due with
  | nil => rfl
  | cons b bs ih =>
    rw [List.forall_mem_cons] at hplain
    rw [List.length_cons] at hlen ⊢
    cases b with
    | restart => exact hplain.1.elim
    | step bRestart fires =>
      have hno : bRestart = false := hplain.1
      rw [Regular, hno] at h
      rw [List.map_cons, List.sum_cons, Beat.fires]
      by_cases hnow : due = 0
      · rw [if_pos (Or.inr hnow)] at h
        rw [ih h.2 hplain.2 (by omega), h.1, if_neg (by omega), if_pos (by omega)]
      · rw [if_neg (by simp [hnow])] at h
        rw [ih h.2 hplain.2 (by omega), h.1, Nat.zero_add]
        by_cases hsoon : due-1 < bs.length
        · rw [if_pos hsoon, if_pos (by omega)]
        · rw [if_neg hsoon, if_neg (by omega)]

/-- A window of `n` steps may begin with a restart. -/
theorem window_fires (hdue : due < n) (h : Regular n due (front ++ b::rest ++ back)) (hstep : b.isStep)
    (hplain : ∀ b ∈ rest, b.isPlain) (hlen : rest.length+1 = n) :
    ((b::rest).map Beat.fires).sum = 1 := by
  rw [List.append_assoc] at h
  obtain ⟨due', hdue', h⟩ := regular_suffix hdue h
  have hwindow := regular_prefix h
  cases b with
  | restart => exact hstep.elim
  | step bRestart fires =>
    cases bRestart with
    | true =>
      rw [Regular, if_pos (Or.inl rfl)] at hwindow
      rw [List.map_cons, List.sum_cons, plain_fires hwindow.2 hplain (by omega), if_neg (by omega)]
      exact hwindow.1
    | false =>
      have hall : ∀ b ∈ Beat.step false fires::rest, b.isPlain := by
        rw [List.forall_mem_cons]
        exact ⟨rfl, hplain⟩
      rw [plain_fires hwindow hall (by rw [List.length_cons]; omega), if_pos]
      rw [List.length_cons]
      omega

/-- It fires at the first step, and at the one behind a restart. -/
theorem first_fires (h : Regular n due (front ++ b::rest)) (hstep : b.isStep)
    (hfront : due = 0 ∧ front = [] ∨ ∃ bs, front = bs ++ [.restart]) : b.fires = 1 := by
  have hnow : ∀ due', due' = 0 → Regular n due' (b::rest) → b.fires = 1 := by
    intro due' hzero h
    cases b with
    | restart => exact hstep.elim
    | step bRestart fires =>
      rw [Regular, if_pos (Or.inr hzero)] at h
      exact h.1
  rcases hfront with ⟨hzero, rfl⟩ | ⟨bs, rfl⟩
  · exact hnow due hzero h
  · induction bs generalizing due with
    | nil => exact hnow 0 rfl h
    | cons c bs ih =>
      cases c with
      | restart =>
        change Regular n 0 _ at h
        exact ih h
      | step bRestart fires =>
        rw [List.cons_append, List.cons_append, Regular] at h
        by_cases hdue : bRestart = true ∨ due = 0
        · rw [if_pos hdue] at h
          exact ih h.2
        · rw [if_neg hdue] at h
          exact ih h.2

end Recurrence
