import Mathlib.Tactic

/-!
# Prefixes of two orders of the same items

The same items stand in two lists, both with rising times. Items of equal time
may be in another order, so the prefixes of one length differ. Of a class whose
items have different times, the prefixes hold the same number up to one.
-/

set_option autoImplicit false

namespace SortedPrefixes

variable {β ρ : Type} [LinearOrder ρ] {time : β → ρ} {A B : List β}

/-- The items in front of a place are not later than those from it on. -/
theorem le_of_rising (h : A.Pairwise fun a b => time a ≤ time b) {m : ℕ} {a b : β}
    (ha : a ∈ A.take m) (hb : b ∈ A.drop m) : time a ≤ time b := by
  rw [← A.take_append_drop m, List.pairwise_append] at h
  exact h.2.2 a ha b hb

theorem mem_drop_of {m : ℕ} {b : β} (hmem : b ∈ B) (hnot : b ∉ B.take m) : b ∈ B.drop m := by
  rw [← B.take_append_drop m, List.mem_append] at hmem
  exact hmem.resolve_left hnot

/-- With a later item in the first `m`, less than `m` items are as early as `t`. -/
theorem countP_lt (h : A.Pairwise fun a b => time a ≤ time b) {m : ℕ} {t : ρ} {b : β}
    (hb : b ∈ A.take m) (hlate : t < time b) :
    A.countP (fun a => decide (time a ≤ t)) < m := by
  have hdrop : (A.drop m).countP (fun a => decide (time a ≤ t)) = 0 := by
    rw [List.countP_eq_zero]
    intro a ha
    have hle := le_of_rising h hb ha
    simpa using hlate.trans_le hle
  have htake : (A.take m).countP (fun a => decide (time a ≤ t)) < (A.take m).length := by
    rw [List.countP_lt_length_iff]
    exact ⟨b, hb, by simpa using hlate⟩
  calc A.countP (fun a => decide (time a ≤ t))
      = (A.take m++A.drop m).countP (fun a => decide (time a ≤ t)) := by
        rw [A.take_append_drop m]
    _ = (A.take m).countP (fun a => decide (time a ≤ t)) := by
        rw [List.countP_append, hdrop, Nat.add_zero]
    _ < (A.take m).length := htake
    _ ≤ m := A.length_take_le m

/-- With an item as early as `t` behind the first `m`, more than `m` items are. -/
theorem lt_countP (h : B.Pairwise fun a b => time a ≤ time b) {m : ℕ} {t : ρ} {b : β}
    (hb : b ∈ B.drop m) (hearly : time b ≤ t) :
    m < B.countP (fun a => decide (time a ≤ t)) := by
  have hlength : (B.take m).length = m := by
    rw [List.length_take]
    have := List.length_pos_of_mem hb
    rw [List.length_drop] at this
    omega
  have htake : (B.take m).countP (fun a => decide (time a ≤ t)) = m := by
    rw [← hlength]
    conv_lhs => rw [hlength]
    rw [List.countP_eq_length]
    intro a ha
    simpa using (le_of_rising h ha hb).trans hearly
  have hdrop : 0 < (B.drop m).countP (fun a => decide (time a ≤ t)) := by
    rw [List.countP_pos_iff]
    exact ⟨b, hb, by simpa using hearly⟩
  have happend : B.countP (fun a => decide (time a ≤ t)) =
      (B.take m).countP (fun a => decide (time a ≤ t))+
        (B.drop m).countP (fun a => decide (time a ≤ t)) := by
    rw [← List.countP_append, B.take_append_drop m]
  omega

/-- What two items of one class in the first `m` of one order, and not of the other, lead to. -/
theorem not_both_early (hperm : A.Perm B) (hA : A.Pairwise fun a b => time a ≤ time b)
    (hB : B.Pairwise fun a b => time a ≤ time b) {m : ℕ} {a b : β} (ha : a ∈ A.take m)
    (hb : b ∈ A.take m) (hout : a ∉ B.take m) (hlt : time a < time b) : False := by
  have hless := countP_lt hA hb hlt
  have hmore := lt_countP hB (mem_drop_of (hperm.subset (List.mem_of_mem_take ha)) hout) le_rfl
  rw [hperm.countP_eq] at hless
  omega

/-- The first `m` hold at most one item of a class more than the first `m` of the other order. -/
theorem countP_take_le (hperm : A.Perm B) (hnodup : A.Nodup)
    (hA : A.Pairwise fun a b => time a ≤ time b) (hB : B.Pairwise fun a b => time a ≤ time b)
    (p : β → Bool) (hclass : ∀ a ∈ A, ∀ b ∈ A, p a → p b → time a = time b → a = b) (m : ℕ) :
    (A.take m).countP p ≤ (B.take m).countP p+1 := by
  classical
  by_contra hgap
  have hcard : ∀ C : List β, C.Nodup → ((C.take m).filter p).toFinset.card = (C.take m).countP p := by
    intro C hC
    rw [List.toFinset_card_of_nodup ((hC.sublist (C.take_sublist m)).filter p),
      List.countP_eq_length_filter]
  have hlt : 1 < (((A.take m).filter p).toFinset \ ((B.take m).filter p).toFinset).card := by
    have hle := Finset.le_card_sdiff ((B.take m).filter p).toFinset ((A.take m).filter p).toFinset
    rw [hcard A hnodup, hcard B (hperm.nodup hnodup)] at hle
    omega
  obtain ⟨a, ha, b, hb, hne⟩ := Finset.one_lt_card.mp hlt
  rw [Finset.mem_sdiff, List.mem_toFinset, List.mem_toFinset, List.mem_filter, List.mem_filter]
    at ha hb
  have hdiff : time a ≠ time b := by
    intro heq
    exact hne (hclass a (List.mem_of_mem_take ha.1.1) b (List.mem_of_mem_take hb.1.1) ha.1.2
      hb.1.2 heq)
  rcases lt_or_gt_of_ne hdiff with h | h
  · exact not_both_early hperm hA hB ha.1.1 hb.1.1 (fun hin => ha.2 ⟨hin, ha.1.2⟩) h
  · exact not_both_early hperm hA hB hb.1.1 ha.1.1 (fun hin => hb.2 ⟨hin, hb.1.2⟩) h

end SortedPrefixes
