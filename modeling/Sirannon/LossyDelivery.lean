import Sirannon.StateError

/-!
# Lossy delivery

Items are sent in groups of pieces, and some of the pieces arrive, in order.
What a receiver puts out is judged against the items sent: it holds something
for some of them, in their order, and nothing else.
-/

set_option autoImplicit false

namespace LossyDelivery
open StateError

variable {α β γ κ ε σ : Type}

/-- The output holds, in order, what was made of some of the items sent. -/
def Recovers (R : α → β → Prop) (sent : List α) (out : List β) : Prop :=
  ∃ kept, kept.Sublist sent ∧ List.Forall₂ R kept out

theorem recovers_nil (R : α → β → Prop) (sent : List α) : Recovers R sent [] :=
  ⟨[], List.nil_sublist sent, List.Forall₂.nil⟩

theorem recovers_append {R : α → β → Prop} {sent sent' : List α} {out out' : List β}
    (h : Recovers R sent out) (h' : Recovers R sent' out') :
    Recovers R (sent ++ sent') (out ++ out') := by
  rcases h with ⟨kept, hsub, hall⟩
  rcases h' with ⟨kept', hsub', hall'⟩
  exact ⟨kept ++ kept', hsub.append hsub', List.rel_append hall hall'⟩

theorem recovers_skip {R : α → β → Prop} {sent : List α} {out : List β} (a : α)
    (h : Recovers R sent out) : Recovers R (sent ++ [a]) out := by
  have := recovers_append h (recovers_nil R [a])
  rwa [List.append_nil] at this

theorem recovers_emit {R : α → β → Prop} {sent : List α} {out : List β} {a : α} {b : β}
    (h : Recovers R sent out) (hab : R a b) : Recovers R (sent ++ [a]) (out ++ [b]) :=
  recovers_append h ⟨[a], List.Sublist.refl [a], List.Forall₂.cons hab List.Forall₂.nil⟩

theorem recovers_of_sublist {R : α → β → Prop} {sent sent' : List α} {out : List β}
    (h : Recovers R sent out) (hsub : sent.Sublist sent') : Recovers R sent' out := by
  rcases h with ⟨kept, hkept, hall⟩
  exact ⟨kept, hkept.trans hsub, hall⟩

/-- No item is put out twice when the items sent differ in a key. -/
theorem recovers_nodup {R : α → β → Prop} {sent : List α} {out : List β} (key : α → κ)
    (key' : β → κ) (hkey : ∀ a b, R a b → key' b = key a) (h : Recovers R sent out)
    (hsent : (sent.map key).Nodup) : (out.map key').Nodup := by
  rcases h with ⟨kept, hsub, hall⟩
  have hmap : out.map key' = kept.map key := by
    clear hsub
    induction hall with
    | nil => rfl
    | cons hab _ ih => rw [List.map_cons, List.map_cons, hkey _ _ hab, ih]
  rw [hmap]
  exact (hsub.map key).nodup hsent

/-! ## Runs over a list -/

/-- An invariant over the items done is carried through a run over the rest. -/
theorem run_items {recv : α → EStateM ε σ Unit} {I : List α → σ → Prop} {E : ε → σ → Prop}
    (all : List α)
    (hstep : ∀ done a rest, all = done ++ a :: rest →
      Triple (I done) (recv a) (fun _ => I (done ++ [a])) E) :
    Triple (I []) (forM all recv) (fun _ => I all) E := by
  suffices h : ∀ rest done, all = done ++ rest →
      Triple (I done) (forM rest recv) (fun _ => I all) E from h all [] rfl
  intro rest
  induction rest with
  | nil =>
    intro done hall
    rw [List.append_nil] at hall
    rw [List.forM_nil, hall]
    exact triple_pure _ fun _ h => h
  | cons a rest ih =>
    intro done hall
    rw [List.forM_cons]
    apply triple_bind (hstep done a rest hall)
    intro _
    exact ih (done ++ [a]) (by rw [hall, List.append_assoc]; rfl)

/-- Group by group, whatever pieces arrive, the invariant over the groups sent is kept. -/
theorem run_groups {recv : α → EStateM ε σ Unit} {I : List γ → σ → Prop} {E : ε → σ → Prop}
    (pieces : γ → List α) (all : List γ)
    (hstep : ∀ done g rest, all = done ++ g :: rest → ∀ sub : List α, sub.Sublist (pieces g) →
      Triple (I done) (forM sub recv) (fun _ => I (done ++ [g])) E)
    (arrived : List α) (harrived : arrived.Sublist (all.flatMap pieces)) :
    Triple (I []) (forM arrived recv) (fun _ => I all) E := by
  suffices h : ∀ rest done, all = done ++ rest → ∀ sub : List α, sub.Sublist (rest.flatMap pieces) →
      Triple (I done) (forM sub recv) (fun _ => I all) E from h all [] rfl arrived harrived
  intro rest
  induction rest with
  | nil =>
    intro done hall sub hsub
    rw [List.append_nil] at hall
    rw [List.sublist_nil.mp hsub, List.forM_nil, hall]
    exact triple_pure _ fun _ h => h
  | cons g rest ih =>
    intro done hall sub hsub
    rw [List.flatMap_cons] at hsub
    rcases List.sublist_append_iff.mp hsub with ⟨sub₁, sub₂, rfl, h₁, h₂⟩
    rw [List.forM_append]
    apply triple_bind (hstep done g rest hall sub₁ h₁)
    intro _
    exact ih (done ++ [g]) (by rw [hall, List.append_assoc]; rfl) sub₂ h₂

/-! ## Groups opened by a mark -/

/-- Each marked item with the unmarked ones behind it. -/
def groups (marked : α → Bool) : List α → List (List α)
  | [] => []
  | a::as =>
    if marked a then (a::as.takeWhile fun b => ¬ marked b)::groups marked as
    else groups marked as

variable {marked : α → Bool}

theorem takeWhile_unmarked (as bs : List α) (b : α) (h : marked b = true) :
    (as ++ b::bs).takeWhile (fun c => ¬ marked c) = as.takeWhile fun c => ¬ marked c := by
  induction as with
  | nil => simp [h]
  | cons a as ih =>
    by_cases ha : marked a = true
    · simp [ha]
    · simpa [ha] using ih

theorem groups_append (as bs : List α) (b : α) (h : marked b = true) :
    groups marked (as ++ b::bs) = groups marked as ++ groups marked (b::bs) := by
  induction as with
  | nil => rfl
  | cons a as ih =>
    by_cases ha : marked a = true
    · rw [List.cons_append, groups, if_pos ha, groups, if_pos ha, ih,
        takeWhile_unmarked as bs b h, List.cons_append]
    · rw [List.cons_append, groups, if_neg ha, groups, if_neg ha, ih]

theorem groups_unmarked {as : List α} (h : ∀ a ∈ as, marked a = false) :
    groups marked as = [] := by
  induction as with
  | nil => rfl
  | cons a as ih =>
    rw [groups, h a List.mem_cons_self]
    exact ih fun b hb => h b (List.mem_cons_of_mem a hb)

/-- A marked item and unmarked ones behind it are the start of a group. -/
theorem groups_cons {a : α} {as : List α} (bs : List α) (ha : marked a = true)
    (h : ∀ b ∈ as, marked b = false) :
    groups marked (a::(as ++ bs)) =
      (a::(as ++ bs.takeWhile fun b => ¬ marked b))::groups marked (as ++ bs) := by
  have hall : ∀ b ∈ as, (decide ¬ marked b = true) = true := by
    intro b hb
    simp [h b hb]
  rw [groups, if_pos ha, List.takeWhile_append_of_pos hall]

theorem groups_closed {a : α} {as : List α} (ha : marked a = true)
    (h : ∀ b ∈ as, marked b = false) : groups marked (a::as) = [a::as] := by
  have hcons := groups_cons [] ha h
  rw [List.append_nil, List.takeWhile_nil, List.append_nil, groups_unmarked h] at hcons
  exact hcons

/-- The groups in front of a marked item are groups of the whole. -/
theorem groups_sublist (as bs : List α) (b : α) (h : marked b = true) :
    (groups marked as).Sublist (groups marked (as ++ b::bs)) := by
  rw [groups_append as bs b h]
  exact List.sublist_append_left _ _

end LossyDelivery
