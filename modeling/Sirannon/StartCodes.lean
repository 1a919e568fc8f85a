import Sirannon.AnnexB

/-!
# A buffer taken apart at its start codes

One search after the other goes through any buffer, also one that does not
begin with a start code. Every unit behind the first begins with a code, with
the zero in front of it if there is one, and has no other code in it.
-/

set_option autoImplicit false

namespace Sirannon.AnnexB
open ByteMemory H264

/-- The pattern of a start code. -/
def pattern : Bytes := [0, 0, 1]

/-- A buffer `s` and the units found in it. -/
structure Scanned (s : Bytes) (us : List Bytes) : Prop where
  whole : us.flatten = s
  positive : ∀ u ∈ us, 0 < u.length
  codes : ∀ u ∈ us.tail, code u = 3 ∨ code u = 4
  longest : us.IsChain fun u v => code v = 3 → u.getLast? ≠ some 0
  clean : ∀ u ∈ us, ¬pattern <:+: u.drop (code u)

variable {b₁ b₂ b₃ : UInt8} {m : Memory} {s : Bytes} {us : List Bytes} {e c : ℕ}

/-! ## The first code -/

theorem firstCode_infix (h : pattern <:+: s) : firstCode b₁ b₂ b₃ s ≠ none := by
  induction s generalizing b₁ b₂ b₃ with
  | nil => simp [pattern] at h
  | cons b s ih =>
    rw [firstCode]
    split_ifs
    · simp
    · simp
    · rw [ne_eq, Option.map_eq_none_iff]
      rcases List.infix_cons_iff.mp h with ⟨t, hfront⟩ | hrest
      · rcases List.cons.inj hfront with ⟨rfl, rfl⟩
        show firstCode b₂ b₃ 0 (0::1::t) ≠ none
        rw [firstCode]
        split_ifs
        · simp
        · simp
        · rw [firstCode, if_pos ⟨rfl, rfl, rfl⟩]
          simp
      · exact ih hrest

/-- In front of a code of three bytes there is no zero. -/
theorem firstCode_three (h : firstCode b₁ b₂ b₃ s = some (e, 3)) :
    (b₁::b₂::b₃::s)[e-1]? ≠ some 0 := by
  induction s generalizing b₁ b₂ b₃ e with
  | nil => cases h
  | cons b s ih =>
    rw [firstCode] at h
    split_ifs at h with hcode hfront
    · exact absurd (Prod.mk.inj (Option.some.inj h)).2 (by decide)
    · rcases Prod.mk.inj (Option.some.inj h) with ⟨rfl, _⟩
      simpa using hfront
    · rcases Option.map_eq_some_iff.mp h with ⟨⟨e', c'⟩, hrest, heq⟩
      rcases Prod.mk.inj heq with ⟨rfl, rfl⟩
      have hpos := (firstCode_code hrest).1
      have hbefore := ih hrest
      rw [show e'+1-1 = (e'-1)+1 by omega, List.getElem?_cons_succ]
      exact hbefore

/-! ## A unit -/

theorem code_front {n : ℕ} (h : 0 < code (s.take n)) : code s = code (s.take n) := by
  have hwhole : s = s.take n ++ s.drop n := (List.take_append_drop n s).symm
  rcases code_cases (s.take n) with hzero | ⟨hthree, t, ht⟩ | ⟨hfour, t, ht⟩
  · omega
  · rw [hthree, hwhole, ht]
    rfl
  · rw [hfour, hwhole, ht]
    rfl

theorem code_values (h : 0 < code s) : code s = 3 ∨ code s = 4 := by
  rcases code_cases s with hzero | ⟨hthree, _⟩ | ⟨hfour, _⟩
  · omega
  · exact Or.inl hthree
  · exact Or.inr hfour

theorem unit_inside (hs : s ≠ []) : 0 < unitLength s ∧ unitLength s ≤ s.length ∧
    code s ≤ unitLength s := by
  have hlength := List.length_pos_iff.mpr hs
  cases h : behindCode s with
  | none =>
    rw [(unit_last h).1]
    exact ⟨hlength, le_rfl, code_length s⟩
  | some r =>
    rcases unit_found h with ⟨hsum, hneeded, hcode, hnext, hlow⟩
    refine ⟨?_, by omega, hcode⟩
    by_contra hzero
    have hnone : unitLength s = 0 := by omega
    rw [hnone, List.drop_zero] at hnext
    omega

/-- The code of the unit is that of the buffer. -/
theorem unit_code (s : Bytes) : code (s.take (unitLength s)) = code s := by
  by_cases hcode : 0 < code s
  · exact code_unit hcode
  · by_contra hne
    exact hcode (by rw [code_front (n := unitLength s) (by omega)]; omega)

theorem unit_clean (s : Bytes) :
    ¬pattern <:+: (s.take (unitLength s)).drop (code (s.take (unitLength s))) := by
  rw [unit_code s, List.drop_take]
  intro h
  cases hbehind : behindCode s with
  | none =>
    have hfound : firstCode 0xFF 0xFF 0xFF _ ≠ none := firstCode_infix
      (h.trans (List.take_prefix _ _).isInfix)
    exact hfound hbehind
  | some r =>
    have hinside := firstCode_code (e := r.1) (c := r.2) hbehind
    have hunit : unitLength s = code s+r.1-r.2 := by rw [unitLength, hbehind]
    have hnone : firstCode 0xFF 0xFF 0xFF ((s.drop (code s)).take (unitLength s-code s)) = none := by
      rw [firstCode_take, ← behindCode, hbehind, Option.filter_some, if_neg]
      rw [decide_eq_true_eq]
      omega
    exact firstCode_infix h hnone

theorem code_last (hcode : 0 < code s) : (s.take (code s)).getLast? = some 1 := by
  rcases code_cases s with hzero | ⟨hthree, t, rfl⟩ | ⟨hfour, t, rfl⟩
  · omega
  · rw [hthree]
    rfl
  · rw [hfour]
    rfl

/-- In front of a code of three bytes stands no zero that would belong to it. -/
theorem unit_before (h : code (s.drop (unitLength s)) = 3) :
    (s.take (unitLength s)).getLast? ≠ some 0 := by
  cases hbehind : behindCode s with
  | none =>
    rw [(unit_last hbehind).1, List.drop_length] at h
    exact absurd h (by decide)
  | some r =>
    rcases r with ⟨e, c⟩
    rcases unit_found hbehind with ⟨hsum, hneeded, hcode, hnext, hlow⟩
    have hunit : unitLength s = code s+e-c := by rw [unitLength, hbehind]
    obtain rfl : c = 3 := hnext.symm.trans h
    have hinside : 3 ≤ e := firstCode_inside hbehind
    by_cases hfirst : e = 3
    · have hat : unitLength s = code s := by omega
      rw [hat]
      by_cases hzero : code s = 0
      · rw [hzero]
        simp
      · rw [code_last (by omega)]
        decide
    · have hbefore := firstCode_three hbehind
      rw [show e-1 = (e-4)+1+1+1 by omega, List.getElem?_cons_succ, List.getElem?_cons_succ,
        List.getElem?_cons_succ, List.getElem?_drop] at hbefore
      rw [List.getLast?_eq_getElem?, List.length_take, Nat.min_eq_left (by omega),
        List.getElem?_take_of_lt (by omega), show unitLength s-1 = code s+(e-4) by omega]
      exact hbefore

/-! ## All units -/

theorem cut_codes (h : Cut s us) : ∀ u ∈ us, code u = 3 ∨ code u = 4 := by
  induction h with
  | nil => simp
  | cons s us hcode hrest ih =>
    intro u hu
    rcases List.mem_cons.mp hu with rfl | hmem
    · rw [unit_code s]
      exact code_values hcode
    · exact ih u hmem

/-- A unit, with or without a code, in front of a buffer that begins with one. -/
theorem scanned_cons (hs : s ≠ []) (hrest : Cut (s.drop (unitLength s)) us)
    (h : Scanned (s.drop (unitLength s)) us) : Scanned s (s.take (unitLength s)::us) := by
  rcases unit_inside hs with ⟨hpos, hinside, -⟩
  constructor
  · rw [List.flatten_cons, h.whole, List.take_append_drop]
  · intro u hu
    rcases List.mem_cons.mp hu with rfl | hmem
    · rw [List.length_take]
      omega
    · exact h.positive u hmem
  · exact cut_codes hrest
  · rcases cut_first hrest with ⟨_, rfl⟩ | ⟨vs, rfl, _⟩
    · exact List.isChain_singleton _
    · rw [List.isChain_cons_cons]
      refine ⟨fun hthree => ?_, h.longest⟩
      rw [unit_code] at hthree
      exact unit_before hthree
  · intro u hu
    rcases List.mem_cons.mp hu with rfl | hmem
    · exact unit_clean s
    · exact h.clean u hmem

theorem cut_scanned (h : Cut s us) : Scanned s us := by
  induction h with
  | nil => exact ⟨rfl, by simp, by simp, List.isChain_nil, by simp⟩
  | cons s us hcode hrest ih =>
    have hs : s ≠ [] := by
      rintro rfl
      exact absurd hcode (by decide)
    exact scanned_cons hs hrest ih

/-- Behind a short buffer a code may seem to be completed; there are only zeros in it then. -/
theorem code_behind (hm : Stored m 0 s) (hcode : code s = 0) :
    H264_is_start_code m = 0 ∨ s.length < H264_is_start_code m ∧ 1 ∉ s := by
  rw [H264_is_start_code]
  split_ifs with hzeros hone hfour
  · right
    rcases s with _ | ⟨a, _ | ⟨b, _ | ⟨c, t⟩⟩⟩
    · exact ⟨by decide, by simp⟩
    · simp only [stored_cons] at hm
      exact ⟨by simp, by simp [← hm.1, hzeros.1]⟩
    · simp only [stored_cons] at hm
      exact ⟨by simp, by simp [← hm.1, ← hm.2.1, hzeros.1, hzeros.2]⟩
    · simp only [stored_cons] at hm
      rw [← hm.1, ← hm.2.1, ← hm.2.2.1, hzeros.1, hzeros.2, hone] at hcode
      exact absurd hcode (by rw [code, AVC.H264_is_start_code]; decide)
  · right
    rcases s with _ | ⟨a, _ | ⟨b, _ | ⟨c, _ | ⟨d, t⟩⟩⟩⟩
    · exact ⟨by decide, by simp⟩
    · simp only [stored_cons] at hm
      exact ⟨by simp, by simp [← hm.1, hzeros.1]⟩
    · simp only [stored_cons] at hm
      exact ⟨by simp, by simp [← hm.1, ← hm.2.1, hzeros.1, hzeros.2]⟩
    · simp only [stored_cons] at hm
      exact ⟨by simp, by simp [← hm.1, ← hm.2.1, ← hm.2.2.1, hzeros.1, hzeros.2, hfour.1]⟩
    · simp only [stored_cons] at hm
      rw [← hm.1, ← hm.2.1, ← hm.2.2.1, ← hm.2.2.2.1, hzeros.1, hzeros.2, hfour.1, hfour.2]
        at hcode
      exact absurd hcode (by rw [code, AVC.H264_is_start_code]; decide)
  · exact Or.inl rfl
  · exact Or.inl rfl

/-- The search in any buffer. -/
theorem find_any (hm : Stored m 0 s) (hs : s ≠ []) : H264_find_NAL m s.length = unitLength s := by
  have hlength := List.length_pos_iff.mpr hs
  by_cases hcode : 0 < code s
  · exact find_whole hm hcode
  · have hzero : code s = 0 := by omega
    have hones : (0xFFFFFFFF : ℕ) = lastFour 0xFF 0xFF 0xFF 0xFF := by decide
    rcases code_behind hm hzero with hnone | ⟨hshort, hclean⟩
    · rw [H264_find_NAL, hnone, hones, findLoop_first hm (Nat.zero_add _) (le_refl _), unitLength,
        behindCode, hzero, List.drop_zero]
    · have hlast : behindCode s = none := by
        rw [behindCode, hzero, List.drop_zero]
        exact firstCode_none hclean
      obtain ⟨fuel, hfuel⟩ : ∃ fuel, s.length = fuel+1 := ⟨s.length-1, by omega⟩
      rw [(unit_last hlast).1, H264_find_NAL, hfuel, findLoop, if_neg (by omega)]

/-- One search after the other takes a buffer apart at its start codes. -/
theorem pieces_scanned (m : Memory) (iSize : ℕ) (hsize : 0 < iSize) :
    Scanned (load m 0 iSize) (pieces iSize m iSize) := by
  have hstored := stored_load m 0 iSize
  have hlength := load_length m 0 iSize
  generalize load m 0 iSize = s at hstored hlength
  have hs : s ≠ [] := by
    rintro rfl
    rw [List.length_nil] at hlength
    omega
  rcases unit_inside hs with ⟨hpos, hinside, -⟩
  have hsplit := hstored
  rw [← List.take_append_drop (unitLength s) s, stored_append, List.length_take,
    Nat.min_eq_left hinside, Nat.zero_add] at hsplit
  have hload : load m 0 (unitLength s) = s.take (unitLength s) := by
    have htake := hsplit.1
    rwa [Stored, List.length_take, Nat.min_eq_left hinside] at htake
  obtain ⟨fuel, rfl⟩ : ∃ fuel, iSize = fuel+1 := ⟨iSize-1, by omega⟩
  rw [pieces, if_neg (by omega), ← hlength, find_any hstored hs]
  dsimp only
  rw [hload, ← List.length_drop]
  have hrest : Cut (s.drop (unitLength s))
      (pieces fuel (shift m (unitLength s)) (s.drop (unitLength s)).length) := by
    apply pieces_cut (stored_shift.mpr hsplit.2) (rest_code s)
    rw [List.length_drop]
    omega
  exact scanned_cons hs hrest (cut_scanned hrest)

/-- A part without a code, then codes of three and of four bytes next to each other. -/
theorem pieces_scanned_codes :
    Scanned (load (store zeroed 0 [0, 7, 0, 0, 1, 0, 0, 0, 1]) 0 9)
      (pieces 9 (store zeroed 0 [0, 7, 0, 0, 1, 0, 0, 0, 1]) 9) :=
  pieces_scanned _ 9 (by decide)

end Sirannon.AnnexB
