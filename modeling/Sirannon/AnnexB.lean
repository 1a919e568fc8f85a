import Sirannon.AVCPacketizer
import Sirannon.H264Parsing

/-!
# Byte streams of NAL units

A start code of three or four bytes stands in front of every NAL unit, and a
unit ends where the next code is found. What the scanner says of a part of a
stream it says of the whole, as soon as the part reaches to the end of that code.
-/

set_option autoImplicit false

namespace Sirannon.AnnexB
open ByteMemory H264

/-- The last four bytes read are kept in `iVal`. -/
def findLoop (pBuffer : Memory) (iSize : ℕ) : ℕ → ℕ → ℕ → ℕ
  | 0, _, _ => iSize
  | fuel+1, iPos, iVal =>
    if iPos < iSize then
      let iVal := iVal*2^8%2^32+(pBuffer iPos).toNat
      if iVal%2^24 = 1 then if iVal/2^24 ≠ 0 then iPos+1-3 else iPos+1-4
      else findLoop pBuffer iSize fuel (iPos+1) iVal
    else iSize

def H264_find_NAL (pBuffer : Memory) (iSize : ℕ) : ℕ :=
  findLoop pBuffer iSize iSize (H264_is_start_code pBuffer) 0xFFFFFFFF

/-- A buffer taken apart by one search after the other. -/
def pieces : ℕ → Memory → ℕ → List Bytes
  | 0, _, _ => []
  | fuel+1, pBuffer, iSize =>
    if iSize = 0 then []
    else
      let iOffset := H264_find_NAL pBuffer iSize
      load pBuffer 0 iOffset::pieces fuel (shift pBuffer iOffset) (iSize-iOffset)

/-! ## The search on lists -/

/-- How far it is to the end of the first code, and the length of the code. -/
def firstCode : UInt8 → UInt8 → UInt8 → Bytes → Option (ℕ × ℕ)
  | _, _, _, [] => none
  | b₁, b₂, b₃, b::bs =>
    if b₂ = 0 ∧ b₃ = 0 ∧ b = 1 then some (1, if b₁ = 0 then 4 else 3)
    else (firstCode b₂ b₃ b bs).map fun r => (r.1+1, r.2)

def code (s : Bytes) : ℕ := AVC.H264_is_start_code s

/-- Before the first byte the window is full of ones. -/
def behindCode (s : Bytes) : Option (ℕ × ℕ) := firstCode 0xFF 0xFF 0xFF (s.drop (code s))

/-- The length of the first unit with its code. -/
def unitLength (s : Bytes) : ℕ :=
  match behindCode s with
  | none => s.length
  | some r => code s+r.1-r.2

/-- How much of a stream must be seen to know where the first unit ends: all of the next code,
or one byte more than there is. -/
def needed (s : Bytes) : ℕ :=
  match behindCode s with
  | none => s.length+1
  | some r => code s+r.1

/-! ## The window -/

def lastFour (b₀ b₁ b₂ b₃ : UInt8) : ℕ :=
  b₀.toNat*2^24+b₁.toNat*2^16+b₂.toNat*2^8+b₃.toNat

variable {b₀ b₁ b₂ b₃ b : UInt8} {m : Memory} {s : Bytes} {e c : ℕ}

theorem lastFour_next : lastFour b₀ b₁ b₂ b₃*2^8%2^32+b.toNat = lastFour b₁ b₂ b₃ b := by
  have h₀ := b₀.toNat_lt
  have h₁ := b₁.toNat_lt
  have h₂ := b₂.toNat_lt
  have h₃ := b₃.toNat_lt
  simp only [lastFour]
  omega

theorem lastFour_code : lastFour b₀ b₁ b₂ b₃%2^24 = 1 ↔ b₁ = 0 ∧ b₂ = 0 ∧ b₃ = 1 := by
  have h₁ := b₁.toNat_lt
  have h₂ := b₂.toNat_lt
  have h₃ := b₃.toNat_lt
  simp only [lastFour, ← UInt8.toNat_inj, UInt8.toNat_zero, UInt8.toNat_one]
  omega

theorem lastFour_front : lastFour b₀ b₁ b₂ b₃/2^24 ≠ 0 ↔ b₀ ≠ 0 := by
  have h₁ := b₁.toNat_lt
  have h₂ := b₂.toNat_lt
  have h₃ := b₃.toNat_lt
  simp only [lastFour, ne_eq, ← UInt8.toNat_inj, UInt8.toNat_zero]
  omega

/-- The loop finds the first code of what is left of the buffer. -/
theorem findLoop_first {iSize fuel iPos : ℕ} (hm : Stored m iPos s) (hsize : iPos+s.length = iSize)
    (hf : iSize ≤ fuel+iPos) :
    findLoop m iSize fuel iPos (lastFour b₀ b₁ b₂ b₃) =
      match firstCode b₁ b₂ b₃ s with
      | none => iSize
      | some r => iPos+r.1-r.2 := by
  induction s generalizing fuel iPos b₀ b₁ b₂ b₃ with
  | nil =>
    rw [List.length_nil, Nat.add_zero] at hsize
    cases fuel with
    | zero => rfl
    | succ fuel =>
      rw [findLoop, if_neg (by omega)]
      rfl
  | cons b s ih =>
    rw [stored_cons] at hm
    rw [List.length_cons] at hsize
    cases fuel with
    | zero => omega
    | succ fuel =>
      rw [findLoop, if_pos (by omega), hm.1]
      simp only [lastFour_next]
      rw [firstCode]
      by_cases hcode : b₂ = 0 ∧ b₃ = 0 ∧ b = 1
      · rw [if_pos (lastFour_code.mpr hcode), if_pos hcode]
        simp only [lastFour_front]
        by_cases hfront : b₁ = 0
        · rw [if_neg (not_not.mpr hfront), if_pos hfront]
        · rw [if_pos hfront, if_neg hfront]
      · rw [if_neg fun h => hcode (lastFour_code.mp h), if_neg hcode,
          ih hm.2 (by omega) (by omega)]
        cases hrest : firstCode b₂ b₃ b s with
        | none => rfl
        | some r =>
          show iPos+1+r.1-r.2 = iPos+(r.1+1)-r.2
          omega

/-- A part of a stream has the codes that end in it. -/
theorem firstCode_take (n : ℕ) :
    firstCode b₁ b₂ b₃ (s.take n) = (firstCode b₁ b₂ b₃ s).filter fun r => decide (r.1 ≤ n) := by
  induction s generalizing n b₁ b₂ b₃ with
  | nil => simp [firstCode]
  | cons b s ih =>
    by_cases hcode : b₂ = 0 ∧ b₃ = 0 ∧ b = 1
    · cases n with
      | zero => simp [firstCode, hcode, Option.filter]
      | succ n => simp [firstCode, hcode, Option.filter]
    · cases n with
      | zero =>
        rw [List.take_zero, firstCode, firstCode, if_neg hcode]
        cases firstCode b₂ b₃ b s <;> simp [Option.filter]
      | succ n =>
        rw [List.take_succ_cons, firstCode, firstCode, if_neg hcode, if_neg hcode, ih n]
        cases firstCode b₂ b₃ b s with
        | none => rfl
        | some r => by_cases hr : r.1 ≤ n <;> simp [Option.filter, hr]

/-- What is found is a code. -/
theorem firstCode_code (h : firstCode b₁ b₂ b₃ s = some (e, c)) :
    0 < e ∧ e ≤ s.length ∧ 3 ≤ c ∧ c ≤ 4 ∧ code ((b₁::b₂::b₃::s).drop (e+3-c)) = c := by
  induction s generalizing b₁ b₂ b₃ e with
  | nil => cases h
  | cons b s ih =>
    rw [firstCode] at h
    split_ifs at h with hcode hfront
    · rcases hcode with ⟨rfl, rfl, rfl⟩
      rcases Prod.mk.inj (Option.some.inj h) with ⟨rfl, rfl⟩
      rw [hfront]
      exact ⟨by omega, by simp, by omega, by omega, rfl⟩
    · rcases hcode with ⟨rfl, rfl, rfl⟩
      rcases Prod.mk.inj (Option.some.inj h) with ⟨rfl, rfl⟩
      exact ⟨by omega, by simp, by omega, by omega, rfl⟩
    · rcases Option.map_eq_some_iff.mp h with ⟨⟨e', c'⟩, hrest, heq⟩
      rcases Prod.mk.inj heq with ⟨rfl, rfl⟩
      rcases ih hrest with ⟨hpos, hlength, hlow, hhigh, hat⟩
      refine ⟨by omega, by rw [List.length_cons]; omega, hlow, hhigh, ?_⟩
      rw [show e'+1+3-c' = (e'+3-c')+1 by omega, List.drop_succ_cons]
      exact hat

/-! ## Codes -/

theorem code_cases (s : Bytes) :
    code s = 0 ∨ (code s = 3 ∧ ∃ t, s = 0::0::1::t) ∨ (code s = 4 ∧ ∃ t, s = 0::0::0::1::t) := by
  rw [code, AVC.H264_is_start_code.eq_def]
  split
  · exact Or.inr (Or.inl ⟨rfl, _, rfl⟩)
  · exact Or.inr (Or.inr ⟨rfl, _, rfl⟩)
  · exact Or.inl rfl

theorem code_length (s : Bytes) : code s ≤ s.length := by
  rcases code_cases s with h | ⟨h, t, rfl⟩ | ⟨h, t, rfl⟩
  · omega
  · rw [h]
    simp
  · rw [h]
    simp

theorem code_take {n : ℕ} (hcode : 0 < code s) (hn : code s ≤ n) : code (s.take n) = code s := by
  rcases code_cases s with h | ⟨h, t, rfl⟩ | ⟨h, t, rfl⟩
  · omega
  · rw [h] at hn ⊢
    obtain ⟨k, rfl⟩ := Nat.exists_eq_add_of_le' hn
    rfl
  · rw [h] at hn ⊢
    obtain ⟨k, rfl⟩ := Nat.exists_eq_add_of_le' hn
    rfl

/-- In memory a code is looked for byte by byte. -/
theorem code_stored (hm : Stored m 0 s) (hcode : 0 < code s) : H264_is_start_code m = code s := by
  rcases code_cases s with h | ⟨h, t, rfl⟩ | ⟨h, t, rfl⟩
  · omega
  · simp only [stored_cons] at hm
    rw [H264_is_start_code, if_pos ⟨hm.1, hm.2.1⟩, if_pos hm.2.2.1, h]
  · simp only [stored_cons] at hm
    have hthird : m 2 ≠ 1 := by
      rw [show m 2 = 0 from hm.2.2.1]
      decide
    rw [H264_is_start_code, if_pos ⟨hm.1, hm.2.1⟩, if_neg hthird, if_pos ⟨hm.2.2.1, hm.2.2.2.1⟩, h]

/-! ## Units -/

/-- Among the ones in front of the first byte there is no zero. -/
theorem firstCode_inside (h : firstCode 0xFF 0xFF 0xFF s = some (e, c)) : c ≤ e := by
  rcases firstCode_code h with ⟨hpos, he, hlow, hhigh, hcode⟩
  by_contra hout
  have hfront : ∀ n < 3, code ((0xFF::0xFF::0xFF::s).drop n) = 0 := by
    intro n hn
    interval_cases n <;> rfl
  rw [hfront (e+3-c) (by omega)] at hcode
  omega

/-- The next code stands where the unit ends. -/
theorem unit_found (h : behindCode s = some (e, c)) :
    unitLength s+c = needed s ∧ needed s ≤ s.length ∧ code s ≤ unitLength s ∧
      code (s.drop (unitLength s)) = c ∧ 3 ≤ c := by
  have hlength := code_length s
  have hinside := firstCode_inside h
  rcases firstCode_code h with ⟨hpos, he, hlow, hhigh, hcode⟩
  rw [List.length_drop] at he
  have hunit : unitLength s = code s+e-c := by rw [unitLength, h]
  have hneeded : needed s = code s+e := by rw [needed, h]
  refine ⟨by omega, by omega, by omega, ?_, hlow⟩
  rw [hunit, show code s+e-c = code s+(e-c) by omega, ← List.drop_drop]
  rw [show e+3-c = (e-c)+3 by omega] at hcode
  exact hcode

theorem unit_last (h : behindCode s = none) : unitLength s = s.length ∧ needed s = s.length+1 := by
  rw [unitLength, needed, h]
  exact ⟨rfl, rfl⟩

theorem unit_bounds (hcode : 0 < code s) : 3 ≤ unitLength s ∧ unitLength s ≤ s.length ∧
    unitLength s < needed s := by
  have hlength := code_length s
  have hthree : 3 ≤ code s := by
    rcases code_cases s with h | ⟨h, -⟩ | ⟨h, -⟩ <;> omega
  cases h : behindCode s with
  | none =>
    rcases unit_last h with ⟨hunit, hneeded⟩
    omega
  | some r =>
    rcases unit_found h with ⟨hsum, hinside, hunit, -, hlow⟩
    omega

/-- The search in the whole of a stream. -/
theorem find_whole (hm : Stored m 0 s) (hcode : 0 < code s) :
    H264_find_NAL m s.length = unitLength s := by
  have hlength := code_length s
  have hbehind : Stored m (code s) (s.drop (code s)) := by
    have hsplit := hm
    rw [← List.take_append_drop (code s) s, stored_append, List.length_take,
      Nat.min_eq_left hlength, Nat.zero_add] at hsplit
    exact hsplit.2
  have hones : (0xFFFFFFFF : ℕ) = lastFour 0xFF 0xFF 0xFF 0xFF := by decide
  rw [H264_find_NAL, code_stored hm hcode, hones, findLoop_first hbehind (by
    rw [List.length_drop]
    omega) (by omega)]
  rfl

/-- The search in a part of it. -/
theorem find_part {n : ℕ} (hm : Stored m 0 (s.take n)) (hcode : 0 < code s) (hn : code s ≤ n)
    (hlength : n ≤ s.length) :
    H264_find_NAL m n = if needed s ≤ n then unitLength s else n := by
  have htake := code_take hcode hn
  have hwhole := find_whole hm (by rw [htake]; exact hcode)
  rw [List.length_take, Nat.min_eq_left hlength] at hwhole
  have hbehind : behindCode (s.take n) =
      (behindCode s).filter fun r => decide (r.1 ≤ n-code s) := by
    rw [behindCode, htake, List.drop_take, firstCode_take]
    rfl
  rw [hwhole]
  cases h : behindCode s with
  | none =>
    rw [h, Option.filter_none] at hbehind
    rw [(unit_last hbehind).1, (unit_last h).2, if_neg (by omega), List.length_take,
      Nat.min_eq_left hlength]
  | some r =>
    have hneeded : needed s = code s+r.1 := by rw [needed, h]
    rw [h] at hbehind
    by_cases hr : r.1 ≤ n-code s
    · rw [if_pos (by omega), unitLength, hbehind, Option.filter_some, if_pos (decide_eq_true hr), htake,
        unitLength, h]
    · rw [Option.filter_some, if_neg (by simpa using hr)] at hbehind
      rw [(unit_last hbehind).1, if_neg (by omega), List.length_take, Nat.min_eq_left hlength]

/-! ## All units -/

/-- A stream and its units, each with its code. -/
inductive Cut : Bytes → List Bytes → Prop
  | nil : Cut [] []
  | cons (s : Bytes) (us : List Bytes) (hcode : 0 < code s) (hrest : Cut (s.drop (unitLength s)) us) :
      Cut s (s.take (unitLength s)::us)

theorem cut_flatten {us : List Bytes} (h : Cut s us) : us.flatten = s := by
  induction h with
  | nil => rfl
  | cons s us hcode hrest ih => rw [List.flatten_cons, ih, List.take_append_drop]

/-- What follows a unit begins with a code. -/
theorem rest_code (s : Bytes) : s.drop (unitLength s) = [] ∨ 0 < code (s.drop (unitLength s)) := by
  cases h : behindCode s with
  | none =>
    rw [(unit_last h).1]
    exact Or.inl List.drop_length
  | some r =>
    rcases unit_found h with ⟨-, -, -, hcode, hlow⟩
    exact Or.inr (by omega)

theorem pieces_cut {fuel : ℕ} (hm : Stored m 0 s) (hs : s = [] ∨ 0 < code s)
    (hfuel : s.length ≤ fuel) : Cut s (pieces fuel m s.length) := by
  induction fuel generalizing m s with
  | zero =>
    rw [List.length_eq_zero_iff.mp (Nat.le_zero.mp hfuel)]
    exact Cut.nil
  | succ fuel ih =>
    rcases hs with rfl | hcode
    · exact Cut.nil
    · rcases unit_bounds hcode with ⟨hlow, hinside, -⟩
      have hsplit := hm
      rw [← List.take_append_drop (unitLength s) s, stored_append, List.length_take,
        Nat.min_eq_left hinside, Nat.zero_add] at hsplit
      have hload : load m 0 (unitLength s) = s.take (unitLength s) := by
        have htake := hsplit.1
        rwa [Stored, List.length_take, Nat.min_eq_left hinside] at htake
      rw [pieces, if_neg (by omega), find_whole hm hcode]
      dsimp only
      rw [hload, ← List.length_drop]
      apply Cut.cons s _ hcode
      exact ih (stored_shift.mpr hsplit.2) (rest_code s) (by rw [List.length_drop]; omega)

/-- A buffer of this size holds each unit, and what must be seen to find its end. -/
def Fits (n : ℕ) : List Bytes → Prop
  | [] => True
  | [u] => u.length < n
  | u::v::us => u.length+code v ≤ n ∧ Fits n (v::us)

theorem cut_first {us : List Bytes} (h : Cut s us) :
    (s = [] ∧ us = []) ∨ ∃ vs, us = s.take (unitLength s)::vs ∧ 0 < code s := by
  cases h with
  | nil => exact Or.inl ⟨rfl, rfl⟩
  | cons _ vs hcode _ => exact Or.inr ⟨vs, rfl, hcode⟩

theorem code_unit (hcode : 0 < code s) : code (s.take (unitLength s)) = code s := by
  apply code_take hcode
  cases h : behindCode s with
  | none =>
    rw [(unit_last h).1]
    exact code_length s
  | some r => exact (unit_found h).2.2.1

theorem fits_cons {n : ℕ} {us : List Bytes} (hcode : 0 < code s)
    (h : Cut (s.drop (unitLength s)) us) :
    Fits n (s.take (unitLength s)::us) ↔ needed s ≤ n ∧ Fits n us := by
  rcases unit_bounds hcode with ⟨-, hinside, -⟩
  have hlength : (s.take (unitLength s)).length = unitLength s := by
    rw [List.length_take, Nat.min_eq_left hinside]
  cases hbehind : behindCode s with
  | none =>
    rcases unit_last hbehind with ⟨hunit, hneeded⟩
    rcases cut_first h with ⟨-, rfl⟩ | ⟨vs, -, hpos⟩
    · rw [Fits, Fits, hlength, hneeded, hunit, Nat.lt_iff_add_one_le, and_true]
    · rw [hunit, List.drop_length] at hpos
      exact absurd hpos (Nat.lt_irrefl 0)
  | some r =>
    rcases unit_found hbehind with ⟨hsum, -, -, hnext, hlow⟩
    rcases cut_first h with ⟨hnil, -⟩ | ⟨vs, rfl, hpos⟩
    · rw [hnil] at hnext
      have hzero : code [] = 0 := rfl
      omega
    · rw [Fits, hlength, code_unit hpos, hnext, hsum]

theorem fits_needed {n : ℕ} {us : List Bytes} (h : Cut s us) (hcode : 0 < code s) (hfits : Fits n us) :
    needed s ≤ n := by
  cases h with
  | nil => exact absurd hcode (Nat.lt_irrefl 0)
  | cons _ us _ hrest => exact ((fits_cons hcode hrest).mp hfits).1

/-- Without a one there is no code. -/
theorem firstCode_none (h : 1 ∉ s) : firstCode b₁ b₂ b₃ s = none := by
  induction s generalizing b₁ b₂ b₃ with
  | nil => rfl
  | cons b s ih =>
    have hb : ¬ (b₂ = 0 ∧ b₃ = 0 ∧ b = 1) := fun hcode => h (hcode.2.2 ▸ List.mem_cons_self)
    rw [firstCode, if_neg hb, ih fun hmem => h (List.mem_cons_of_mem b hmem)]
    rfl

end Sirannon.AnnexB
