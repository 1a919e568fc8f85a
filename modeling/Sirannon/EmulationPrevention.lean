import Sirannon.H264SliceHeader

/-!
# Emulation prevention

A `03` is put in front of a byte that would complete the start of a start code.
It is taken out from a window of three bytes that are already decoded, and the
two bytes behind it are read at once. So a `03` of the payload goes too when the
zeros in front of it stood on both sides of one that was put in, and the byte
behind the end is read when there is only one byte behind the last one put in.
-/

set_option autoImplicit false

namespace Sirannon.H264
open ByteMemory

/-- `x` and `y` are the last two bytes put out. -/
def emulate : UInt8 → UInt8 → Bytes → Bytes
  | _, _, [] => []
  | x, y, b::bs =>
    if x = 0 ∧ y = 0 ∧ b ≤ 3 then 3::b::emulate 3 b bs else b::emulate y b bs

/-- A payload with the bytes put in. -/
def emulated (bs : Bytes) : Bytes := emulate 0xFF 0xFF bs

/-- The offsets that the loop reads. -/
def loopReads (pBufferSrc : Memory) (iSizeSrc : ℕ) : ℕ → ℕ → ℕ → List ℕ
  | 0, _, _ => []
  | fuel+1, i, iVal =>
    if i < iSizeSrc then
      if iVal%2^24 = 3 then
        i::(i+1)::loopReads pBufferSrc iSizeSrc fuel (i+1+1)
          ((iVal/2^8*2^8+(pBufferSrc i).toNat)*2^8%2^32+(pBufferSrc (i+1)).toNat)
      else i::loopReads pBufferSrc iSizeSrc fuel (i+1) (iVal*2^8%2^32+(pBufferSrc i).toNat)
    else []

/-- The offsets that `H264_unemulate` reads. -/
def unemulateReads (pBufferSrc : Memory) (iSizeSrc : ℕ) : List ℕ :=
  [0, 1, 2] ++ loopReads pBufferSrc iSizeSrc iSizeSrc 3
    ((pBufferSrc 0).toNat*2^16+(pBufferSrc 1).toNat*2^8+(pBufferSrc 2).toNat)

/-! ## The loop on lists -/

/-- What comes out, when nothing is read behind the end. -/
def undo : Bytes → Option Bytes
  | a::b::c::d::e::bs =>
    if a = 0 ∧ b = 0 ∧ c = 3 then (undo (0::d::e::bs)).map (0::·) else (undo (b::c::d::e::bs)).map (a::·)
  | a::b::c::[d] => if a = 0 ∧ b = 0 ∧ c = 3 then none else some [a, b, c, d]
  | bs => some bs
termination_by bs => bs.length

attribute [grind =] undo

/-- What should come out. A `03` at the end is not followed by what it was put in for. -/
def payload : Bytes → Bytes
  | 0::0::3::d::bs => 0::0::payload (d::bs)
  | b::bs => b::payload bs
  | [] => []

/-- Two bytes at least follow each byte put in, and they are not `00 03` with a third one behind. -/
def Undone : Bytes → Prop
  | 0::0::3::d::bs => bs ≠ [] ∧ (∀ c rest, d::bs ≠ 0::3::c::rest) ∧ Undone (d::bs)
  | _::bs => Undone bs
  | [] => True

attribute [grind =] Undone

example : undo [0, 0, 3, 1, 2] = some [0, 0, 1, 2] := by simp [undo]

example : payload [0, 0, 3, 1, 2] = [0, 0, 1, 2] := by simp [payload]

example : Undone [0, 0, 3, 1, 2] := by simp [Undone]

variable {a b c d e x y : UInt8} {bs : Bytes} {m : ℕ}

theorem payload_cons (h : ¬ (a = 0 ∧ b = 0 ∧ c = 3)) : payload (a::b::c::bs) = a::payload (b::c::bs) := by
  rw [payload]
  intro _ _ ha h'
  cases h'
  exact h ⟨ha, rfl, rfl⟩

theorem payload_short : payload [a, b] = [a, b] := by
  simp [payload]

theorem payload_end : payload [a, b, c] = [a, b, c] := by
  simp [payload]

theorem undone_cons (h : ¬ (a = 0 ∧ b = 0 ∧ c = 3)) : Undone (a::b::c::bs) ↔ Undone (b::c::bs) := by
  rw [Undone]
  intro _ _ ha h'
  cases h'
  exact h ⟨ha, rfl, rfl⟩

theorem undone_short : Undone [a, b, c] := by
  simp [Undone]

theorem undo_hit : undo (0::0::3::d::e::bs) = (undo (0::d::e::bs)).map (0::·) := by
  rw [undo, if_pos ⟨rfl, rfl, rfl⟩]

theorem undo_last : undo [0, 0, 3, d] = none := by
  rw [undo, if_pos ⟨rfl, rfl, rfl⟩]

theorem undo_end : undo [a, b, c] = some [a, b, c] := by
  rw [undo]
  · intro _ _ _ _ _ _ h
    cases h
  · intro _ _ _ _ h
    cases h

theorem undo_pass (h : ¬ (a = 0 ∧ b = 0 ∧ c = 3)) :
    undo (a::b::c::d::bs) = (undo (b::c::d::bs)).map (a::·) := by
  cases bs with
  | nil =>
    rw [undo, if_neg h, undo_end]
    rfl
  | cons e bs => rw [undo, if_neg h]

/-- What stands behind a byte put in begins with `00 03`, and there is more. -/
def Split (bs : Bytes) : Prop := ∃ c rest, bs = 0::3::c::rest

theorem payload_unsplit (h : ¬ Split (d::e::bs)) : payload (0::d::e::bs) = 0::payload (d::e::bs) := by
  by_cases hhit : (0 : UInt8) = 0 ∧ d = 0 ∧ e = 3
  · obtain ⟨-, rfl, rfl⟩ := hhit
    cases bs with
    | nil => rw [payload_end, payload_short]
    | cons c rest => exact absurd ⟨c, rest, rfl⟩ h
  · exact payload_cons hhit

theorem undone_unsplit (h : ¬ Split (d::e::bs)) : Undone (0::d::e::bs) ↔ Undone (d::e::bs) := by
  by_cases hhit : (0 : UInt8) = 0 ∧ d = 0 ∧ e = 3
  · obtain ⟨-, rfl, rfl⟩ := hhit
    cases bs with
    | nil => simp [Undone]
    | cons c rest => exact absurd ⟨c, rest, rfl⟩ h
  · exact undone_cons hhit

theorem payload_split (h : Split (d::e::bs)) :
    (payload (0::d::e::bs)).length < (payload (d::e::bs)).length+1 := by
  obtain ⟨c, rest, h⟩ := h
  cases h
  have hthree : payload (0::3::c::rest) = 0::3::payload (c::rest) := by
    rw [payload_cons (by simp), payload]
    intro _ _ h
    cases h
  rw [hthree, payload]
  simp

theorem undone_hit : Undone (0::0::3::d::e::bs) ↔ ¬ Split (d::e::bs) ∧ Undone (d::e::bs) := by
  rw [Undone]
  constructor
  · rintro ⟨-, hsplit, h⟩
    exact ⟨fun ⟨c, rest, heq⟩ => hsplit c rest heq, h⟩
  · rintro ⟨hsplit, h⟩
    exact ⟨List.cons_ne_nil _ _, fun c rest heq => hsplit ⟨c, rest, heq⟩, h⟩

theorem payload_le (d e : UInt8) (bs : Bytes) :
    (payload (0::d::e::bs)).length ≤ (payload (d::e::bs)).length+1 := by
  by_cases hsplit : Split (d::e::bs)
  · exact (payload_split hsplit).le
  · rw [payload_unsplit hsplit]
    rfl

/-- Where nothing is read behind the end, too little comes out rather than too much. -/
theorem undo_le (s o : Bytes) (hlen : 3 ≤ s.length) (h : undo s = some o) :
    o.length ≤ (payload s).length := by
  match s, hlen with
  | [a, b, c], _ =>
    rw [undo_end] at h
    cases h
    rw [payload_end]
  | a::b::c::d::bs, _ =>
    by_cases hhit : a = 0 ∧ b = 0 ∧ c = 3
    · obtain ⟨rfl, rfl, rfl⟩ := hhit
      cases bs with
      | nil =>
        rw [undo_last] at h
        cases h
      | cons e bs =>
        rw [undo_hit] at h
        obtain ⟨o', ho', rfl⟩ := Option.map_eq_some_iff.1 h
        have ih := undo_le (0::d::e::bs) o' (by simp) ho'
        have hle := payload_le d e bs
        rw [payload, List.length_cons, List.length_cons, List.length_cons]
        omega
    · rw [undo_pass hhit] at h
      obtain ⟨o', ho', rfl⟩ := Option.map_eq_some_iff.1 h
      have ih := undo_le (b::c::d::bs) o' (by simp) ho'
      rw [payload_cons hhit, List.length_cons, List.length_cons]
      omega
termination_by s.length

theorem undo_payload (s : Bytes) (hlen : 3 ≤ s.length) (h : Undone s) : undo s = some (payload s) := by
  match s, hlen with
  | [a, b, c], _ => rw [undo_end, payload_end]
  | a::b::c::d::bs, _ =>
    by_cases hhit : a = 0 ∧ b = 0 ∧ c = 3
    · obtain ⟨rfl, rfl, rfl⟩ := hhit
      cases bs with
      | nil => exact absurd rfl h.1
      | cons e bs =>
        obtain ⟨hsplit, hrest⟩ := undone_hit.1 h
        have ih := undo_payload (0::d::e::bs) (by simp) ((undone_unsplit hsplit).2 hrest)
        rw [undo_hit, ih, payload_unsplit hsplit]
        rfl
    · have ih := undo_payload (b::c::d::bs) (by simp) ((undone_cons hhit).1 h)
      rw [undo_pass hhit, ih, payload_cons hhit]
      rfl
termination_by s.length

theorem undo_lt (s o : Bytes) (hlen : 3 ≤ s.length) (hnot : ¬ Undone s) (h : undo s = some o) :
    o.length < (payload s).length := by
  match s, hlen with
  | [a, b, c], _ => exact absurd undone_short hnot
  | a::b::c::d::bs, _ =>
    by_cases hhit : a = 0 ∧ b = 0 ∧ c = 3
    · obtain ⟨rfl, rfl, rfl⟩ := hhit
      cases bs with
      | nil =>
        rw [undo_last] at h
        cases h
      | cons e bs =>
        rw [undo_hit] at h
        obtain ⟨o', ho', rfl⟩ := Option.map_eq_some_iff.1 h
        rw [payload, List.length_cons, List.length_cons, List.length_cons]
        by_cases hsplit : Split (d::e::bs)
        · have hle := undo_le (0::d::e::bs) o' (by simp) ho'
          have hlt := payload_split hsplit
          omega
        · have hrest : ¬ Undone (0::d::e::bs) := by
            intro hundone
            exact hnot (undone_hit.2 ⟨hsplit, (undone_unsplit hsplit).1 hundone⟩)
          have ih := undo_lt (0::d::e::bs) o' (by simp) hrest ho'
          rw [payload_unsplit hsplit, List.length_cons] at ih
          omega
    · rw [undo_pass hhit] at h
      obtain ⟨o', ho', rfl⟩ := Option.map_eq_some_iff.1 h
      have ih := undo_lt (b::c::d::bs) o' (by simp) (fun hu => hnot ((undone_cons hhit).2 hu)) ho'
      rw [payload_cons hhit, List.length_cons, List.length_cons]
      omega
termination_by s.length

theorem undo_iff {s : Bytes} (hlen : 3 ≤ s.length) : undo s = some (payload s) ↔ Undone s := by
  constructor
  · intro h
    by_contra hnot
    have hlt := undo_lt s _ hlen hnot h
    omega
  · exact undo_payload s hlen

/-! ## The loop on memory -/

theorem loop_undo (src : Memory) {fuel i iVal : ℕ} (hfuel : m ≤ i+fuel) (hval : iVal%2^24 = window a b c) :
    match undo (a::b::c::load src i (m-i)) with
    | some o => putOut src m fuel i iVal = o ∧ ∀ j ∈ loopReads src m fuel i iVal, j < m
    | none => ∃ j ∈ loopReads src m fuel i iVal, m ≤ j := by
  induction fuel generalizing i iVal a b c with
  | zero =>
    rw [Nat.sub_eq_zero_of_le (by omega), load, undo_end]
    constructor
    · exact putOut_end hval (Or.inl rfl)
    · intro j hj
      cases hj
  | succ fuel ih =>
    by_cases hi : i < m
    · rw [load_next hi]
      by_cases hhit : a = 0 ∧ b = 0 ∧ c = 3
      · obtain ⟨rfl, rfl, rfl⟩ := hhit
        have hthree : iVal%2^24 = 3 := hval
        by_cases hlast : i+1 < m
        · rcases putOut_emulation hval hi with ⟨hout, hnext⟩
          have hrest := ih (i := i+1+1) (by omega) hnext
          rw [load_next hlast, undo_hit]
          cases hundo : undo (0::src i::src (i+1)::load src (i+1+1) (m-(i+1+1))) with
          | none =>
            rw [hundo] at hrest
            obtain ⟨j, hj, hle⟩ := hrest
            refine ⟨j, ?_, hle⟩
            rw [loopReads, if_pos hi, if_pos hthree]
            exact List.mem_cons_of_mem _ (List.mem_cons_of_mem _ hj)
          | some o =>
            rw [hundo] at hrest
            constructor
            · rw [hout, hrest.1]
            · intro j hj
              rw [loopReads, if_pos hi, if_pos hthree, List.mem_cons, List.mem_cons] at hj
              rcases hj with rfl | rfl | hj
              · exact hi
              · exact hlast
              · exact hrest.2 j hj
        · rw [Nat.sub_eq_zero_of_le (by omega), load, undo_last]
          refine ⟨i+1, ?_, by omega⟩
          rw [loopReads, if_pos hi, if_pos hthree]
          exact List.mem_cons_of_mem _ List.mem_cons_self
      · have hthree : iVal%2^24 ≠ 3 := by
          rw [hval]
          exact fun h => hhit (window_eq_three.mp h)
        rcases putOut_step hval hi hhit with ⟨hout, hnext⟩
        have hrest := ih (i := i+1) (by omega) hnext
        rw [undo_pass hhit]
        cases hundo : undo (b::c::src i::load src (i+1) (m-(i+1))) with
        | none =>
          rw [hundo] at hrest
          obtain ⟨j, hj, hle⟩ := hrest
          refine ⟨j, ?_, hle⟩
          rw [loopReads, if_pos hi, if_neg hthree]
          exact List.mem_cons_of_mem _ hj
        | some o =>
          rw [hundo] at hrest
          constructor
          · rw [hout, hrest.1]
          · intro j hj
            rw [loopReads, if_pos hi, if_neg hthree, List.mem_cons] at hj
            rcases hj with rfl | hj
            · exact hi
            · exact hrest.2 j hj
    · rw [Nat.sub_eq_zero_of_le (by omega), load, undo_end]
      constructor
      · exact putOut_end hval (Or.inr hi)
      · intro j hj
        rw [loopReads, if_neg hi] at hj
        cases hj

/-! ## The bytes put in -/

theorem payload_first (h : x ≠ 0) : payload (x::bs) = x::payload bs := by
  rw [payload]
  intro _ _ h' _
  exact h h'

/-- `x` and `y` are already put out. -/
theorem payload_emulate (x y : UInt8) (bs : Bytes) : payload (x::y::emulate x y bs) = x::y::bs := by
  induction bs generalizing x y with
  | nil => exact payload_short
  | cons b bs ih =>
    rw [emulate]
    by_cases hput : x = 0 ∧ y = 0 ∧ b ≤ 3
    · rw [if_pos hput]
      obtain ⟨rfl, rfl, hb⟩ := hput
      have hrest := ih 3 b
      rw [payload_first (by decide)] at hrest
      rw [payload, (List.cons.inj hrest).2]
    · rw [if_neg hput]
      have hhit : ¬ (x = 0 ∧ y = 0 ∧ b = 3) := by
        rintro ⟨hx, hy, rfl⟩
        exact hput ⟨hx, hy, by decide⟩
      rw [payload_cons hhit, ih]

theorem payload_emulated (bs : Bytes) : payload (emulated bs) = bs := by
  have h := payload_emulate 0xFF 0xFF bs
  rw [payload_first (by decide), payload_first (by decide)] at h
  exact (List.cons.inj (List.cons.inj h).2).2

theorem emulate_length (x y : UInt8) (bs : Bytes) : bs.length ≤ (emulate x y bs).length := by
  induction bs generalizing x y with
  | nil => exact le_refl _
  | cons b bs ih =>
    rw [emulate]
    split_ifs with hput
    · have hrest := ih 3 b
      simp only [List.length_cons]
      omega
    · have hrest := ih y b
      simp only [List.length_cons]
      omega

/-- A payload of three bytes or more is given back, and nothing behind it is read, as long as two
bytes follow each byte put in that are not `00 03` with a third one behind. -/
theorem unemulate_iff (pBuffer : Memory) (bs : Bytes) (hlen : 3 ≤ bs.length) :
    (H264_unemulate (store pBuffer 0 (emulated bs)) (emulated bs).length = bs ∧
      ∀ i ∈ unemulateReads (store pBuffer 0 (emulated bs)) (emulated bs).length,
        i < (emulated bs).length) ↔ Undone (emulated bs) := by
  have hlong : 3 ≤ (emulated bs).length := hlen.trans (emulate_length _ _ bs)
  have hload : load (store pBuffer 0 (emulated bs)) 0 (emulated bs).length = emulated bs := load_store _ _ _
  generalize store pBuffer 0 (emulated bs) = src at hload ⊢
  generalize hm : (emulated bs).length = m at hload hlong ⊢
  have hfirst : load src 0 m = src 0::src 1::src 2::load src 3 (m-3) := by
    conv_lhs => rw [← Nat.add_sub_cancel' hlong, load_add]
    rfl
  have hrun := loop_undo src (by omega : m ≤ 3+m) (window_lt (a := src 0) (b := src 1) (c := src 2))
  rw [← hfirst, hload] at hrun
  have hundo := undo_iff (s := emulated bs) (by omega)
  rw [payload_emulated] at hundo
  have hreads : ∀ j, j ∈ unemulateReads src m ↔
      j ∈ [0, 1, 2] ∨ j ∈ loopReads src m m 3 (window (src 0) (src 1) (src 2)) := by
    intro j
    rw [unemulateReads, List.mem_append]
    rfl
  constructor
  · rintro ⟨hout, hread⟩
    cases hrest : undo (emulated bs) with
    | none =>
      rw [hrest] at hrun
      obtain ⟨j, hj, hle⟩ := hrun
      have hlt := hread j ((hreads j).2 (Or.inr hj))
      omega
    | some o =>
      rw [hrest] at hrun hundo
      exact hundo.1 (congrArg some (hrun.1.symm.trans hout))
  · intro hundone
    rw [hundo.2 hundone] at hrun
    refine ⟨hrun.1, ?_⟩
    intro j hj
    rcases (hreads j).1 hj with hj | hj
    · simp only [List.mem_cons, List.not_mem_nil, or_false] at hj
      omega
    · exact hrun.2 j hj

theorem unemulate_one_zero :
    H264_unemulate (store zeroed 0 (emulated [0, 0, 1, 7])) (emulated [0, 0, 1, 7]).length = [0, 0, 1, 7] ∧
      ∀ i ∈ unemulateReads (store zeroed 0 (emulated [0, 0, 1, 7])) (emulated [0, 0, 1, 7]).length,
        i < (emulated [0, 0, 1, 7]).length :=
  (unemulate_iff zeroed [0, 0, 1, 7] (by decide)).2 (by simp [emulated, emulate, Undone])

/-- The payload `00 00 00 03 07` loses its `03`; of `00 00 01` the byte behind the end is read. -/
theorem not_undone : emulated [0, 0, 0, 3, 7] = [0, 0, 3, 0, 3, 7] ∧
    H264_unemulate (store zeroed 0 [0, 0, 3, 0, 3, 7]) 6 = [0, 0, 0, 7, 0] ∧
    emulated [0, 0, 1] = [0, 0, 3, 1] ∧
    H264_unemulate (store zeroed 0 [0, 0, 3, 1]) 4 = [0, 0, 1, 0] ∧
    4 ∈ unemulateReads (store zeroed 0 [0, 0, 3, 1]) 4 := by
  decide

end Sirannon.H264
