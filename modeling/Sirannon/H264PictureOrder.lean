import Sirannon.H264SliceHeader

/-!
# Picture order count

A slice carries the low bits of the count of its picture. The high bits are
found from the previous picture, at the first slice of each picture; whether
a slice is the first is told by comparing it with the previous slice. That an
IDR picture follows one that is not is not seen when the numbers agree.
-/

set_option autoImplicit false

namespace Sirannon.H264
open ByteMemory BitString Bits MachineInt StateError

def SPS.iMax (sps : SPS) : ℕ := 2^(sps.log2_max_pic_order_cnt_lsb_minus4+4)

/-! ## Counting -/

/-- The record remembers `poc` as the count of the previous picture. -/
structure Counted (nal : NAL_t) (poc : ℤ) : Prop where
  lsb : (nal.pic_order_cnt_lsb_prev : ℤ) = poc%nal.iMax
  msb : (nal.pic_order_cnt_msb_prev : ℤ) = (poc-poc%nal.iMax)%2^32

variable {nal : NAL_t} {poc prev : ℤ}

theorem iMax_bounds {sps : SPS} (hwidths : Widths sps) : 16 ≤ sps.iMax ∧ sps.iMax ≤ 65536 := by
  have hle := hwidths.pic_order_cnt_lsb
  constructor
  · exact Nat.pow_le_pow_right (n := 2) (by omega) (show 4 ≤ _ by omega)
  · exact Nat.pow_le_pow_right (n := 2) (by omega) (show _ ≤ 16 by omega)

/-- How often the low bits have gone round from one count to the next. -/
theorem turns_between {iMax a b x y : ℤ} (hx : 0 ≤ x) (hx' : x < iMax) (hy : 0 ≤ y) (hy' : y < iMax)
    (hlow : -iMax < 2*((iMax*b+y)-(iMax*a+x))) (hhigh : 2*((iMax*b+y)-(iMax*a+x)) ≤ iMax) :
    (y < x ∧ iMax ≤ 2*(x-y) → b = a+1) ∧ (x < y ∧ iMax < 2*(y-x) → b = a-1) ∧
      (¬ (y < x ∧ iMax ≤ 2*(x-y)) → ¬ (x < y ∧ iMax < 2*(y-x)) → b = a) := by
  have hpos : 0 < iMax := hx.trans_lt hx'
  have hdiff : 2*((iMax*b+y)-(iMax*a+x)) = 2*(iMax*(b-a))+2*(y-x) := by ring
  rw [hdiff] at hlow hhigh
  have hupper : b-a ≤ 1 := by
    by_contra h
    have hmul : iMax*2 ≤ iMax*(b-a) := mul_le_mul_of_nonneg_left (by omega) hpos.le
    omega
  have hlower : -1 ≤ b-a := by
    by_contra h
    have hmul : iMax*(b-a) ≤ iMax*(-2) := mul_le_mul_of_nonneg_left (by omega) hpos.le
    omega
  have hcases : b-a = -1 ∨ b-a = 0 ∨ b-a = 1 := by omega
  rcases hcases with h | h | h <;> rw [h] at hlow hhigh <;> refine ⟨?_, ?_, ?_⟩ <;> intros <;> omega

theorem pocMsb_spec {iMax lsb_prev msb_prev lsb : ℕ} (heven : 2*(iMax/2) = iMax) (hpos : 0 < iMax)
    (hword : iMax < 2^32) (hprev : (lsb_prev : ℤ) = prev%iMax)
    (hmsb : (msb_prev : ℤ) = (prev-prev%iMax)%2^32) (hlsb : (lsb : ℤ) = poc%iMax)
    (hlow : -(iMax : ℤ) < 2*(poc-prev)) (hhigh : 2*(poc-prev) ≤ iMax) :
    (pocMsb iMax lsb_prev msb_prev lsb : ℤ) = (poc-poc%iMax)%2^32 := by
  have hpos' : (0 : ℤ) < iMax := by omega
  have hp : poc = iMax*(poc/iMax)+lsb := by rw [hlsb, Int.mul_ediv_add_emod]
  have hq : prev = iMax*(prev/iMax)+lsb_prev := by rw [hprev, Int.mul_ediv_add_emod]
  have hx := Int.emod_lt_of_pos prev hpos'
  have hy := Int.emod_lt_of_pos poc hpos'
  rw [← hprev] at hx hmsb
  rw [← hlsb] at hy ⊢
  rw [hp, hq] at hlow hhigh
  rcases turns_between (by omega) hx (by omega) hy hlow hhigh with ⟨hup, hdown, hsame⟩
  have hpmsb : poc-lsb = iMax*(poc/iMax) := by omega
  have hqmsb : prev-lsb_prev = iMax*(prev/iMax) := by omega
  rw [hqmsb] at hmsb
  rw [hpmsb, pocMsb]
  by_cases hu : lsb < lsb_prev ∧ iMax/2 ≤ lsb_prev-lsb
  · have hturn := hup ⟨by omega, by omega⟩
    rw [if_pos hu, hturn, mul_add, mul_one]
    omega
  · rw [if_neg hu]
    by_cases hd : lsb_prev < lsb ∧ iMax/2 < lsb-lsb_prev
    · have hturn := hdown ⟨by omega, by omega⟩
      rw [if_pos hd, hturn, mul_sub, mul_one]
      omega
    · have hturn := hsame (by omega) (by omega)
      rw [if_neg hd, hturn, hmsb]

/-- The count of a picture within half a turn of the previous one is found. -/
theorem find_poc_counts (htype : nal.pic_order_cnt_type = 0) (hwidths : Widths nal.toSPS)
    (hprev : nal.nal_unit_type ≠ NAL_UNIT_TYPE_SLICE_IDR → Counted nal prev)
    (hreset : nal.nal_unit_type = NAL_UNIT_TYPE_SLICE_IDR → prev = 0)
    (hlsb : (nal.pic_order_cnt_lsb : ℤ) = poc%nal.iMax)
    (hlow : -(nal.iMax : ℤ) < 2*(poc-prev)) (hhigh : 2*(poc-prev) ≤ nal.iMax)
    (hrange : -2^31 ≤ poc ∧ poc < 2^31) :
    (H264_find_poc nal).pic_order_cnt = poc ∧ Counted (H264_find_poc nal) poc := by
  rcases iMax_bounds hwidths with ⟨hmin, hmax⟩
  have heven : 2*(nal.iMax/2) = nal.iMax := by
    rw [SPS.iMax, pow_succ]
    omega
  have hword : 2^(nal.log2_max_pic_order_cnt_lsb_minus4+4)%2^32 = nal.iMax :=
    Nat.mod_eq_of_lt (by rw [← SPS.iMax]; omega)
  have hlsb_prev : ((if nal.nal_unit_type = NAL_UNIT_TYPE_SLICE_IDR then 0
      else nal.pic_order_cnt_lsb_prev : ℕ) : ℤ) = prev%nal.iMax := by
    split_ifs with hidr
    · rw [hreset hidr]
      simp
    · exact (hprev hidr).lsb
  have hmsb_prev : ((if nal.nal_unit_type = NAL_UNIT_TYPE_SLICE_IDR then 0
      else nal.pic_order_cnt_msb_prev : ℕ) : ℤ) = (prev-prev%nal.iMax)%2^32 := by
    split_ifs with hidr
    · rw [hreset hidr]
      simp
    · exact (hprev hidr).msb
  have hmsb := pocMsb_spec heven (by omega) (by omega) hlsb_prev hmsb_prev hlsb hlow hhigh
  rw [H264_find_poc, if_neg (not_not.mpr htype), hword]
  refine ⟨?_, hlsb, hmsb⟩
  dsimp only
  rw [← int32_of_range poc hrange.1 hrange.2]
  apply int32_congr
  rw [Nat.cast_add, hmsb, hlsb]
  omega

/-- The rest of the record is as it was. -/
theorem find_poc_rest (nal : NAL_t) : (H264_find_poc nal).toNALHeader = nal.toNALHeader ∧
    (H264_find_poc nal).toSPS = nal.toSPS ∧
    (H264_find_poc nal).toSliceHeader = nal.toSliceHeader := by
  rw [H264_find_poc]
  split_ifs <;> exact ⟨rfl, rfl, rfl⟩

theorem find_poc_valid (htype : nal.pic_order_cnt_type = 0) :
    (H264_find_poc nal).pic_order_cnt_valid = 1 := by
  rw [H264_find_poc, if_neg (not_not.mpr htype)]

/-! ## Pictures -/

/-- A picture with its true count, and what its slices agree on. -/
structure Picture where
  idr : Bool
  reference : Bool
  frame_num : ℕ
  idr_pic_id : ℕ
  pic_order_cnt_lsb : ℕ
  poc : ℤ
  slices : List Slice

/-- A slice of the picture, coded under a parameter set. -/
structure Slice.Of (sps : SPS) (p : Picture) (s : Slice) : Prop where
  idr : p.idr = true → H264_NAL_type s.pBuffer = NAL_UNIT_TYPE_SLICE_IDR
  other : p.idr = false → H264_NAL_type s.pBuffer = NAL_UNIT_TYPE_SLICE_NON_IDR ∨
    H264_NAL_type s.pBuffer = NAL_UNIT_TYPE_SLICE_DP_A
  reference : H264_NAL_idc s.pBuffer ≠ 0 ↔ p.reference = true
  frame_num : s.header.frame_num = p.frame_num
  idr_pic_id : p.idr = true → s.header.idr_pic_id = p.idr_pic_id
  pic_order_cnt_lsb : s.header.pic_order_cnt_lsb = p.pic_order_cnt_lsb
  size : s.iSize < 2^32
  header : H264_header_size s.pBuffer ≤ s.iSize
  fits : s.header.Fits sps s.colour_plane_id
  bits : s.bits sps <+: ofBytes (rbsp s.payload)

structure Picture.Formed (sps : SPS) (p : Picture) : Prop where
  slices : ∀ s ∈ p.slices, s.Of sps p
  nonempty : p.slices ≠ []
  lsb : (p.pic_order_cnt_lsb : ℤ) = p.poc%sps.iMax
  idr : p.idr = true → p.poc = p.pic_order_cnt_lsb

/-- A picture whose count can be found: an IDR picture has no high bits then. -/
structure Picture.Found (sps : SPS) (p : Picture) : Prop where
  legible : ∀ s ∈ p.slices, s.Legible sps
  half : p.idr = true → 2*p.poc ≤ sps.iMax
  range : -2^31 ≤ p.poc ∧ p.poc < 2^31

/-- A picture that is no IDR picture is within half a turn of the one before it. -/
def InOrder (iMax : ℕ) : ℤ → List Picture → Prop
  | _, [] => True
  | prev, p::ps => (p.idr = false → -(iMax : ℤ) < 2*(p.poc-prev) ∧ 2*(p.poc-prev) ≤ iMax) ∧
      InOrder iMax p.poc ps

/-- An IDR picture behind one that is not differs from it in a number, or has the same count. -/
def Told (q p : Picture) : Prop :=
  q.idr = false → p.idr = true → q.frame_num = p.frame_num →
    q.pic_order_cnt_lsb = p.pic_order_cnt_lsb → q.reference = p.reference → q.poc = p.poc

/-- What is parsed into the record for a slice, before pictures are looked at. -/
def Slice.newNAL (s : Slice) (nal : NAL_t) : NAL_t :=
  { s.headed nal with toSliceHeader := s.header.into (s.headed nal) }

variable {sps : SPS} {p q : Picture} {s : Slice}

/-- The types of the slices of a stream. -/
def CodedSlice (iType : ℕ) : Prop :=
  iType = NAL_UNIT_TYPE_SLICE_NON_IDR ∨ iType = NAL_UNIT_TYPE_SLICE_DP_A ∨
    iType = NAL_UNIT_TYPE_SLICE_IDR

theorem slice_coded (hs : s.Of sps p) : CodedSlice (H264_NAL_type s.pBuffer) := by
  cases hidr : p.idr with
  | true => exact Or.inr (Or.inr (hs.idr hidr))
  | false =>
    rcases hs.other hidr with h | h
    · exact Or.inl h
    · exact Or.inr (Or.inl h)

theorem coded_is_slice {iType : ℕ} (h : CodedSlice iType) : H264_is_NAL_slice iType := by
  rcases h with rfl | rfl | rfl <;> decide

theorem next_frame_coded {newNAL : NAL_t} (h : CodedSlice newNAL.nal_unit_type) :
    H264_next_frame nal newNAL = sliceBorder nal newNAL := by
  rw [H264_next_frame]
  rcases h with h | h | h <;> rw [h] <;> rfl

theorem parseSpecific_coded {pStack pBuffer : Memory} {iSize : ℕ} (h : CodedSlice nal.nal_unit_type) :
    parseSpecific pStack pBuffer iSize nal = H264_parse_SLICE pStack pBuffer iSize nal := by
  rw [parseSpecific]
  rcases h with h | h | h <;> rw [h] <;> rfl

theorem coded_not_SVC {pBuffer : Memory} (h : CodedSlice (H264_NAL_type pBuffer)) :
    ¬ H264_is_SVC pBuffer := by
  rw [H264_is_SVC]
  rcases h with h | h | h <;> rw [h] <;> decide

/-- Is the slice told from the previous one as the first of a picture? -/
def Border (nal : NAL_t) (s : Slice) : Prop := 0 < sliceBorder nal (s.newNAL nal)

instance (nal : NAL_t) (s : Slice) : Decidable (Border nal s) := inferInstanceAs (Decidable (_ < _))

/-- The count is looked for at a border, and as long as there is none. -/
theorem H264_parse_NAL_slice (nal : NAL_t) (pStack : Memory) (hs : s.Of nal.toSPS p) (hwidths : Widths nal.toSPS)
    (hlegible : s.Legible nal.toSPS) :
    H264_parse_NAL pStack s.pBuffer s.iSize nal = .ok (sliceBorder nal (s.newNAL nal),
      if Border nal s ∨ nal.pic_order_cnt_valid = 0 then
        H264_find_poc (s.newNAL nal).uncounted
      else s.newNAL nal) := by
  have hcoded := slice_coded hs
  have hparse := H264_parse_SLICE_legible pStack hs.size hs.header hs.fits hwidths hlegible
  have hspecific : parseSpecific pStack s.pBuffer s.iSize (s.headed nal) = .ok (s.newNAL nal) :=
    (parseSpecific_coded hcoded).trans hparse
  have hborder : H264_next_frame nal (s.newNAL nal) = sliceBorder nal (s.newNAL nal) :=
    next_frame_coded hcoded
  have hslice : H264_is_NAL_slice (s.newNAL nal).nal_unit_type := coded_is_slice hcoded
  have hvalid : (s.newNAL nal).pic_order_cnt_valid = nal.pic_order_cnt_valid := rfl
  rw [H264_parse_NAL, if_neg (coded_not_SVC hcoded)]
  dsimp only
  rw [← Slice.headed, hspecific]
  dsimp only
  rw [withCount, hborder]
  congr 1
  by_cases hb : Border nal s
  · have hpos : 0 < sliceBorder nal (s.newNAL nal) := hb
    rw [if_pos hpos, if_pos ⟨rfl, hslice⟩, if_pos (Or.inl hb)]
  · have hpos : ¬ 0 < sliceBorder nal (s.newNAL nal) := hb
    rw [if_neg hpos, hvalid]
    by_cases h0 : nal.pic_order_cnt_valid = 0
    · have hsame : (s.newNAL nal).uncounted = s.newNAL nal := by
        rw [← hvalid] at h0
        rw [NAL_t.uncounted, ← h0]
      rw [if_pos ⟨h0, hslice⟩, if_pos (Or.inr h0), hsame]
    · rw [if_neg (fun h => h0 h.1), if_neg (fun h => h.elim hb h0)]

/-! ## A slice after another -/

/-- The record after a slice of the picture. -/
structure After (sps : SPS) (nal : NAL_t) (p : Picture) : Prop where
  sps : nal.toSPS = sps
  coded : CodedSlice nal.nal_unit_type
  idr : nal.nal_unit_type = NAL_UNIT_TYPE_SLICE_IDR ↔ p.idr = true
  reference : nal.nal_ref_idc ≠ 0 ↔ p.reference = true
  frame_num : nal.frame_num = p.frame_num
  idr_pic_id : p.idr = true → nal.idr_pic_id = p.idr_pic_id
  lsb : nal.pic_order_cnt_lsb = p.pic_order_cnt_lsb
  valid : nal.pic_order_cnt_valid ≠ 0
  poc : nal.pic_order_cnt = p.poc
  counted : Counted nal p.poc

theorem slice_idr (hs : s.Of sps p) :
    H264_NAL_type s.pBuffer = NAL_UNIT_TYPE_SLICE_IDR ↔ p.idr = true := by
  constructor
  · intro htype
    cases hidr : p.idr with
    | true => rfl
    | false =>
      rcases hs.other hidr with h | h <;> rw [htype] at h <;> cases h
  · exact hs.idr

theorem newNAL_lsb (hs : s.Of sps p) (htype : nal.pic_order_cnt_type = 0) :
    (s.newNAL nal).pic_order_cnt_lsb = p.pic_order_cnt_lsb := by
  have hif : (s.newNAL nal).pic_order_cnt_lsb = s.header.pic_order_cnt_lsb := if_pos htype
  rw [hif, hs.pic_order_cnt_lsb]

theorem newNAL_idr_pic_id (hs : s.Of sps p) (hidr : p.idr = true) :
    (s.newNAL nal).idr_pic_id = p.idr_pic_id := by
  have hif : (s.newNAL nal).idr_pic_id = s.header.idr_pic_id := if_pos (hs.idr hidr)
  rw [hif, hs.idr_pic_id hidr]

/-- No border only where all numbers agree. -/
theorem sliceBorder_zero {newNAL : NAL_t} (hslice : H264_is_NAL_slice nal.nal_unit_type)
    (hnone : ¬ 0 < sliceBorder nal newNAL) : nal.frame_num = newNAL.frame_num ∧
      ¬ (nal.pic_order_cnt_type = newNAL.pic_order_cnt_type ∧ nal.pic_order_cnt_type = 0 ∧
        nal.pic_order_cnt_lsb ≠ newNAL.pic_order_cnt_lsb) ∧
      ¬ (nal.nal_ref_idc ≠ newNAL.nal_ref_idc ∧ (nal.nal_ref_idc = 0 ∨ newNAL.nal_ref_idc = 0)) := by
  rw [sliceBorder, if_neg (not_not.mpr hslice)] at hnone
  split_ifs at hnone with h1 h2 h3
  · exact absurd one_pos hnone
  · exact absurd one_pos hnone
  · exact absurd one_pos hnone
  · exact absurd one_pos hnone
  · exact ⟨not_not.mp h1, h2, h3⟩

theorem zero_agrees {a b : ℕ} {x y : Bool} (ha : a ≠ 0 ↔ x = true) (hb : b ≠ 0 ↔ y = true)
    (h : ¬ (a ≠ b ∧ (a = 0 ∨ b = 0))) : x = y := by
  have hab : a = 0 ↔ b = 0 := by omega
  cases x <;> cases y <;> simp_all

/-- Where no border is seen between two pictures their numbers agree. -/
theorem unseen_agrees (h : After sps nal q) (hs : s.Of sps p) (htype : sps.pic_order_cnt_type = 0)
    (hnone : ¬ Border nal s) : q.frame_num = p.frame_num ∧
      q.pic_order_cnt_lsb = p.pic_order_cnt_lsb ∧ q.reference = p.reference := by
  have htype' : nal.pic_order_cnt_type = 0 := by rw [h.sps, htype]
  rcases sliceBorder_zero (coded_is_slice h.coded) hnone with ⟨hframe, hlsb, href⟩
  refine ⟨?_, ?_, zero_agrees h.reference hs.reference href⟩
  · rw [← h.frame_num, hframe]
    exact hs.frame_num
  · rw [← h.lsb, ← newNAL_lsb hs htype']
    by_contra hne
    exact hlsb ⟨rfl, htype', hne⟩

/-- Slices of one picture have no border between them. -/
theorem no_border (h : After sps nal p) (hs : s.Of sps p) (htype : sps.pic_order_cnt_type = 0) :
    ¬ Border nal s := by
  have htype' : nal.pic_order_cnt_type = 0 := by rw [h.sps, htype]
  have hframe : nal.frame_num = (s.newNAL nal).frame_num := h.frame_num.trans hs.frame_num.symm
  have hlsb : nal.pic_order_cnt_lsb = (s.newNAL nal).pic_order_cnt_lsb :=
    h.lsb.trans (newNAL_lsb hs htype').symm
  have href : nal.nal_ref_idc ≠ 0 ↔ (s.newNAL nal).nal_ref_idc ≠ 0 :=
    h.reference.trans hs.reference.symm
  have hid : nal.nal_unit_type = NAL_UNIT_TYPE_SLICE_IDR →
      nal.idr_pic_id = (s.newNAL nal).idr_pic_id := fun hidr =>
    (h.idr_pic_id (h.idr.mp hidr)).trans (newNAL_idr_pic_id hs (h.idr.mp hidr)).symm
  rw [Border, sliceBorder, if_neg (not_not.mpr (coded_is_slice h.coded)),
    if_neg (not_not.mpr hframe), if_neg (fun hn => hn.2.2 hlsb), if_neg (by omega),
    if_neg (fun hn => hn.2.2 (hid hn.1))]
  exact lt_irrefl 0

/-- Without a border the count stays, and is right if both pictures have the same one. -/
theorem kept_after (h : After sps nal q) (hs : s.Of sps p) (htype : sps.pic_order_cnt_type = 0)
    (hpoc : q.poc = p.poc) : After sps (s.newNAL nal) p where
  sps := h.sps
  coded := slice_coded hs
  idr := slice_idr hs
  reference := hs.reference
  frame_num := hs.frame_num
  idr_pic_id := newNAL_idr_pic_id hs
  lsb := newNAL_lsb hs (by rw [h.sps, htype])
  valid := h.valid
  poc := h.poc.trans hpoc
  counted := ⟨hpoc ▸ h.counted.lsb, hpoc ▸ h.counted.msb⟩

/-- An IDR picture counts from zero, any other from the previous picture. -/
def Picture.base (p : Picture) (prev : ℤ) : ℤ := if p.idr = true then 0 else prev

theorem base_order (hp : p.Formed sps) (hf : p.Found sps) (hwidths : Widths sps)
    (horder : p.idr = false → -(sps.iMax : ℤ) < 2*(p.poc-prev) ∧ 2*(p.poc-prev) ≤ sps.iMax) :
    -(sps.iMax : ℤ) < 2*(p.poc-p.base prev) ∧ 2*(p.poc-p.base prev) ≤ sps.iMax := by
  have hmin := (iMax_bounds hwidths).1
  cases hidr : p.idr with
  | true =>
    have hlsb := hp.idr hidr
    have hhalf := hf.half hidr
    rw [Picture.base, if_pos hidr, sub_zero]
    omega
  | false =>
    rw [Picture.base, if_neg (by rw [hidr]; exact Bool.false_ne_true)]
    exact horder hidr

/-- At a border the count is found. -/
theorem found_after (hsps : nal.toSPS = sps) (hcounted : Counted nal prev) (hs : s.Of sps p)
    (hp : p.Formed sps) (hf : p.Found sps) (htype : sps.pic_order_cnt_type = 0)
    (hwidths : Widths sps)
    (horder : p.idr = false → -(sps.iMax : ℤ) < 2*(p.poc-prev) ∧ 2*(p.poc-prev) ≤ sps.iMax) :
    After sps (H264_find_poc (s.newNAL nal).uncounted) p := by
  subst hsps
  have hidr := slice_idr hs
  have hlsb : (s.newNAL nal).pic_order_cnt_lsb = p.pic_order_cnt_lsb := newNAL_lsb hs htype
  rcases base_order hp hf hwidths horder with ⟨hlow, hhigh⟩
  have hprev : (s.newNAL nal).uncounted.nal_unit_type ≠ NAL_UNIT_TYPE_SLICE_IDR →
      Counted (s.newNAL nal).uncounted (p.base prev) := by
    intro hne
    have hbase : p.base prev = prev := if_neg fun h => hne (hidr.mpr h)
    rw [hbase]
    exact ⟨hcounted.lsb, hcounted.msb⟩
  have hlow_bits : ((s.newNAL nal).uncounted.pic_order_cnt_lsb : ℤ) = p.poc%nal.iMax := by
    rw [← hp.lsb, ← hlsb]
    rfl
  have hfound : (H264_find_poc (s.newNAL nal).uncounted).pic_order_cnt = p.poc ∧
      Counted (H264_find_poc (s.newNAL nal).uncounted) p.poc :=
    find_poc_counts htype hwidths hprev (fun heq => if_pos (hidr.mp heq)) hlow_bits hlow hhigh
      hf.range
  have hvalid : (H264_find_poc (s.newNAL nal).uncounted).pic_order_cnt_valid = 1 :=
    find_poc_valid htype
  rcases find_poc_rest (s.newNAL nal).uncounted with ⟨hheader, hset, hslice⟩
  exact {
    sps := hset
    coded := by rw [hheader]; exact slice_coded hs
    idr := by rw [hheader]; exact hidr
    reference := by rw [hheader]; exact hs.reference
    frame_num := by rw [hslice]; exact hs.frame_num
    idr_pic_id := fun h => by rw [hslice]; exact newNAL_idr_pic_id hs h
    lsb := by rw [hslice]; exact hlsb
    valid := by rw [hvalid]; exact one_ne_zero
    poc := hfound.1
    counted := hfound.2 }

/-- Two counts with the same low bits and less than a turn apart are the same. -/
theorem poc_eq_of_lsb (hwidths : Widths sps) (hlsb : q.poc%sps.iMax = p.poc%sps.iMax)
    (hlow : -(sps.iMax : ℤ) < 2*(p.poc-q.poc)) (hhigh : 2*(p.poc-q.poc) ≤ sps.iMax) :
    q.poc = p.poc := by
  have hmin := (iMax_bounds hwidths).1
  have hpos : (0 : ℤ) < sps.iMax := by omega
  have hp := Int.mul_ediv_add_emod p.poc sps.iMax
  have hq := Int.mul_ediv_add_emod q.poc sps.iMax
  have hlt := Int.emod_lt_of_pos p.poc hpos
  have hnonneg := Int.emod_nonneg p.poc hpos.ne'
  rw [hlsb] at hq
  rw [← hp, ← hq] at hlow hhigh
  have hturn := (turns_between hnonneg hlt hnonneg hlt hlow hhigh).2.2 (by omega) (by omega)
  rw [← hp, ← hq, hturn]

/-- A picture whose beginning is not seen has the count of the one before it. -/
theorem unseen_poc (h : After sps nal q) (hs : s.Of sps p) (hq : q.Formed sps) (hp : p.Formed sps)
    (htype : sps.pic_order_cnt_type = 0) (hwidths : Widths sps)
    (horder : p.idr = false → -(sps.iMax : ℤ) < 2*(p.poc-q.poc) ∧ 2*(p.poc-q.poc) ≤ sps.iMax)
    (htold : Told q p) (hnone : ¬ Border nal s) : q.poc = p.poc := by
  rcases unseen_agrees h hs htype hnone with ⟨hframe, hlsb, href⟩
  have hlow : q.poc%sps.iMax = p.poc%sps.iMax := by rw [← hq.lsb, ← hp.lsb, hlsb]
  cases hidr : p.idr with
  | false => exact poc_eq_of_lsb hwidths hlow (horder hidr).1 (horder hidr).2
  | true =>
    cases hqidr : q.idr with
    | false => exact htold hqidr hidr hframe hlsb href
    | true => rw [hp.idr hidr, hq.idr hqidr, hlsb]

/-! ## Runs -/

/-- The slice is parsed into a record that satisfies `P`, whatever is on the stack. -/
def ParsesInto (nal : NAL_t) (s : Slice) (P : NAL_t → Prop) : Prop :=
  ∀ pStack, ∃ iBoundary nal', H264_parse_NAL pStack s.pBuffer s.iSize nal = .ok (iBoundary, nal') ∧
    P nal'

theorem next_picture (h : After sps nal q) (hs : s ∈ p.slices) (hq : q.Formed sps)
    (hp : p.Formed sps) (hf : p.Found sps) (htype : sps.pic_order_cnt_type = 0)
    (hwidths : Widths sps)
    (horder : p.idr = false → -(sps.iMax : ℤ) < 2*(p.poc-q.poc) ∧ 2*(p.poc-q.poc) ≤ sps.iMax)
    (htold : Told q p) : ParsesInto nal s fun nal' => After sps nal' p := by
  have hsps := h.sps
  have hof := hp.slices s hs
  intro pStack
  refine ⟨_, _, H264_parse_NAL_slice nal pStack (hsps ▸ hof) (hsps ▸ hwidths)
    (hsps ▸ hf.legible s hs), ?_⟩
  by_cases hborder : Border nal s
  · rw [if_pos (Or.inl hborder)]
    exact found_after hsps h.counted hof hp hf htype hwidths horder
  · rw [if_neg fun hor => hor.elim hborder h.valid]
    exact kept_after h hof htype (unseen_poc h hof hq hp htype hwidths horder htold hborder)

theorem same_picture (h : After sps nal p) (hs : s.Of sps p) (htype : sps.pic_order_cnt_type = 0)
    (hwidths : Widths sps) (hlegible : s.Legible sps) :
    ParsesInto nal s fun nal' => After sps nal' p := by
  have hsps := h.sps
  have hborder := no_border h hs htype
  intro pStack
  refine ⟨_, _, H264_parse_NAL_slice nal pStack (hsps ▸ hs) (hsps ▸ hwidths)
    (hsps ▸ hlegible), ?_⟩
  rw [if_neg fun hor => hor.elim hborder h.valid]
  exact kept_after h hs htype rfl

/-- The record after a parameter set at the start of a stream. -/
structure Started (sps : SPS) (nal : NAL_t) : Prop where
  sps : nal.toSPS = sps
  valid : nal.pic_order_cnt_valid = 0
  counted : Counted nal 0

theorem first_picture (h : Started sps nal) (hs : s ∈ p.slices) (hp : p.Formed sps)
    (hf : p.Found sps) (htype : sps.pic_order_cnt_type = 0) (hwidths : Widths sps)
    (horder : p.idr = false → -(sps.iMax : ℤ) < 2*(p.poc-0) ∧ 2*(p.poc-0) ≤ sps.iMax) :
    ParsesInto nal s fun nal' => After sps nal' p := by
  have hsps := h.sps
  have hof := hp.slices s hs
  intro pStack
  refine ⟨_, _, H264_parse_NAL_slice nal pStack (hsps ▸ hof) (hsps ▸ hwidths)
    (hsps ▸ hf.legible s hs), ?_⟩
  rw [if_pos (Or.inr h.valid)]
  exact found_after hsps h.counted hof hp hf htype hwidths horder

/-- Each slice leaves the count given with it. -/
def Counts : NAL_t → List (ℤ × Slice) → Prop
  | _, [] => True
  | nal, (poc, s)::rest => ParsesInto nal s fun nal' => nal'.pic_order_cnt = poc ∧ Counts nal' rest

def stream (pictures : List Picture) : List (ℤ × Slice) :=
  pictures.flatMap fun p => p.slices.map fun s => (p.poc, s)

theorem same_picture_counts {slices : List Slice} {rest : List (ℤ × Slice)} (h : After sps nal p)
    (hs : ∀ s ∈ slices, s.Of sps p ∧ s.Legible sps) (htype : sps.pic_order_cnt_type = 0)
    (hwidths : Widths sps) (hrest : ∀ nal', After sps nal' p → Counts nal' rest) :
    Counts nal (slices.map (fun s => (p.poc, s)) ++ rest) := by
  induction slices generalizing nal with
  | nil => exact hrest nal h
  | cons s slices ih =>
    rcases hs s (List.mem_cons_self ..) with ⟨hof, hlegible⟩
    intro pStack
    rcases same_picture h hof htype hwidths hlegible pStack with ⟨iBoundary, nal', hparse, hafter⟩
    exact ⟨iBoundary, nal', hparse, hafter.poc, ih hafter fun t ht => hs t (List.mem_cons_of_mem s ht)⟩

/-- The first slice of a picture decides for all of them. -/
theorem picture_counts {rest : List (ℤ × Slice)} (hp : p.Formed sps)
    (hf : p.Found sps) (htype : sps.pic_order_cnt_type = 0) (hwidths : Widths sps)
    (hfirst : ∀ s ∈ p.slices, ParsesInto nal s fun nal' => After sps nal' p)
    (hrest : ∀ nal', After sps nal' p → Counts nal' rest) :
    Counts nal (p.slices.map (fun s => (p.poc, s)) ++ rest) := by
  cases hslices : p.slices with
  | nil => exact absurd hslices hp.nonempty
  | cons s slices =>
    have hmem : ∀ t ∈ s::slices, t ∈ p.slices := fun t ht => hslices ▸ ht
    intro pStack
    rcases hfirst s (hmem s (List.mem_cons_self ..)) pStack with ⟨iBoundary, nal', hparse, hafter⟩
    refine ⟨iBoundary, nal', hparse, hafter.poc, same_picture_counts hafter ?_ htype hwidths hrest⟩
    intro t ht
    have ht' := hmem t (List.mem_cons_of_mem s ht)
    exact ⟨hp.slices t ht', hf.legible t ht'⟩

theorem pictures_count {pictures : List Picture} (h : After sps nal q) (hq : q.Formed sps)
    (htype : sps.pic_order_cnt_type = 0) (hwidths : Widths sps)
    (hformed : ∀ p ∈ pictures, p.Formed sps) (hfound : ∀ p ∈ pictures, p.Found sps)
    (horder : InOrder sps.iMax q.poc pictures) (htold : List.IsChain Told (q::pictures)) :
    Counts nal (stream pictures) := by
  induction pictures generalizing nal q with
  | nil => trivial
  | cons p pictures ih =>
    have hp := hformed p (List.mem_cons_self ..)
    have hf := hfound p (List.mem_cons_self ..)
    rw [List.isChain_cons_cons] at htold
    rw [stream, List.flatMap_cons]
    apply picture_counts hp hf htype hwidths
    · intro s hs
      exact next_picture h hs hq hp hf htype hwidths horder.1 htold.1
    · intro nal' hafter
      exact ih hafter hp (fun r hr => hformed r (List.mem_cons_of_mem p hr))
        (fun r hr => hfound r (List.mem_cons_of_mem p hr)) horder.2 htold.2

theorem stored_ok {α : Type} {f : α → NAL_t} {r : EStateM.Result SirannonException IBits α}
    (h : stored f r = .ok nal) : ∃ a, f a = nal := by
  cases r with
  | ok a o => exact ⟨a, Except.ok.inj h⟩
  | error e o => cases h

theorem H264_parse_SPS_rest {pStack pBuffer : Memory} {iSize : ℕ} {nal' : NAL_t}
    (h : H264_parse_SPS pStack pBuffer iSize nal = .ok nal') :
    nal'.toNALHeader = nal.toNALHeader ∧ nal'.toPOCFields = nal.toPOCFields := by
  rcases stored_ok h with ⟨r, hr⟩
  rw [← hr]
  exact ⟨rfl, rfl⟩

theorem parseSpecific_sps {pStack pBuffer : Memory} {iSize : ℕ}
    (h : nal.nal_unit_type = NAL_UNIT_TYPE_SPS) :
    parseSpecific pStack pBuffer iSize nal = H264_parse_SPS pStack pBuffer iSize nal := by
  rw [parseSpecific]
  exact if_pos h

/-- Nothing but a slice is given a count. -/
theorem withCount_other {newNAL : NAL_t} (hother : ¬ H264_is_NAL_slice newNAL.nal_unit_type) :
    (withCount nal newNAL).2 = newNAL.uncounted ∨ (withCount nal newNAL).2 = newNAL := by
  rw [withCount]
  by_cases hborder : 0 < H264_next_frame nal newNAL
  · rw [if_pos hborder, if_neg fun h => hother h.2]
    exact Or.inl rfl
  · rw [if_neg hborder, if_neg fun h => hother h.2]
    exact Or.inr rfl

theorem started_of_sps {pStack pBuffer : Memory} {iSize : ℕ} {iBoundary : ℤ}
    (htype : H264_NAL_type pBuffer = NAL_UNIT_TYPE_SPS)
    (hparse : H264_parse_NAL pStack pBuffer iSize NAL_t.zero = .ok (iBoundary, nal)) :
    Started nal.toSPS nal := by
  have hsvc : ¬ H264_is_SVC pBuffer := by
    rw [H264_is_SVC, htype]
    decide
  have hslice : ¬ H264_is_NAL_slice NAL_UNIT_TYPE_SPS := by decide
  rw [H264_parse_NAL, if_neg hsvc] at hparse
  dsimp only at hparse
  rw [parseSpecific_sps (by exact htype)] at hparse
  split at hparse
  · cases hparse
  · rename_i newNAL hset
    rcases H264_parse_SPS_rest hset with ⟨hheader, hcount⟩
    have hnal : (withCount NAL_t.zero newNAL).2 = nal := congrArg Prod.snd (Except.ok.inj hparse)
    have hother : ¬ H264_is_NAL_slice newNAL.nal_unit_type := by
      rw [hheader, htype]
      exact hslice
    have hstart : Started newNAL.toSPS newNAL := by
      refine ⟨rfl, ?_, ?_, ?_⟩
      · rw [hcount]
        rfl
      · rw [hcount, Int.zero_emod]
        rfl
      · rw [hcount, Int.zero_emod]
        rfl
    have hresult : (withCount NAL_t.zero newNAL).2 = newNAL.uncounted ∨
        (withCount NAL_t.zero newNAL).2 = newNAL := withCount_other hother
    rcases hresult with hkept | hkept
    · rw [hkept] at hnal
      rw [← hnal]
      exact ⟨rfl, rfl, ⟨hstart.counted.lsb, hstart.counted.msb⟩⟩
    · rw [hkept] at hnal
      rw [← hnal]
      exact hstart

/-- A stream of pictures behind a parameter set. -/
structure Stream (sps : SPS) (pictures : List Picture) : Prop where
  type : sps.pic_order_cnt_type = 0
  widths : Widths sps
  formed : ∀ p ∈ pictures, p.Formed sps
  order : InOrder sps.iMax 0 pictures

/-- Where the counts are found. -/
structure Sound (sps : SPS) (pictures : List Picture) : Prop where
  found : ∀ p ∈ pictures, p.Found sps
  told : List.IsChain Told pictures

def exampleUnit (bytes : Bytes) : Memory := store zeroed 0 bytes

def exampleSPS : Memory := exampleUnit [0, 0, 0, 1, 0x67, 0x42, 0, 0x1E, 0xF5, 0xF2]

/-- The record after the parameter set: counts of pictures and frames go up to 16. -/
def exampleStart : NAL_t :=
  match H264_parse_NAL zeroed exampleSPS 10 NAL_t.zero with
  | .ok (_, nal) => nal
  | .error _ => NAL_t.zero

theorem exampleSPS_type : H264_NAL_type exampleSPS = NAL_UNIT_TYPE_SPS := by
  decide

def exampleSlice (iHeader : UInt8) (payload : Bytes) (slice_type frame_num idr_pic_id lsb : ℕ) :
    Slice where
  pBuffer := exampleUnit ([0, 0, 0, 1, iHeader] ++ payload)
  iSize := payload.length+5
  header := ⟨0, slice_type, 0, frame_num, 0, 0, idr_pic_id, lsb⟩
  colour_plane_id := 0

def examplePicture (idr : Bool) (frame_num idr_pic_id lsb : ℕ) (poc : ℤ) (s : Slice) : Picture :=
  ⟨idr, true, frame_num, idr_pic_id, lsb, poc, [s]⟩

def idrPicture : Picture := examplePicture true 0 0 0 0 (exampleSlice 0x65 [0x88, 0x84, 0x20] 7 0 0 0)

def laterPicture : Picture :=
  examplePicture false 1 0 8 8 (exampleSlice 0x41 [0x9A, 0x31, 0x80] 5 1 0 8)

def turnedPicture : Picture :=
  examplePicture false 0 0 0 16 (exampleSlice 0x41 [0x9A, 0x01, 0x80] 5 0 0 0)

def missedPicture : Picture :=
  examplePicture true 0 1 0 0 (exampleSlice 0x65 [0x88, 0x82, 0x08] 7 0 1 0)

def examplePictures : List Picture := [idrPicture, laterPicture, turnedPicture]

/-- The parameter set is parsed, and the slices are in the bytes of their units. -/
theorem example_facts : (H264_parse_NAL zeroed exampleSPS 10 NAL_t.zero).toOption.isSome = true ∧
    (exampleStart.pic_order_cnt_type = 0 ∧ exampleStart.log2_max_frame_num_minus4 = 0 ∧
      exampleStart.log2_max_pic_order_cnt_lsb_minus4 = 0 ∧ exampleStart.frame_mbs_only_flag = 1 ∧
      exampleStart.residual_colour_transform_flag = 0) ∧
    ∀ p ∈ examplePictures ++ [missedPicture], ∀ s ∈ p.slices, s.payload.take 3 = s.payload ∧
      s.bits exampleStart.toSPS <+: ofBytes (rbsp s.payload) ∧ 3 ∉ s.payload := by
  decide +kernel

theorem exampleStart_parsed :
    ∃ iBoundary, H264_parse_NAL zeroed exampleSPS 10 NAL_t.zero = .ok (iBoundary, exampleStart) := by
  have hok := example_facts.1
  rw [exampleStart]
  cases hparse : H264_parse_NAL zeroed exampleSPS 10 NAL_t.zero with
  | ok r => exact ⟨r.1, rfl⟩
  | error e =>
    rw [hparse] at hok
    cases hok

theorem exampleStart_fields : exampleStart.pic_order_cnt_type = 0 ∧
    exampleStart.log2_max_frame_num_minus4 = 0 ∧
    exampleStart.log2_max_pic_order_cnt_lsb_minus4 = 0 ∧ exampleStart.frame_mbs_only_flag = 1 ∧
    exampleStart.residual_colour_transform_flag = 0 := example_facts.2.1

theorem exampleStart_iMax : exampleStart.toSPS.iMax = 16 := by
  rw [SPS.iMax, exampleStart_fields.2.2.1]
  rfl

theorem example_of : ∀ p ∈ examplePictures ++ [missedPicture], ∀ s ∈ p.slices,
    s.Of exampleStart.toSPS p := by
  intro p hp s hs
  have hbits := (example_facts.2.2 p hp s hs).2.1
  have hfields := exampleStart_fields
  simp only [examplePictures, List.cons_append, List.nil_append, List.mem_cons,
    List.not_mem_nil, or_false] at hp
  rcases hp with rfl | rfl | rfl | rfl <;> obtain rfl := List.mem_singleton.mp hs <;> constructor <;>
    first
      | exact hbits
      | decide
      | (constructor <;> first | decide | (simp only [hfields]; decide))

theorem example_formed : ∀ p ∈ examplePictures ++ [missedPicture], p.Formed exampleStart.toSPS := by
  intro p hp
  refine ⟨example_of p hp, ?_, ?_, ?_⟩
  · revert p
    decide
  · rw [exampleStart_iMax]
    revert p
    decide
  · revert p
    decide

theorem example_found : ∀ p ∈ examplePictures, p.Found exampleStart.toSPS := by
  intro p hp
  have hslices := example_facts.2.2 p (List.mem_append_left _ hp)
  have hlegible : ∀ s ∈ p.slices, s.Legible exampleStart.toSPS := by
    intro s hs
    obtain ⟨htake, hbits, hplain⟩ := hslices s hs
    exact ⟨3, by rw [htake]; exact hbits, plain_of_not_mem (by rw [htake]; exact hplain)⟩
  simp only [examplePictures, List.mem_cons, List.not_mem_nil, or_false] at hp
  rcases hp with rfl | rfl | rfl <;>
    exact ⟨hlegible, by rw [exampleStart_iMax]; decide, by decide⟩

theorem example_stream : Stream exampleStart.toSPS (examplePictures ++ [missedPicture]) where
  type := exampleStart_fields.1
  widths := ⟨by rw [exampleStart_fields.2.1]; decide, by rw [exampleStart_fields.2.2.1]; decide⟩
  formed := example_formed
  order := by
    rw [exampleStart_iMax]
    refine ⟨?_, ?_, ?_, ?_, trivial⟩ <;> decide

/-- The counts that parsing leaves. -/
def pocs : NAL_t → List Slice → List ℤ
  | _, [] => []
  | nal, s::slices =>
    match H264_parse_NAL zeroed s.pBuffer s.iSize nal with
    | .ok (_, nal') => nal'.pic_order_cnt::pocs nal' slices
    | .error _ => []

theorem pocs_of_counts {units : List (ℤ × Slice)} (h : Counts nal units) :
    pocs nal (units.map Prod.snd) = units.map Prod.fst := by
  induction units generalizing nal with
  | nil => rfl
  | cons u units ih =>
    rcases h zeroed with ⟨iBoundary, nal', hparse, hpoc, hrest⟩
    rw [List.map_cons, List.map_cons, pocs, hparse, ← hpoc, ← ih hrest]

end Sirannon.H264
