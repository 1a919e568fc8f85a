import Sirannon.ExpGolomb
import Sirannon.StateError
import Sirannon.MachineInt

/-!
# Parsing NAL units

One record holds what the last parameter set, the last slice and the counting
of pictures have left behind. A NAL unit is parsed into a copy of it, which
takes its place in the end. A unit is given by a pointer, so what stands
behind its end is part of the model too.
-/

set_option autoImplicit false

namespace Sirannon.H264
open ByteMemory BitString Bits MachineInt StateError

abbrev Bytes := List UInt8

structure NALHeader where
  nal_ref_idc : ℕ
  nal_unit_type : ℕ

structure SVCHeader where
  svc : ℕ
  idr_flag : ℕ
  priority_id : ℕ
  temporal_id : ℕ
  dependency_id : ℕ
  quality_id : ℕ
  use_base_prediction_flag : ℕ
  discardable_flag : ℕ
  output_flag : ℕ
  no_inter_layer_pred_flag : ℕ

structure SPS where
  profile_idc : ℕ
  level_idc : ℕ
  seq_parameter_set_id : ℕ
  chroma_format_idc : ℕ
  residual_colour_transform_flag : ℕ
  bit_depth_luma_minus8 : ℕ
  bit_depth_chroma_minus8 : ℕ
  qpprime_y_zero_transform_bypass_flag : ℕ
  seq_scaling_matrix_present_flag : ℕ
  log2_max_frame_num_minus4 : ℕ
  pic_order_cnt_type : ℕ
  log2_max_pic_order_cnt_lsb_minus4 : ℕ
  delta_pic_order_always_zero_flag : ℕ
  offset_for_non_ref_pic : ℤ
  offset_for_top_to_bottom_field : ℤ
  num_ref_frames_in_pic_order_cnt_cycle : ℕ
  offset_for_ref_frame : List ℤ
  num_ref_frames : ℕ
  gaps_in_frame_num_value_allowed_flag : ℕ
  pic_width_in_mbs_minus1 : ℕ
  pic_height_in_map_units_minus1 : ℕ
  frame_mbs_only_flag : ℕ
  mb_adpative_frame_field_flag : ℕ
  direct_8x8_inference_flag : ℕ
  frame_cropping_flag : ℕ
  frame_crop_left_offset : ℕ
  frame_crop_right_offset : ℕ
  frame_crop_top_offset : ℕ
  frame_crop_bottom_offset : ℕ
  vui : ℕ

structure VUIState where
  timing_info_present_flag : ℕ
  num_units_in_tick : ℕ
  time_scale : ℕ
  fixed_frame_rate_flag : ℕ

structure SliceHeader where
  first_mb_in_slice : ℕ
  slice_type : ℕ
  pic_parameter_set : ℕ
  frame_num : ℕ
  field_pic_flag : ℕ
  bottom_field_flag : ℕ
  idr_pic_id : ℕ
  pic_order_cnt_lsb : ℕ

structure POCFields where
  pic_order_cnt_valid : ℕ
  pic_order_cnt : ℤ
  pic_order_cnt_msb : ℕ
  pic_order_cnt_msb_prev : ℕ
  pic_order_cnt_lsb_prev : ℕ

structure NAL_t extends NALHeader, SVCHeader, SPS, VUIState, SliceHeader, POCFields

/-- As `memset` leaves it. -/
def NAL_t.zero : NAL_t where
  toNALHeader := ⟨0, 0⟩
  toSVCHeader := ⟨0, 0, 0, 0, 0, 0, 0, 0, 0, 0⟩
  toSPS := ⟨0, 0, 0, 0, 0, 0, 0, 0, 0, 0, 0, 0, 0, 0, 0, 0, List.replicate 256 0, 0, 0, 0, 0, 0, 0,
    0, 0, 0, 0, 0, 0, 0⟩
  toVUIState := ⟨0, 0, 0, 0⟩
  toSliceHeader := ⟨0, 0, 0, 0, 0, 0, 0, 0⟩
  toPOCFields := ⟨0, 0, 0, 0, 0⟩

/-! ## Types -/

def NAL_UNIT_TYPE_SLICE_NON_IDR : ℕ := 0x01
def NAL_UNIT_TYPE_SLICE_DP_A : ℕ := 0x02
def NAL_UNIT_TYPE_SLICE_DP_B : ℕ := 0x03
def NAL_UNIT_TYPE_SLICE_DP_C : ℕ := 0x04
def NAL_UNIT_TYPE_SLICE_IDR : ℕ := 0x05
def NAL_UNIT_TYPE_SEI : ℕ := 0x06
def NAL_UNIT_TYPE_SPS : ℕ := 0x07
def NAL_UNIT_TYPE_PPS : ℕ := 0x08
def NAL_UNIT_TYPE_ACCESS_UNIT_DELIM : ℕ := 0x09
def NAL_UNIT_TYPE_END_OF_SEQ : ℕ := 0x0A
def NAL_UNIT_TYPE_END_OF_STREAM : ℕ := 0x0B
def NAL_UNIT_TYPE_FILLER_DATA : ℕ := 0x0C
def NAL_UNIT_TYPE_SPS_EXT : ℕ := 0x0D
def NAL_UNIT_TYPE_PREFIX : ℕ := 0x0E
def NAL_UNIT_TYPE_SPS_SVC : ℕ := 0x0F
def NAL_UNIT_TYPE_SLICE_SVC : ℕ := 0x14

def H264_is_start_code (pBuffer : Memory) : ℕ :=
  if pBuffer 0 = 0 ∧ pBuffer 1 = 0 then
    if pBuffer 2 = 1 then 3
    else if pBuffer 2 = 0 ∧ pBuffer 3 = 1 then 4
    else 0
  else 0

def H264_NAL_type (pBuffer : Memory) : ℕ := (pBuffer (H264_is_start_code pBuffer)).toNat%2^5

def H264_NAL_idc (pBuffer : Memory) : ℕ := (pBuffer (H264_is_start_code pBuffer)).toNat/2^5%2^2

def H264_is_SVC (pBuffer : Memory) : Prop :=
  H264_NAL_type pBuffer = NAL_UNIT_TYPE_SLICE_SVC ∨ H264_NAL_type pBuffer = NAL_UNIT_TYPE_PREFIX

instance (pBuffer : Memory) : Decidable (H264_is_SVC pBuffer) :=
  inferInstanceAs (Decidable (_ ∨ _))

def H264_header_size (pBuffer : Memory) : ℕ :=
  let iHeader := H264_is_start_code pBuffer
  let iType := (pBuffer iHeader).toNat%2^5
  if iType = NAL_UNIT_TYPE_SLICE_SVC ∨ iType = NAL_UNIT_TYPE_PREFIX then iHeader+3+1
  else iHeader+1

def H264_is_NAL_slice (iType : ℕ) : Prop :=
  iType ∈ [NAL_UNIT_TYPE_SLICE_NON_IDR, NAL_UNIT_TYPE_SLICE_DP_A, NAL_UNIT_TYPE_SLICE_DP_B,
    NAL_UNIT_TYPE_SLICE_DP_C, NAL_UNIT_TYPE_SLICE_IDR, NAL_UNIT_TYPE_SLICE_SVC]

instance (iType : ℕ) : Decidable (H264_is_NAL_slice iType) :=
  inferInstanceAs (Decidable (_ ∈ _))

/-! ## Emulation prevention -/

/-- The last three bytes of `iVal` are still to be put out; the fourth one goes out. -/
def unemulateLoop (pBufferSrc : Memory) (iSizeSrc : ℕ) : ℕ → ℕ → ℕ → Bytes × ℕ
  | 0, _, iVal => ([], iVal)
  | fuel+1, i, iVal =>
    if i < iSizeSrc then
      let bEmulation := decide (iVal%2^24 = 3)
      let iVal := if bEmulation then iVal/2^8*2^8+(pBufferSrc i).toNat else iVal
      let i := if bEmulation then i+1 else i
      let iVal := iVal*2^8%2^32+(pBufferSrc i).toNat
      let r := unemulateLoop pBufferSrc iSizeSrc fuel (i+1) iVal
      (UInt8.ofNat (iVal/2^24)::r.1, r.2)
    else ([], iVal)

def H264_unemulate (pBufferSrc : Memory) (iSizeSrc : ℕ) : Bytes :=
  let iVal := (pBufferSrc 0).toNat*2^16+(pBufferSrc 1).toNat*2^8+(pBufferSrc 2).toNat
  let r := unemulateLoop pBufferSrc iSizeSrc iSizeSrc 3 iVal
  r.1 ++ [UInt8.ofNat (r.2/2^16), UInt8.ofNat (r.2/2^8), UInt8.ofNat r.2]

/-! ## Headers -/

abbrev Reading := EStateM SirannonException IBits

def read (iBits : ℕ) : Reading ℕ := do
  let b ← get
  set (b.read (iBits%2^8)).2
  pure (b.read (iBits%2^8)).1

def read_uev : Reading ℕ := do
  let b ← get
  let r ← ofExcept b.read_uev
  set r.2
  pure r.1

def read_sev : Reading ℤ := do
  let b ← get
  let r ← ofExcept b.read_sev
  set r.2
  pure r.1

section
variable {α : Type}

def given (c : Prop) [Decidable c] (x : Reading Unit) : Reading Unit := if c then x else pure ()

/-- Without the condition the field keeps its value. -/
def readIf (c : Prop) [Decidable c] (x : Reading α) (v : α) : Reading α := if c then x else pure v

end

def scalingLoop : ℕ → ℕ → ℕ → Reading Unit
  | 0, _, _ => pure ()
  | n+1, lastScale, nextScale => do
    let nextScale ← readIf (nextScale ≠ 0) (do
      let deltaScale ← read_sev
      pure (uint32 (lastScale+deltaScale+256)%256)) nextScale
    scalingLoop n (if nextScale = 0 then lastScale else nextScale) nextScale

def H264_scaling_list (sizeOfScalingList : ℕ) : Reading Unit := scalingLoop sizeOfScalingList 8 8

def parseSlice (nal : NAL_t) : Reading SliceHeader := do
  let first_mb_in_slice ← read_uev
  let slice_type ← read_uev
  let pic_parameter_set ← read_uev
  given (nal.residual_colour_transform_flag ≠ 0) (discard (read 2))
  let frame_num ← read (nal.log2_max_frame_num_minus4+4)
  let field_pic_flag ← readIf (nal.frame_mbs_only_flag = 0) (read 1) 0
  let bottom_field_flag ← readIf (field_pic_flag ≠ 0) (read 1) 0
  let idr_pic_id ← readIf (nal.nal_unit_type = NAL_UNIT_TYPE_SLICE_IDR) read_uev nal.idr_pic_id
  let pic_order_cnt_lsb ← readIf (nal.pic_order_cnt_type = 0)
    (read (nal.log2_max_pic_order_cnt_lsb_minus4+4)) nal.pic_order_cnt_lsb
  pure {
    first_mb_in_slice := first_mb_in_slice
    slice_type := slice_type
    pic_parameter_set := pic_parameter_set
    frame_num := frame_num
    field_pic_flag := field_pic_flag
    bottom_field_flag := bottom_field_flag
    idr_pic_id := idr_pic_id
    pic_order_cnt_lsb := pic_order_cnt_lsb }

def parseSVC : Reading SVCHeader := do
  discard (read 1)
  let idr_flag ← read 1
  let priority_id ← read 6
  let no_inter_layer_pred_flag ← read 1
  let dependency_id ← read 3
  let quality_id ← read 4
  let temporal_id ← read 3
  let use_base_prediction_flag ← read 1
  let discardable_flag ← read 1
  let output_flag ← read 1
  discard (read 2)
  pure {
    svc := 1
    idr_flag := idr_flag
    priority_id := priority_id
    no_inter_layer_pred_flag := no_inter_layer_pred_flag
    dependency_id := dependency_id
    quality_id := quality_id
    temporal_id := temporal_id
    use_base_prediction_flag := use_base_prediction_flag
    discardable_flag := discardable_flag
    output_flag := output_flag }

def parseTiming (vui : VUIState) : Reading VUIState := do
  let timing_info_present_flag ← read 1
  let vui := { vui with timing_info_present_flag := timing_info_present_flag }
  readIf (timing_info_present_flag ≠ 0) (do
    let num_units_in_tick ← read 32
    let time_scale ← read 32
    let fixed_frame_rate_flag ← read 1
    pure { vui with
      num_units_in_tick := num_units_in_tick
      time_scale := time_scale
      fixed_frame_rate_flag := fixed_frame_rate_flag }) vui

def parseVUI (profile_idc : ℕ) (vui : VUIState) : Reading VUIState := do
  let aspect_ratio_info_present_flag ← read 1
  given (aspect_ratio_info_present_flag ≠ 0) do
    let aspect_ratio_idc ← read 8
    given (aspect_ratio_idc = 0xFF) do
      discard (read 16)
      discard (read 16)
  let overscan_info_present_flag ← read 1
  given (overscan_info_present_flag ≠ 0) (discard (read 1))
  let video_signal_type_present_flag ← read 1
  given (video_signal_type_present_flag ≠ 0) do
    discard (read 3)
    discard (read 1)
    let colour_description_present_flag ← read 1
    given (colour_description_present_flag ≠ 0) do
      discard (read 8)
      discard (read 8)
      discard (read 8)
  let chroma_loc_info_present_flag ← read 1
  given (chroma_loc_info_present_flag ≠ 0) do
    discard read_uev
    discard read_uev
  readIf (¬ (profile_idc = 83 ∨ profile_idc = 86)) (parseTiming vui) vui

def highProfiles : List ℕ := [100, 110, 122, 244, 44, 83, 86]

/-- The part of a parameter set that only some profiles have. -/
def parseFormat (sps : SPS) : Reading SPS := do
  let chroma_format_idc ← read_uev
  let residual_colour_transform_flag ← readIf (chroma_format_idc = 3) (read 1)
    sps.residual_colour_transform_flag
  let bit_depth_luma_minus8 ← read_uev
  let bit_depth_chroma_minus8 ← read_uev
  let qpprime_y_zero_transform_bypass_flag ← read 1
  let seq_scaling_matrix_present_flag ← read 1
  given (seq_scaling_matrix_present_flag ≠ 0) do
    (List.range (if chroma_format_idc ≠ 3 then 8 else 12)).forM fun i => do
      let bPresent ← read 1
      given (bPresent ≠ 0) (H264_scaling_list (if i < 6 then 16 else 64))
  pure { sps with
    chroma_format_idc := chroma_format_idc
    residual_colour_transform_flag := residual_colour_transform_flag
    bit_depth_luma_minus8 := bit_depth_luma_minus8
    bit_depth_chroma_minus8 := bit_depth_chroma_minus8
    qpprime_y_zero_transform_bypass_flag := qpprime_y_zero_transform_bypass_flag
    seq_scaling_matrix_present_flag := seq_scaling_matrix_present_flag }

def parseLsb (sps : SPS) : Reading SPS := do
  let log2_max_pic_order_cnt_lsb_minus4 ← read_uev
  pure { sps with log2_max_pic_order_cnt_lsb_minus4 := log2_max_pic_order_cnt_lsb_minus4 }

def parseOffsets (sps : SPS) : Reading SPS := do
  let delta_pic_order_always_zero_flag ← read 1
  let offset_for_non_ref_pic ← read_sev
  let offset_for_top_to_bottom_field ← read_sev
  let num_ref_frames_in_pic_order_cnt_cycle ← read_uev
  let offset_for_ref_frame ← (List.range num_ref_frames_in_pic_order_cnt_cycle).foldlM
    (fun vOffset i => do
      let iOffset ← read_sev
      pure (vOffset.set (min i 255) (iOffset.bmod (2^16)))) sps.offset_for_ref_frame
  pure { sps with
    delta_pic_order_always_zero_flag := delta_pic_order_always_zero_flag
    offset_for_non_ref_pic := offset_for_non_ref_pic
    offset_for_top_to_bottom_field := offset_for_top_to_bottom_field
    num_ref_frames_in_pic_order_cnt_cycle := num_ref_frames_in_pic_order_cnt_cycle
    offset_for_ref_frame := offset_for_ref_frame }

def parseOrderCount (sps : SPS) : Reading SPS := do
  let log2_max_frame_num_minus4 ← read_uev
  let pic_order_cnt_type ← read_uev
  let sps := { sps with
    log2_max_frame_num_minus4 := log2_max_frame_num_minus4
    pic_order_cnt_type := pic_order_cnt_type }
  if pic_order_cnt_type = 0 then parseLsb sps
  else readIf (pic_order_cnt_type = 1) (parseOffsets sps) sps

def parseCropping (sps : SPS) : Reading SPS := do
  let frame_crop_left_offset ← read_uev
  let frame_crop_right_offset ← read_uev
  let frame_crop_top_offset ← read_uev
  let frame_crop_bottom_offset ← read_uev
  pure { sps with
    frame_crop_left_offset := frame_crop_left_offset
    frame_crop_right_offset := frame_crop_right_offset
    frame_crop_top_offset := frame_crop_top_offset
    frame_crop_bottom_offset := frame_crop_bottom_offset }

def parseDimensions (sps : SPS) : Reading SPS := do
  let num_ref_frames ← read_uev
  let gaps_in_frame_num_value_allowed_flag ← read 1
  let pic_width_in_mbs_minus1 ← read_uev
  let pic_height_in_map_units_minus1 ← read_uev
  let frame_mbs_only_flag ← read 1
  let mb_adpative_frame_field_flag ← readIf (frame_mbs_only_flag = 0) (read 1)
    sps.mb_adpative_frame_field_flag
  let direct_8x8_inference_flag ← read 1
  let frame_cropping_flag ← read 1
  let sps := { sps with
    num_ref_frames := num_ref_frames
    gaps_in_frame_num_value_allowed_flag := gaps_in_frame_num_value_allowed_flag
    pic_width_in_mbs_minus1 := pic_width_in_mbs_minus1
    pic_height_in_map_units_minus1 := pic_height_in_map_units_minus1
    frame_mbs_only_flag := frame_mbs_only_flag
    mb_adpative_frame_field_flag := mb_adpative_frame_field_flag
    direct_8x8_inference_flag := direct_8x8_inference_flag
    frame_cropping_flag := frame_cropping_flag }
  readIf (frame_cropping_flag ≠ 0) (parseCropping sps) sps

def parseSPS (nal : NAL_t) : Reading (SPS × VUIState) := do
  let profile_idc ← read 8
  discard (read 8)
  let level_idc ← read 8
  let seq_parameter_set_id ← read_uev
  let sps := { nal.toSPS with
    profile_idc := profile_idc
    level_idc := level_idc
    seq_parameter_set_id := seq_parameter_set_id }
  let sps ← readIf (profile_idc ∈ highProfiles) (parseFormat sps) sps
  let sps ← parseOrderCount sps
  let sps ← parseDimensions sps
  let vui ← read 1
  let vuiState ← readIf (vui ≠ 0) (parseVUI profile_idc nal.toVUIState) nal.toVUIState
  pure ({ sps with vui := vui }, vuiState)

/-- The first bytes behind the header, in a buffer on the stack that is not initialised. -/
def emulation (pStack pBuffer : Memory) (iSize iMax : ℕ) : IBits :=
  let iHeader := H264_header_size pBuffer
  let pEmulation := H264_unemulate (fun i => pBuffer (iHeader+i)) (min (uint32 (iSize-iHeader)) iMax)
  IBits.new (store pStack 0 pEmulation) pEmulation.length

/-- What is read goes into the record in the end; nothing looks at the record before. -/
def stored {α : Type} (f : α → NAL_t) : EStateM.Result SirannonException IBits α →
    Except SirannonException NAL_t
  | .ok a _ => .ok (f a)
  | .error e _ => .error e

def H264_parse_SLICE (pStack pBuffer : Memory) (iSize : ℕ) (nal : NAL_t) :
    Except SirannonException NAL_t :=
  stored (fun header => { nal with toSliceHeader := header })
    ((parseSlice nal).run (emulation pStack pBuffer iSize 324))

def H264_parse_SPS (pStack pBuffer : Memory) (iSize : ℕ) (nal : NAL_t) :
    Except SirannonException NAL_t :=
  stored (fun r => { nal with toSPS := r.1, toVUIState := r.2 })
    ((parseSPS nal).run (emulation pStack pBuffer iSize 512))

def H264_parse_SVC (pBuffer : Memory) (nal : NAL_t) : Except SirannonException NAL_t :=
  stored (fun header => { nal with toSVCHeader := header })
    (parseSVC.run (IBits.new (fun i => pBuffer (H264_header_size pBuffer-3+i)) 3))

/-! ## Pictures -/

/-- The high bits go up or down by one turn when the low bits have gone round. -/
def pocMsb (iMax lsb_prev msb_prev lsb : ℕ) : ℕ :=
  if lsb < lsb_prev ∧ iMax/2 ≤ lsb_prev-lsb then (msb_prev+iMax)%2^32
  else if lsb_prev < lsb ∧ iMax/2 < lsb-lsb_prev then (msb_prev+2^32-iMax)%2^32
  else msb_prev

def H264_find_poc (nal : NAL_t) : NAL_t :=
  if nal.pic_order_cnt_type ≠ 0 then nal
  else
    let bReset := nal.nal_unit_type = NAL_UNIT_TYPE_SLICE_IDR
    let lsb_prev := if bReset then 0 else nal.pic_order_cnt_lsb_prev
    let msb_prev := if bReset then 0 else nal.pic_order_cnt_msb_prev
    let iMax := 2^(nal.log2_max_pic_order_cnt_lsb_minus4+4)%2^32
    let msb := pocMsb iMax lsb_prev msb_prev nal.pic_order_cnt_lsb
    { nal with
      pic_order_cnt_valid := 1
      pic_order_cnt_msb := msb
      pic_order_cnt := int32 (msb+nal.pic_order_cnt_lsb : ℕ)
      pic_order_cnt_lsb_prev := nal.pic_order_cnt_lsb
      pic_order_cnt_msb_prev := msb }

/-- Does a slice, data partitions B and C and extensions aside, begin a picture? -/
def sliceBorder (nal newNAL : NAL_t) : ℤ :=
  if ¬ H264_is_NAL_slice nal.nal_unit_type then 0
  else if nal.frame_num ≠ newNAL.frame_num then 1
  else if nal.pic_order_cnt_type = newNAL.pic_order_cnt_type ∧ nal.pic_order_cnt_type = 0 ∧
      nal.pic_order_cnt_lsb ≠ newNAL.pic_order_cnt_lsb then 1
  else if nal.nal_ref_idc ≠ newNAL.nal_ref_idc ∧ (nal.nal_ref_idc = 0 ∨ newNAL.nal_ref_idc = 0) then 1
  else if nal.nal_unit_type = NAL_UNIT_TYPE_SLICE_IDR ∧
      newNAL.nal_unit_type = NAL_UNIT_TYPE_SLICE_IDR ∧ nal.idr_pic_id ≠ newNAL.idr_pic_id then 1
  else 0

def H264_next_frame (nal newNAL : NAL_t) : ℤ :=
  let iType := newNAL.nal_unit_type
  if iType ∈ [NAL_UNIT_TYPE_END_OF_SEQ, NAL_UNIT_TYPE_END_OF_STREAM, NAL_UNIT_TYPE_FILLER_DATA] then 1
  else if iType ∈ [NAL_UNIT_TYPE_SLICE_DP_B, NAL_UNIT_TYPE_SLICE_DP_C] then 0
  else if iType = NAL_UNIT_TYPE_PREFIX then
    if H264_is_NAL_slice nal.nal_unit_type then 1 else 0
  else if iType = NAL_UNIT_TYPE_SLICE_SVC then 0
  else if iType ∈ [NAL_UNIT_TYPE_SLICE_NON_IDR, NAL_UNIT_TYPE_SLICE_DP_A, NAL_UNIT_TYPE_SLICE_IDR] then
    sliceBorder nal newNAL
  else if iType ∈ [NAL_UNIT_TYPE_SEI, NAL_UNIT_TYPE_ACCESS_UNIT_DELIM, NAL_UNIT_TYPE_SPS] then
    if nal.nal_unit_type ∈ [NAL_UNIT_TYPE_SEI, NAL_UNIT_TYPE_ACCESS_UNIT_DELIM, NAL_UNIT_TYPE_SPS,
      NAL_UNIT_TYPE_PPS, NAL_UNIT_TYPE_SPS_EXT, NAL_UNIT_TYPE_SPS_SVC] then 0 else 1
  else if iType ∈ [NAL_UNIT_TYPE_PPS, NAL_UNIT_TYPE_SPS_EXT, NAL_UNIT_TYPE_SPS_SVC] then 0
  else if iType = 21 then 0
  else 1

def parseSpecific (pStack pBuffer : Memory) (iSize : ℕ) (nal : NAL_t) :
    Except SirannonException NAL_t :=
  let iType := nal.nal_unit_type
  if iType = NAL_UNIT_TYPE_SPS then H264_parse_SPS pStack pBuffer iSize nal
  else if iType = NAL_UNIT_TYPE_PREFIX then H264_parse_SVC pBuffer nal
  else if iType = NAL_UNIT_TYPE_SLICE_SVC then
    match H264_parse_SVC pBuffer nal with
    | .ok nal => H264_parse_SLICE pStack pBuffer iSize nal
    | .error e => .error e
  else if iType ∈ [NAL_UNIT_TYPE_SLICE_NON_IDR, NAL_UNIT_TYPE_SLICE_DP_A, NAL_UNIT_TYPE_SLICE_IDR] then
    H264_parse_SLICE pStack pBuffer iSize nal
  else .ok nal

def NAL_t.uncounted (nal : NAL_t) : NAL_t := { nal with pic_order_cnt_valid := 0 }

/-- Is this the beginning of a picture, and what is its count? -/
def withCount (nal newNAL : NAL_t) : ℤ × NAL_t :=
  let iBoundary := H264_next_frame nal newNAL
  let newNAL := if 0 < iBoundary then newNAL.uncounted else newNAL
  if newNAL.pic_order_cnt_valid = 0 ∧ H264_is_NAL_slice newNAL.nal_unit_type then
    (iBoundary, H264_find_poc newNAL)
  else (iBoundary, newNAL)

/-- The parsers of the headers never report a failure. -/
def H264_parse_NAL (pStack pBuffer : Memory) (iSize : ℕ) (nal : NAL_t) :
    Except SirannonException (ℤ × NAL_t) :=
  let newNAL := { nal with
    nal_unit_type := H264_NAL_type pBuffer
    nal_ref_idc := H264_NAL_idc pBuffer
    svc := 0 }
  match if H264_is_SVC pBuffer then H264_parse_SVC pBuffer newNAL else .ok newNAL with
  | .error e => .error e
  | .ok newNAL =>
    match parseSpecific pStack pBuffer iSize newNAL with
    | .error e => .error e
    | .ok newNAL => .ok (withCount nal newNAL)

end Sirannon.H264
