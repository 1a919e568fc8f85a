import Mathlib.Data.Nat.Log
import Sirannon.AVCReader

/-!
# Files read through a buffer

What is in the buffer and what is still in the file make one stream, and a step
takes the first unit off it, however the stream is spread over the two.
-/

set_option autoImplicit false

namespace Sirannon.Reader
open ByteMemory Bits Media H264 AnnexB

/-! ## The stream -/

namespace FileBuffer

def rest (b : FileBuffer) : Bytes := load b.pBuffer b.iIndex b.available ++ b.oFile

theorem fread_rest (sFile oFile : Bytes) (pBuffer : Memory) (iMaxBuffer iEndIndex : ℕ)
    (positive : 0 < iMaxBuffer) (room : iEndIndex ≤ iMaxBuffer) :
    (fread sFile oFile pBuffer iMaxBuffer iEndIndex positive room).rest =
        load pBuffer 0 iEndIndex ++ oFile ∧
      iEndIndex ≤ (fread sFile oFile pBuffer iMaxBuffer iEndIndex positive room).available := by
  constructor
  · have hlength : (oFile.take (iMaxBuffer-iEndIndex)).length =
        min (iMaxBuffer-iEndIndex) oFile.length := List.length_take
    show load (store pBuffer iEndIndex (oFile.take (iMaxBuffer-iEndIndex))) 0
      (iEndIndex+min (iMaxBuffer-iEndIndex) oFile.length) ++ oFile.drop (iMaxBuffer-iEndIndex) = _
    rw [← hlength, load_store_extend, List.append_assoc, List.take_append_drop]
  · exact Nat.le_add_right _ _

theorem shifted_rest (b : FileBuffer) :
    b.shifted.rest = b.rest ∧ b.available ≤ b.shifted.available := by
  rcases fread_rest b.sFile b.oFile
    (store b.pBuffer 0 (load b.pBuffer b.iIndex (b.iEndIndex-b.iIndex))) b.iMaxBuffer
    (b.iEndIndex-b.iIndex) b.positive ((Nat.sub_le _ _).trans b.room) with ⟨hrest, hmore⟩
  refine ⟨hrest.trans ?_, hmore⟩
  have hload := load_store b.pBuffer 0 (load b.pBuffer b.iIndex (b.iEndIndex-b.iIndex))
  rw [load_length] at hload
  rw [hload]
  rfl

theorem enlarged_rest (b : FileBuffer) (hindex : b.iIndex = 0) :
    b.enlarged.rest = b.rest ∧ b.available ≤ b.enlarged.available := by
  rcases fread_rest b.sFile b.oFile b.pBuffer (b.iMaxBuffer*2) b.iEndIndex
    (Nat.mul_pos b.positive two_pos) (b.room.trans (Nat.le_mul_of_pos_right _ two_pos)) with
    ⟨hrest, hmore⟩
  refine ⟨hrest.trans ?_, (Nat.sub_le _ _).trans hmore⟩
  rw [rest, available, hindex, Nat.sub_zero]

theorem advanced_rest (b : FileBuffer) {iOffset : ℕ} (h : iOffset ≤ b.available) :
    (b.advanced iOffset h).rest = b.rest.drop iOffset ∧
      (b.advanced iOffset h).available = b.available-iOffset := by
  have havailable : (b.advanced iOffset h).available = b.available-iOffset := Nat.sub_add_eq _ _ _
  refine ⟨?_, havailable⟩
  rw [rest, havailable, rest, List.drop_append_of_le_length (by rw [load_length]; exact h),
    load_drop _ _ h]
  rfl

theorem rest_take (b : FileBuffer) : b.rest.take b.available = load b.pBuffer b.iIndex b.available :=
  List.take_left' (load_length _ _ _)

theorem rest_stored (b : FileBuffer) : Stored (shift b.pBuffer b.iIndex) 0 (b.rest.take b.available) := by
  rw [rest_take, stored_shift, Nat.add_zero]
  exact stored_load _ _ _

theorem rest_length (b : FileBuffer) : b.rest.length = b.available+b.oFile.length := by
  rw [rest, List.length_append, load_length]

theorem available_le (b : FileBuffer) : b.available ≤ b.iMaxBuffer := (Nat.sub_le _ _).trans b.room

end FileBuffer

/-! ## The largest buffer -/

/-- The largest size that doubling leads to without an overflow. -/
def capacity (iMaxBuffer : ℕ) : ℕ := iMaxBuffer*2^Nat.log 2 ((2^31-1)/iMaxBuffer)

theorem capacity_double {n : ℕ} (hpos : 0 < n) (h : n*2 < 2^31) : capacity (n*2) = capacity n := by
  have htwo : 2 ≤ (2^31-1)/n := (Nat.le_div_iff_mul_le hpos).mpr (by omega)
  have hlog : 0 < Nat.log 2 ((2^31-1)/n) := Nat.log_pos one_lt_two htwo
  obtain ⟨k, hk⟩ := Nat.exists_eq_succ_of_ne_zero hlog.ne'
  rw [capacity, capacity, ← Nat.div_div_eq_div_mul, Nat.log_div_base, hk, Nat.succ_sub_one, pow_succ]
  ring

theorem capacity_full {n : ℕ} (hsmall : n < 2^31) (h : 2^31 ≤ n*2) : capacity n = n := by
  have hone : (2^31-1)/n = 1 := by
    rw [Nat.div_eq_iff (by omega)]
    omega
  rw [capacity, hone, Nat.log_one_right, pow_zero, mul_one]

theorem capacity_le (n : ℕ) : n ≤ capacity n :=
  Nat.le_mul_of_pos_right _ (Nat.two_pow_pos _)

/-! ## The search for the end of a unit -/

structure Found (b : FileBuffer) (o : Offset) : Prop where
  rest : o.buffer.rest = b.rest
  offset : o.iOffset = unitLength b.rest
  last : o.bLast = true ↔ b.rest.length < needed b.rest
  seen : needed b.rest ≤ b.rest.length → needed b.rest ≤ o.buffer.available
  start : code b.rest ≤ o.buffer.available
  capacity : capacity o.buffer.iMaxBuffer = capacity b.iMaxBuffer
  small : o.buffer.iMaxBuffer < 2^31

theorem unit_unseen {s : Bytes} (h : s.length < needed s) :
    unitLength s = s.length ∧ needed s = s.length+1 := by
  cases hbehind : behindCode s with
  | none => exact unit_last hbehind
  | some r =>
    have hinside := (unit_found hbehind).2.1
    omega

/-- What the scanner says of the buffer. -/
theorem find_buffer {b : FileBuffer} (hcode : 0 < code b.rest) (hin : code b.rest ≤ b.available) :
    H264_find_NAL (shift b.pBuffer b.iIndex) b.available =
      if needed b.rest ≤ b.available then unitLength b.rest else b.available :=
  find_part b.rest_stored hcode hin (by rw [b.rest_length]; omega)

/-- The search goes on in a buffer with the same stream. -/
theorem found_same {b b' : FileBuffer} {o : Offset} (hrest : b'.rest = b.rest)
    (hcapacity : capacity b'.iMaxBuffer = capacity b.iMaxBuffer) (h : Found b' o) : Found b o := by
  rcases h with ⟨hr, hoffset, hlast, hseen, hstart, hcap, hsmall⟩
  rw [hrest] at hr hoffset hlast hseen hstart
  exact ⟨hr, hoffset, hlast, hseen, hstart, hcap.trans hcapacity, hsmall⟩

theorem unseen_end {b : FileBuffer} (heof : b.bEof = true) (hout : ¬ needed b.rest ≤ b.available) :
    unitLength b.rest = b.available ∧ needed b.rest = b.available+1 ∧ b.available < b.iMaxBuffer ∧
      b.rest.length = b.available := by
  rcases b.ended heof with ⟨hfile, hless⟩
  have hlength := b.rest_length
  have hend : b.available ≤ b.iEndIndex := Nat.sub_le _ _
  rw [hfile, List.length_nil, Nat.add_zero] at hlength
  rcases unit_unseen (by omega : b.rest.length < needed b.rest) with ⟨hunit, hneeded⟩
  omega

theorem findOffset_spec (b : FileBuffer) (hcode : 0 < code b.rest) (hin : code b.rest ≤ b.available)
    (hsmall : b.iMaxBuffer < 2^31) :
    if needed b.rest ≤ capacity b.iMaxBuffer then ∃ o, findOffset b = .ok o ∧ Found b o
    else ∃ e, findOffset b = .error e := by
  induction b using findOffset.induct with
  | case1 b h =>
    have hfind := find_buffer hcode hin
    have hroom := b.available_le
    have hcapacity := capacity_le b.iMaxBuffer
    have hlength := b.rest_length
    have hseen : needed b.rest ≤ b.available := by
      by_contra hout
      rw [hfind, if_neg hout] at h
      exact absurd h (Nat.lt_irrefl _)
    rw [if_pos hseen] at hfind
    rw [if_pos (by omega), findOffset, dif_pos h]
    refine ⟨_, rfl, rfl, hfind, ?_, fun _ => hseen, hin, rfl, hsmall⟩
    simp only [Bool.false_eq_true, false_iff]
    omega
  | case2 b h heof =>
    have hfind := find_buffer hcode hin
    have hcapacity := capacity_le b.iMaxBuffer
    have hout : ¬ needed b.rest ≤ b.available := by
      intro hseen
      rw [hfind, if_pos hseen] at h
      have hbounds := unit_bounds hcode
      omega
    rcases unseen_end heof hout with ⟨hunit, hneeded, hless, hlength⟩
    rw [if_pos (by omega), findOffset, dif_neg h, if_pos heof]
    refine ⟨_, rfl, rfl, hunit.symm, ?_, by omega, hin, rfl, hsmall⟩
    simp only [true_iff]
    omega
  | case3 b h heof hindex ih =>
    rcases b.shifted_rest with ⟨hrest, hmore⟩
    rw [hrest] at ih
    have hstep := ih hcode (hin.trans hmore) hsmall
    have hcapacity : capacity b.shifted.iMaxBuffer = capacity b.iMaxBuffer := rfl
    rw [hcapacity] at hstep
    rw [findOffset, dif_neg h, if_neg heof, dif_pos hindex]
    split_ifs at hstep ⊢ with hfits
    · rcases hstep with ⟨o, hrun, hfound⟩
      exact ⟨o, hrun, found_same hrest hcapacity hfound⟩
    · exact hstep
  | case4 b h heof hindex hmax =>
    have hfind := find_buffer hcode hin
    have hend := b.full (Bool.eq_false_iff.mpr heof)
    have havailable : b.available = b.iEndIndex-b.iIndex := rfl
    have hout : ¬ needed b.rest ≤ b.available := by
      intro hseen
      rw [hfind, if_pos hseen] at h
      have hbounds := unit_bounds hcode
      omega
    rw [capacity_full hsmall hmax, if_neg (by omega), findOffset, dif_neg h, if_neg heof,
      dif_neg hindex, dif_pos hmax]
    exact ⟨_, rfl⟩
  | case5 b h heof hindex hmax ih =>
    rcases b.enlarged_rest (by omega) with ⟨hrest, hmore⟩
    rw [hrest] at ih
    have hstep := ih hcode (hin.trans hmore) (not_le.mp hmax)
    have hcapacity : capacity b.enlarged.iMaxBuffer = capacity b.iMaxBuffer :=
      capacity_double b.positive (not_le.mp hmax)
    rw [hcapacity] at hstep
    rw [findOffset, dif_neg h, if_neg heof, dif_neg hindex, dif_neg hmax]
    split_ifs at hstep ⊢ with hfits
    · rcases hstep with ⟨o, hrun, hfound⟩
      exact ⟨o, hrun, found_same hrest hcapacity hfound⟩
    · exact hstep

/-! ## Parsing a unit -/

theorem next_frame_nonneg (nal newNAL : NAL_t) : 0 ≤ H264_next_frame nal newNAL := by
  have hborder : 0 ≤ sliceBorder nal newNAL := by
    rw [sliceBorder]
    split_ifs <;> decide
  rw [H264_next_frame]
  split_ifs <;> first | exact hborder | decide

/-- No unit is reported as one that cannot be parsed. -/
theorem parse_nonneg {pStack pBuffer : Memory} {iSize : ℕ} {nal nal' : NAL_t} {iJump : ℤ}
    (h : H264_parse_NAL pStack pBuffer iSize nal = .ok (iJump, nal')) : 0 ≤ iJump := by
  rw [H264_parse_NAL] at h
  split at h
  · cases h
  · split at h
    · cases h
    case h_2 newNAL _ =>
      have hcount : (withCount nal newNAL).1 = iJump := congrArg Prod.fst (Except.ok.inj h)
      rw [← hcount, withCount]
      split_ifs <;> exact next_frame_nonneg nal newNAL

/-! ## A unit of the reader -/

/-- The data of the packets that hold units. -/
def media (ps : List MediaPacket) : List Bytes :=
  (ps.filter fun p => p.type = .media).map MediaPacket.bytes

theorem media_append (ps qs : List MediaPacket) : media (ps++qs) = media ps ++ media qs := by
  rw [media, List.filter_append, List.map_append]
  rfl

theorem media_one (p : MediaPacket) : media [p] = if p.type = .media then [p.bytes] else [] := by
  by_cases h : p.type = .media <;> simp [media, h]

namespace AVCReader

/-- What is sent away and what is kept. -/
def units (r : AVCReader) : List Bytes := media (r.routed ++ r.vStack)

/-- What parsing a unit leaves alone. -/
structure SameReader (r r' : AVCReader) : Prop where
  buffer : r'.toFileBuffer = r.toFileBuffer
  skipSEI : r'.bSkipSEI = r.bSkipSEI
  skipAUD : r'.bSkipAUD = r.bSkipAUD
  loop : r'.loop = r.loop
  iLoop : r'.iLoop = r.iLoop
  scheduled : r'.bSchedule = r.bSchedule

theorem numbered_media (r : AVCReader) (ps : List MediaPacket) :
    media (ps.mapIdx r.numbered) = media ps := by
  induction ps using List.reverseRecOn with
  | nil => rfl
  | append_singleton ps p ih =>
    rw [List.mapIdx_concat, media_append, media_append, ih, media_one, media_one]
    rfl

theorem send_frame_ok {r : AVCReader} (h : r.vStack ≠ []) :
    ∃ r', r.send_frame = .ok r' ∧ media r'.routed = r.units ∧ r'.vStack = [] ∧ SameReader r r' ∧
      r'.oH264Decode = r.oH264Decode ∧ r'.iParsed = r.iParsed := by
  rw [send_frame, if_neg h]
  refine ⟨_, rfl, ?_, rfl, ⟨rfl, rfl, rfl, rfl, rfl, rfl⟩, rfl, rfl⟩
  show media (r.routed ++ r.vStack.mapIdx r.numbered) = media (r.routed ++ r.vStack)
  rw [media_append, media_append, numbered_media]

theorem atBound_ok {r : AVCReader} (h : 0 < r.iBound → r.vStack ≠ []) :
    ∃ r', r.atBound = .ok r' ∧ r'.units = r.units ∧ SameReader r r' ∧
      r'.oH264Decode = r.oH264Decode ∧ r'.iParsed = r.iParsed := by
  rw [atBound]
  by_cases hbound : 0 < r.iBound
  · rw [if_pos hbound]
    rcases send_frame_ok (h hbound) with ⟨r', hsend, hmedia, hstack, hsame, hnal, hparsed⟩
    rw [hsend]
    refine ⟨_, rfl, ?_, ⟨hsame.1, hsame.2, hsame.3, hsame.4, hsame.5, hsame.6⟩, hnal, hparsed⟩
    show media (r'.routed ++ r'.vStack) = r.units
    rw [hstack, List.append_nil, hmedia]
  · rw [if_neg hbound]
    exact ⟨r, rfl, rfl, ⟨rfl, rfl, rfl, rfl, rfl, rfl⟩, rfl, rfl⟩

theorem typed_media (r : AVCReader) (pPckt : MediaPacket) :
    (r.typed pPckt).type = pPckt.type ∧ (r.typed pPckt).bytes = pPckt.bytes := by
  rw [typed]
  dsimp only
  split_ifs <;> exact ⟨rfl, rfl⟩

/-- A unit that is parsed joins the units. -/
theorem classify_ok {m : Surroundings} {r : AVCReader} {pPckt : MediaPacket} {iJump : ℤ} {nal : NAL_t}
    (hparse : m.parse r.iParsed r.oH264Decode pPckt.bytes = .ok (iJump, nal))
    (hstack : r.iBound < 0 ∨ r.vStack ≠ []) (htype : pPckt.type = .media) :
    ∃ r', r.classify m pPckt = .ok r' ∧ r'.units = r.units ++ [pPckt.bytes] ∧ r'.vStack ≠ [] ∧
      SameReader r r' ∧ r'.oH264Decode = nal ∧ r'.iParsed = r.iParsed+1 := by
  have hbound : 0 < (r.parsed iJump nal).iBound → (r.parsed iJump nal).vStack ≠ [] := by
    intro hpos
    rcases hstack with hneg | hne
    · have hzero : (r.parsed iJump nal).iBound = 0 := if_pos hneg
      omega
    · exact hne
  rcases atBound_ok hbound with ⟨r', hrun, hunits, hsame, hnal, hparsed⟩
  rcases typed_media r' pPckt with ⟨htype', hbytes⟩
  rw [classify, hparse]
  dsimp only
  rw [if_neg (not_lt.mpr (parse_nonneg hparse)), hrun]
  refine ⟨_, rfl, ?_, ?_, ⟨hsame.1, hsame.2, hsame.3, hsame.4, hsame.5, hsame.6⟩, hnal, hparsed⟩
  · have hone : media [r'.typed pPckt] = [pPckt.bytes] := by
      rw [media_one, if_pos (htype'.trans htype), hbytes]
    show media (r'.routed ++ (r'.vStack ++ [r'.typed pPckt])) = _
    rw [← List.append_assoc, media_append, hone]
    show r'.units ++ _ = _
    rw [hunits]
    rfl
  · exact List.append_ne_nil_of_right_ne_nil _ (List.cons_ne_nil _ _)

theorem classify_error {m : Surroundings} {r : AVCReader} {pPckt : MediaPacket}
    (hparse : ∀ iJump nal, m.parse r.iParsed r.oH264Decode pPckt.bytes ≠ .ok (iJump, nal)) :
    ∃ e, r.classify m pPckt = .error e := by
  rw [classify]
  cases h : m.parse r.iParsed r.oH264Decode pPckt.bytes with
  | error e => exact ⟨e, rfl⟩
  | ok v => exact absurd h (hparse v.1 v.2)

/-! ## A step -/

/-- Before a step: the reader is about to take the first unit of `s`. -/
structure Ready (r : AVCReader) (s : Bytes) (iCapacity : ℕ) : Prop where
  rest : r.rest = s
  code : 0 < code s
  start : AnnexB.code s ≤ r.available
  small : r.iMaxBuffer < 2^31
  capacity : capacity r.iMaxBuffer = iCapacity
  skipSEI : r.bSkipSEI = false
  skipAUD : r.bSkipAUD = false
  once : ¬ (r.loop < 0 ∨ r.iLoop < r.loop)
  scheduled : r.bSchedule = true
  stack : r.iBound < 0 ∨ r.vStack ≠ []

variable {m : Surroundings} {sFilename : String} {r : AVCReader} {s : Bytes} {iCapacity : ℕ}

theorem packet_ok (r : AVCReader) (bs : Bytes) :
    ∃ pPckt, r.packet bs = .ok pPckt ∧ pPckt.bytes = bs ∧ pPckt.type = .media := by
  rw [packet, push_back_ok]
  · exact ⟨_, rfl, rfl, rfl⟩
  · simp only [MediaPacket.new, MediaPacket.size, List.length_nil, iBufferSpace]
    omega

theorem classify_ctrl_ok {r : AVCReader} (h : r.vStack ≠ []) {type : PacketType}
    (htype : type ≠ .media) :
    ∃ r', r.classify_ctrl type = .ok r' ∧ r'.units = r.units ∧ media r'.routed = r.units := by
  rcases send_frame_ok h with ⟨r', hsend, hmedia, hstack, -⟩
  rw [classify_ctrl, hsend]
  have hrouted : ∀ p : MediaPacket, p.type = type → media (r'.routed ++ [p]) = r.units := by
    intro p hp
    rw [media_append, media_one, if_neg (hp ▸ htype), List.append_nil, hmedia]
  refine ⟨_, rfl, ?_, hrouted _ rfl⟩
  show media (_ ++ r'.vStack) = r.units
  rw [hstack, List.append_nil]
  exact hrouted _ rfl

/-- After the last unit the reader stops. -/
theorem finish_ok {r : AVCReader} (h : r.vStack ≠ []) (honce : ¬ (r.loop < 0 ∨ r.iLoop < r.loop)) :
    ∃ r', r.finish sFilename = .ok r' ∧ r'.units = r.units ∧ media r'.routed = r.units ∧
      r'.bSchedule = false := by
  have hstack : r.looped.vStack ≠ [] := by
    rw [looped]
    split_ifs <;> exact h
  have hunits : r.looped.units = r.units := by
    rw [looped]
    split_ifs <;> rfl
  rcases classify_ctrl_ok hstack (by decide : PacketType.«end» ≠ .media) with ⟨r', hctrl, hall, hrouted⟩
  rw [finish, if_neg honce, hctrl]
  exact ⟨_, rfl, hall.trans hunits, hrouted.trans hunits, rfl⟩

/-- What a step leaves for the next one. -/
def Next (r' : AVCReader) (s : Bytes) (iCapacity : ℕ) : Prop :=
  if s = [] then r'.bSchedule = false ∧ media r'.routed = r'.units else r'.Ready s iCapacity

theorem unit_loaded {o : Offset} (hrest : o.buffer.rest = s) :
    load o.buffer.pBuffer o.buffer.iIndex o.iOffset = s.take o.iOffset := by
  have htake := o.buffer.rest_take
  rw [hrest] at htake
  rw [← load_take _ _ _ _ o.inside, ← htake, List.take_take, Nat.min_eq_left o.inside]

/-- Behind a unit that is not the last the next code is in the buffer too. -/
theorem ready_next {o : Offset} {r' : AVCReader} (hr : r.Ready s iCapacity)
    (hfound : Found r.toFileBuffer o) (hseen : needed s ≤ s.length)
    (hbuffer : r'.toFileBuffer = o.buffer.advanced o.iOffset o.inside)
    (hsame : r'.bSkipSEI = r.bSkipSEI ∧ r'.bSkipAUD = r.bSkipAUD ∧ r'.loop = r.loop ∧
      r'.iLoop = r.iLoop ∧ r'.bSchedule = r.bSchedule) (hstack : r'.vStack ≠ []) :
    s.drop (unitLength s) ≠ [] ∧ r'.Ready (s.drop (unitLength s)) iCapacity := by
  rcases o.buffer.advanced_rest o.inside with ⟨hrest, havailable⟩
  have hoffset := hfound.offset
  have hin := hfound.seen
  rw [hr.rest] at hoffset hin
  have hin' := hin hseen
  cases hbehind : behindCode s with
  | none =>
    have hlast := (unit_last hbehind).2
    omega
  | some v =>
    rcases unit_found hbehind with ⟨hsum, -, -, hcode, hlow⟩
    constructor
    · intro hnil
      rw [hnil] at hcode
      have hzero : AnnexB.code [] = 0 := rfl
      omega
    · constructor
      · rw [hbuffer, hrest, hfound.rest, hr.rest, hoffset]
      · omega
      · rw [hbuffer, havailable, hcode, hoffset]
        omega
      · rw [hbuffer]
        exact hfound.small
      · rw [hbuffer]
        exact hfound.capacity.trans hr.capacity
      · exact hsame.1.trans hr.skipSEI
      · exact hsame.2.1.trans hr.skipAUD
      · rw [hsame.2.2.1, hsame.2.2.2.1]
        exact hr.once
      · exact hsame.2.2.2.2.trans hr.scheduled
      · exact Or.inr hstack

theorem Ready.skips_not (hr : r.Ready s iCapacity) (o : Offset) (iNAL : ℕ) :
    ¬ (r.moved o).skips iNAL := by
  rintro (⟨hskip, -⟩ | ⟨hskip, -⟩)
  · exact absurd (hr.skipSEI.symm.trans hskip) (by decide)
  · exact absurd (hr.skipAUD.symm.trans hskip) (by decide)

theorem take_unit {o : Offset} {iJump : ℤ} {nal : NAL_t} (hr : r.Ready s iCapacity)
    (hfound : Found r.toFileBuffer o)
    (hparse : m.parse r.iParsed r.oH264Decode (s.take (unitLength s)) = .ok (iJump, nal)) :
    ∃ b r', r.take m sFilename o = .ok (b, r') ∧ r'.units = r.units ++ [s.take (unitLength s)] ∧
      r'.Next (s.drop (unitLength s)) iCapacity ∧
      (s.drop (unitLength s) ≠ [] → r'.oH264Decode = nal ∧ r'.iParsed = r.iParsed+1) := by
  have hoffset := hfound.offset
  have hlast := hfound.last
  rw [hr.rest] at hoffset hlast
  have hloaded : load o.buffer.pBuffer o.buffer.iIndex o.iOffset = s.take (unitLength s) := by
    rw [unit_loaded (hfound.rest.trans hr.rest), hoffset]
  rcases packet_ok (r.moved o) (s.take (unitLength s)) with ⟨pPckt, hpacket, hbytes, htype⟩
  rw [← hbytes] at hparse
  rcases classify_ok (r := r.moved o) hparse hr.stack htype with
    ⟨r', hrun, hunits, hstack, hsame, hnal, hparsed⟩
  rw [take, if_neg (hr.skips_not o _), hloaded]
  simp only [hpacket, hrun]
  rw [hbytes] at hunits
  by_cases hend : s.length < needed s
  · have hdrop : s.drop (unitLength s) = [] := by
      rw [(unit_unseen hend).1, List.drop_length]
    have honce : ¬ (r'.loop < 0 ∨ r'.iLoop < r'.loop) := by
      rw [hsame.loop, hsame.iLoop]
      exact hr.once
    rcases finish_ok hstack honce with ⟨r'', hfinish, hall, hrouted, hstopped⟩
    rw [if_pos (hlast.mpr hend), hfinish]
    refine ⟨false, r'', rfl, hall.trans hunits, ?_, fun hne => absurd hdrop hne⟩
    rw [Next, if_pos hdrop]
    exact ⟨hstopped, hrouted.trans hall.symm⟩
  · rcases ready_next hr hfound (not_lt.mp hend) hsame.buffer
      ⟨hsame.skipSEI, hsame.skipAUD, hsame.loop, hsame.iLoop, hsame.scheduled⟩ hstack with
      ⟨hne, hready⟩
    rw [if_neg fun h => hend (hlast.mp h)]
    refine ⟨true, r', rfl, hunits, ?_, fun _ => ⟨hnal, hparsed⟩⟩
    rw [Next, if_neg hne]
    exact hready

theorem doStep_ok (sFilename : String) {iJump : ℤ} {nal : NAL_t} (hr : r.Ready s iCapacity) (hfits : needed s ≤ iCapacity)
    (hparse : m.parse r.iParsed r.oH264Decode (s.take (unitLength s)) = .ok (iJump, nal)) :
    ∃ b r', r.doStep m sFilename = .ok (b, r') ∧ r'.units = r.units ++ [s.take (unitLength s)] ∧
      r'.Next (s.drop (unitLength s)) iCapacity ∧
      (s.drop (unitLength s) ≠ [] → r'.oH264Decode = nal ∧ r'.iParsed = r.iParsed+1) := by
  have hspec := findOffset_spec r.toFileBuffer (by rw [hr.rest]; exact hr.code)
    (by rw [hr.rest]; exact hr.start) hr.small
  rw [hr.rest, hr.capacity, if_pos hfits] at hspec
  rcases hspec with ⟨o, hrun, hfound⟩
  have hstored := r.rest_stored
  rw [hr.rest] at hstored
  have hcode := code_take hr.code hr.start
  have hstart := code_stored hstored (hcode.symm ▸ hr.code)
  have hpos := hr.code
  rw [doStep, if_neg (by rw [hstart, hcode]; omega), hrun]
  exact take_unit hr hfound hparse

theorem take_error {o : Offset} (hr : r.Ready s iCapacity) (hfound : Found r.toFileBuffer o)
    (hparse : ∀ iJump nal, m.parse r.iParsed r.oH264Decode (s.take (unitLength s)) ≠
      .ok (iJump, nal)) : ∃ e, r.take m sFilename o = .error e := by
  have hoffset := hfound.offset
  rw [hr.rest] at hoffset
  have hloaded : load o.buffer.pBuffer o.buffer.iIndex o.iOffset = s.take (unitLength s) := by
    rw [unit_loaded (hfound.rest.trans hr.rest), hoffset]
  rcases packet_ok (r.moved o) (s.take (unitLength s)) with ⟨pPckt, hpacket, hbytes, -⟩
  rw [← hbytes] at hparse
  rcases classify_error (r := r.moved o) hparse with ⟨e, herror⟩
  rw [take, if_neg (hr.skips_not o _), hloaded]
  simp only [hpacket, herror]
  exact ⟨e, rfl⟩

theorem doStep_error (sFilename : String) (hr : r.Ready s iCapacity)
    (h : ¬ needed s ≤ iCapacity ∨ ∀ iJump nal,
      m.parse r.iParsed r.oH264Decode (s.take (unitLength s)) ≠ .ok (iJump, nal)) :
    ∃ e, r.doStep m sFilename = .error e := by
  have hspec := findOffset_spec r.toFileBuffer (by rw [hr.rest]; exact hr.code)
    (by rw [hr.rest]; exact hr.start) hr.small
  rw [hr.rest, hr.capacity] at hspec
  rw [doStep]
  by_cases hstart : H264_is_start_code (shift r.pBuffer r.iIndex) = 0
  · rw [if_pos hstart]
    exact ⟨_, rfl⟩
  · rw [if_neg hstart]
    by_cases hfits : needed s ≤ iCapacity
    · rw [if_pos hfits] at hspec
      rcases hspec with ⟨o, hrun, hfound⟩
      rw [hrun]
      exact take_error hr hfound (h.resolve_left (not_not.mpr hfits))
    · rw [if_neg hfits] at hspec
      rcases hspec with ⟨e, herror⟩
      rw [herror]
      exact ⟨e, rfl⟩

/-! ## All steps -/

/-- The header of each unit is parsed, from what those before have left. -/
def Parses (m : Surroundings) : ℕ → NAL_t → List Bytes → Prop
  | _, _, [] => True
  | n, nal, u::us => ∃ iJump nal', m.parse n nal u = .ok (iJump, nal') ∧ Parses m (n+1) nal' us

theorem steps_reach (sFilename : String) {us : List Bytes} (hcut : Cut s us) (hr : r.Ready s iCapacity)
    (hfits : Fits iCapacity us) (hparses : Parses m r.iParsed r.oH264Decode us) :
    ∃ n r', r.steps m sFilename n = .ok r' ∧ r'.bSchedule = false ∧ media r'.routed = r.units ++ us := by
  induction hcut generalizing r with
  | nil => exact absurd hr.code (Nat.lt_irrefl 0)
  | cons s us hcode hrest ih =>
    rw [fits_cons hcode hrest] at hfits
    rcases hparses with ⟨iJump, nal, hparse, hparses⟩
    rcases doStep_ok sFilename hr hfits.1 hparse with
      ⟨b, r', hstep, hunits, hnext, hnal⟩
    by_cases hend : s.drop (unitLength s) = []
    · rw [Next, if_pos hend] at hnext
      refine ⟨1, r', ?_, hnext.1, ?_⟩
      · rw [steps, if_pos hr.scheduled, hstep]
        rfl
      · rw [hend] at hrest
        cases hrest with
        | nil => rw [hnext.2, hunits]
        | cons _ _ hcode' _ => exact absurd hcode' (Nat.lt_irrefl 0)
    · rw [Next, if_neg hend] at hnext
      rcases hnal hend with ⟨hdecode, hparsed⟩
      rw [← hdecode, ← hparsed] at hparses
      rcases ih hnext hfits.2 hparses with ⟨n, r'', hrun, hstopped, hmedia⟩
      refine ⟨n+1, r'', ?_, hstopped, ?_⟩
      · rw [steps, if_pos hr.scheduled, hstep]
        exact hrun
      · rw [hmedia, hunits, List.append_assoc]
        rfl

theorem steps_reached {us : List Bytes} (hcut : Cut s us) (hr : r.Ready s iCapacity) {n : ℕ}
    {r' : AVCReader} (hrun : r.steps m sFilename n = .ok r') (hstopped : r'.bSchedule = false) :
    Fits iCapacity us ∧ Parses m r.iParsed r.oH264Decode us := by
  induction hcut generalizing r n with
  | nil => exact absurd hr.code (Nat.lt_irrefl 0)
  | cons s us hcode hrest ih =>
    rw [fits_cons hcode hrest]
    cases n with
    | zero =>
      obtain rfl := Except.ok.inj hrun
      exact absurd (hr.scheduled.symm.trans hstopped) (by decide)
    | succ n =>
      rw [steps, if_pos hr.scheduled] at hrun
      by_cases hbad : ¬ needed s ≤ iCapacity ∨ ∀ iJump nal,
          m.parse r.iParsed r.oH264Decode (s.take (unitLength s)) ≠ .ok (iJump, nal)
      · rcases doStep_error sFilename hr hbad with ⟨e, herror⟩
        rw [herror] at hrun
        cases hrun
      · push Not at hbad
        rcases hbad with ⟨hfits, iJump, nal, hparse⟩
        rcases doStep_ok sFilename hr hfits hparse with
          ⟨b, r₁, hstep, -, hnext, hnal⟩
        rw [hstep] at hrun
        by_cases hend : s.drop (unitLength s) = []
        · rw [hend] at hrest
          cases hrest with
          | nil => exact ⟨⟨hfits, trivial⟩, iJump, nal, hparse, trivial⟩
          | cons _ _ hcode' _ => exact absurd hcode' (Nat.lt_irrefl 0)
        · rw [Next, if_neg hend] at hnext
          rcases hnal hend with ⟨hdecode, hparsed⟩
          rcases ih hnext hrun with ⟨hfits', hparses⟩
          rw [hdecode, hparsed] at hparses
          exact ⟨⟨hfits, hfits'⟩, iJump, nal, hparse, hparses⟩

theorem new_ready {sFile : Bytes} (hstart : 0 < AnnexB.code sFile) (pBuffer : Memory) {iMaxBuffer : ℕ}
    (hpositive : 0 < iMaxBuffer) (hfive : 5 ≤ iMaxBuffer) (hint : iMaxBuffer < 2^31) {loop : ℤ}
    (honce : 0 ≤ loop ∧ loop ≤ 1) (iRoute streamID : ℤ) :
    (new sFile pBuffer iMaxBuffer hpositive false false loop iRoute streamID).Ready sFile
      (capacity iMaxBuffer) := by
  rcases FileBuffer.fread_rest sFile sFile pBuffer iMaxBuffer 0 hpositive (Nat.zero_le _) with
    ⟨hrest, -⟩
  refine ⟨hrest, hstart, ?_, hint, rfl, rfl, rfl, ?_, rfl, Or.inl (show (-1 : ℤ) < 0 by decide)⟩
  · have hlength := AnnexB.code_length sFile
    have hfour : AnnexB.code sFile ≤ 4 := by
      rcases AnnexB.code_cases sFile with h | ⟨h, -⟩ | ⟨h, -⟩ <;> omega
    show _ ≤ 0+min (iMaxBuffer-0) sFile.length-0
    omega
  · show ¬ (loop < 0 ∨ 1 < loop)
    omega

/-- The reader sends away the units that a search through the whole file finds. -/
def Unbuffered (m : Surroundings) (sFilename : String) (sFile : Bytes) (pWhole : Memory)
    (r : AVCReader) : Prop :=
  ∃ n r', r.steps m sFilename n = .ok r' ∧ r'.bSchedule = false ∧
    media r'.routed = pieces sFile.length pWhole sFile.length ∧ (media r'.routed).flatten = sFile

/-- The buffer can be made large enough, and no parser of a header runs out of its own. -/
theorem read_unbuffered (m : Surroundings) (sFilename : String) {sFile : Bytes}
    (hstart : 0 < AnnexB.code sFile) (pBuffer : Memory) {pWhole : Memory}
    (hwhole : Stored pWhole 0 sFile) {iMaxBuffer : ℕ} (hpositive : 0 < iMaxBuffer)
    (hfive : 5 ≤ iMaxBuffer) (hint : iMaxBuffer < 2^31) {loop : ℤ} (honce : 0 ≤ loop ∧ loop ≤ 1)
    (iRoute streamID : ℤ) :
    Unbuffered m sFilename sFile pWhole
        (new sFile pBuffer iMaxBuffer hpositive false false loop iRoute streamID) ↔
      Fits (capacity iMaxBuffer) (pieces sFile.length pWhole sFile.length) ∧
        Parses m 0 NAL_t.zero (pieces sFile.length pWhole sFile.length) := by
  have hcut := pieces_cut hwhole (Or.inr hstart) le_rfl
  have hready := new_ready hstart pBuffer hpositive hfive hint honce iRoute streamID
  constructor
  · rintro ⟨n, r', hrun, hstopped, -⟩
    exact steps_reached hcut hready hrun hstopped
  · rintro ⟨hfits, hparses⟩
    rcases steps_reach sFilename hcut hready hfits hparses with
      ⟨n, r', hrun, hstopped, hmedia⟩
    have hmedia' : media r'.routed = pieces sFile.length pWhole sFile.length := hmedia
    refine ⟨n, r', hrun, hstopped, hmedia', ?_⟩
    rw [hmedia', cut_flatten hcut]

/-! ## Two files -/

def quiet : Surroundings := ⟨fun _ => zeroed, fun _ => zeroed⟩

/-- A delimiter and filler data, and a buffer that holds one of them at a time. -/
def shortFile : Bytes := [0, 0, 1, 9, 16, 0, 0, 1, 12, 255]

theorem shortFile_pieces : pieces shortFile.length (store zeroed 0 shortFile) shortFile.length =
    [[0, 0, 1, 9, 16], [0, 0, 1, 12, 255]] := by decide +kernel

theorem read_unbuffered_short : Unbuffered quiet "short" shortFile (store zeroed 0 shortFile)
    (new shortFile zeroed 5 (by decide) false false 1 100 0) := by
  apply (read_unbuffered quiet "short" (by decide) zeroed (stored_store zeroed 0 shortFile)
    (by decide) (by decide) (by norm_num) (by decide) 100 0).mpr
  have hlog : Nat.log 2 ((2^31-1)/5) = 28 := by norm_num
  rw [shortFile_pieces, capacity, hlog]
  constructor
  · constructor
    · show 5+3 ≤ 5*2^28
      norm_num
    · show 5 < 5*2^28
      norm_num
  · exact ⟨_, _, rfl, _, _, rfl, trivial⟩

theorem unit_not_read {sFile : Bytes} (hstart : 0 < AnnexB.code sFile) {iMaxBuffer : ℕ}
    (hpositive : 0 < iMaxBuffer) (hfive : 5 ≤ iMaxBuffer) (hint : iMaxBuffer < 2^31)
    (h : capacity iMaxBuffer < needed sFile) (m : Surroundings) (sFilename : String)
    (pBuffer pWhole : Memory) :
    ¬ Unbuffered m sFilename sFile pWhole
      (new sFile pBuffer iMaxBuffer hpositive false false 1 100 0) := by
  rintro ⟨n, r', hrun, hstopped, -⟩
  have hready := new_ready hstart pBuffer hpositive hfive hint (by decide : (0 : ℤ) ≤ 1 ∧ (1 : ℤ) ≤ 1)
    100 0
  have hcut := pieces_cut (stored_store zeroed 0 sFile) (Or.inr hstart) le_rfl
  have hfits := fits_needed hcut hstart (steps_reached hcut hready hrun hstopped).1
  omega

/-- One unit of filler data. -/
def longFile : Bytes := [0, 0, 0, 1, 12] ++ List.replicate (2^30) 255

theorem longFile_needed : needed longFile = 2^30+6 := by
  have hcode : AnnexB.code longFile = 4 := rfl
  have hbehind : behindCode longFile = none := by
    apply firstCode_none
    rw [hcode]
    show (1 : UInt8) ∉ 12::List.replicate (2^30) 255
    rw [List.mem_cons, List.mem_replicate]
    decide
  rw [(unit_last hbehind).2, longFile, List.length_append, List.length_replicate]
  rfl

/-- With the size the buffer has by default, it cannot be doubled often enough. -/
theorem long_unit_not_read : ¬ Unbuffered quiet "long" longFile (store zeroed 0 longFile)
    (new longFile zeroed (128*1024) (by decide) false false 1 100 0) := by
  have hstart : 0 < AnnexB.code longFile := by
    show 0 < 4
    decide
  have hlog : Nat.log 2 ((2^31-1)/(128*1024)) = 13 := by norm_num
  apply unit_not_read hstart (by decide) (by decide) (by norm_num)
  rw [longFile_needed, capacity, hlog]
  norm_num

end AVCReader

end Sirannon.Reader
