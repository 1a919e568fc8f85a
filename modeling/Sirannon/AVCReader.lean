import Sirannon.AnnexB
import Sirannon.MediaPacket

/-!
# The reader of H.264 files

A file is brought into a buffer part by part, and each step takes the next NAL
unit out of it. When the end of the unit is not in the buffer, what is left is
shifted to the front, or the buffer is enlarged, and filled up again. The units
are parsed and kept until the next picture begins.
-/

set_option autoImplicit false

namespace Sirannon.Reader
open ByteMemory Bits Media H264 AnnexB

/-! ## The buffer -/

/-- `sFile` is the file, and `oFile` what has not been read of it. The end of the file is seen by
the read that asks for more than there is. -/
structure FileBuffer where
  sFile : Bytes
  oFile : Bytes
  bEof : Bool
  iMaxBuffer : ℕ
  pBuffer : Memory
  iIndex : ℕ
  iEndIndex : ℕ
  positive : 0 < iMaxBuffer
  index : iIndex ≤ iEndIndex
  room : iEndIndex ≤ iMaxBuffer
  full : bEof = false → iEndIndex = iMaxBuffer
  ended : bEof = true → oFile = [] ∧ iEndIndex < iMaxBuffer

/-- `fread` up to the end of a buffer of which `iEndIndex` bytes are in use. -/
def FileBuffer.fread (sFile oFile : Bytes) (pBuffer : Memory) (iMaxBuffer iEndIndex : ℕ)
    (positive : 0 < iMaxBuffer) (room : iEndIndex ≤ iMaxBuffer) : FileBuffer where
  sFile := sFile
  oFile := oFile.drop (iMaxBuffer-iEndIndex)
  bEof := decide (oFile.length < iMaxBuffer-iEndIndex)
  iMaxBuffer := iMaxBuffer
  pBuffer := store pBuffer iEndIndex (oFile.take (iMaxBuffer-iEndIndex))
  iIndex := 0
  iEndIndex := iEndIndex+min (iMaxBuffer-iEndIndex) oFile.length
  positive := positive
  index := Nat.zero_le _
  room := by omega
  full := by
    intro h
    have hlength := of_decide_eq_false h
    omega
  ended := by
    intro h
    have hlength := of_decide_eq_true h
    exact ⟨List.drop_eq_nil_of_le hlength.le, by omega⟩

namespace FileBuffer

/-- From the start of the file, into the buffer as it is. -/
def reload (b : FileBuffer) : FileBuffer :=
  fread b.sFile b.sFile b.pBuffer b.iMaxBuffer 0 b.positive (Nat.zero_le _)

def shifted (b : FileBuffer) : FileBuffer :=
  fread b.sFile b.oFile
    (store b.pBuffer 0 (load b.pBuffer b.iIndex (b.iEndIndex-b.iIndex))) b.iMaxBuffer
    (b.iEndIndex-b.iIndex) b.positive ((Nat.sub_le _ _).trans b.room)

def enlarged (b : FileBuffer) : FileBuffer :=
  fread b.sFile b.oFile b.pBuffer (b.iMaxBuffer*2) b.iEndIndex (Nat.mul_pos b.positive two_pos)
    (b.room.trans (Nat.le_mul_of_pos_right _ two_pos))

/-- The bytes that are in the buffer. -/
def available (b : FileBuffer) : ℕ := b.iEndIndex-b.iIndex

def advanced (b : FileBuffer) (iOffset : ℕ) (h : iOffset ≤ b.available) : FileBuffer :=
  { b with
    iIndex := b.iIndex+iOffset
    index := by
      have hindex := b.index
      rw [available] at h
      omega }

end FileBuffer

/-- Where the next NAL unit begins. -/
structure Offset where
  buffer : FileBuffer
  iOffset : ℕ
  bLast : Bool
  inside : iOffset ≤ buffer.available

/-- The loop in front of each unit. A buffer of more than `INT_MAX` bytes cannot be asked for. -/
def findOffset (b : FileBuffer) : Except SirannonException Offset :=
  if h : H264_find_NAL (shift b.pBuffer b.iIndex) b.available < b.available then
    .ok ⟨b, H264_find_NAL (shift b.pBuffer b.iIndex) b.available, false, h.le⟩
  else if b.bEof then .ok ⟨b, b.available, true, le_rfl⟩
  else if hindex : 0 < b.iIndex then findOffset b.shifted
  else if _hmax : 2^31 ≤ b.iMaxBuffer*2 then .error (undefinedBehaviour "overflow of iMaxBuffer")
  else findOffset b.enlarged
termination_by (2^31-b.iMaxBuffer, b.iIndex)
decreasing_by
  · exact Prod.Lex.right _ hindex
  · have hpositive := b.positive
    apply Prod.Lex.left
    show 2^31-b.iMaxBuffer*2 < 2^31-b.iMaxBuffer
    omega

/-! ## Frames -/

def SLICE_TYPE_P : ℕ := 0
def SLICE_TYPE_B : ℕ := 1
def SLICE_TYPE_I : ℕ := 2
def SLICE_TYPE_EP : ℕ := 0
def SLICE_TYPE_EB : ℕ := 1
def SLICE_TYPE_EI : ℕ := 2
def SLICE_TYPE_SP : ℕ := 3
def SLICE_TYPE_SI : ℕ := 4
def SLICE_TYPE_P2 : ℕ := 5
def SLICE_TYPE_B2 : ℕ := 6
def SLICE_TYPE_I2 : ℕ := 7
def SLICE_TYPE_SP2 : ℕ := 8
def SLICE_TYPE_SI2 : ℕ := 9

def SliceToXFrame (iSliceType : ℕ) : FrameType :=
  if iSliceType ∈ [SLICE_TYPE_I, SLICE_TYPE_I2] then .I
  else if iSliceType ∈ [SLICE_TYPE_SI, SLICE_TYPE_SI2] then .SI
  else if iSliceType ∈ [SLICE_TYPE_P, SLICE_TYPE_P2] then .P
  else if iSliceType ∈ [SLICE_TYPE_SP, SLICE_TYPE_SP2] then .SP
  else if iSliceType ∈ [SLICE_TYPE_B, SLICE_TYPE_B2] then .B
  else .no_frame

def SVCSliceToXFrame (iSliceType : ℕ) : FrameType :=
  if iSliceType = SLICE_TYPE_EP then .EP
  else if iSliceType = SLICE_TYPE_EB then .EB
  else if iSliceType = SLICE_TYPE_EI then .EI
  else .no_frame

def H264FrameToXFrame (iNALType iSliceType : ℕ) : FrameType :=
  if iNALType = NAL_UNIT_TYPE_SEI then .SEI
  else if iNALType = NAL_UNIT_TYPE_SPS then .SPS
  else if iNALType ∈ [NAL_UNIT_TYPE_SPS_SVC, NAL_UNIT_TYPE_SPS_EXT] then .ESPS
  else if iNALType = NAL_UNIT_TYPE_PPS then .PPS
  else if iNALType = NAL_UNIT_TYPE_PREFIX then .E
  else if iNALType = NAL_UNIT_TYPE_ACCESS_UNIT_DELIM then .AUD
  else if iNALType ∈ [NAL_UNIT_TYPE_END_OF_SEQ, NAL_UNIT_TYPE_END_OF_STREAM,
    NAL_UNIT_TYPE_FILLER_DATA] then .other
  else if iNALType = NAL_UNIT_TYPE_SLICE_IDR then .IDR
  else if iNALType ∈ [NAL_UNIT_TYPE_SLICE_DP_B, NAL_UNIT_TYPE_SLICE_DP_C] then .other
  else if iNALType = NAL_UNIT_TYPE_SLICE_SVC then SVCSliceToXFrame iSliceType
  else if iNALType ∈ [NAL_UNIT_TYPE_SLICE_DP_A, NAL_UNIT_TYPE_SLICE_NON_IDR] then
    SliceToXFrame iSliceType
  else .no_frame

def IsIFrame (pPckt : MediaPacket) : Bool :=
  pPckt.frame = .I || pPckt.frame = .IDR || pPckt.frame = .SI || pPckt.frame = .EI

/-! ## The reader -/

/-- What memory holds that is not initialised, at the n-th unit: behind the data of its packet, and
on the stack of its parser. -/
structure Surroundings where
  pBehind : ℕ → Memory
  pStack : ℕ → Memory

/-- `iParsed` counts the units that have been parsed. -/
structure AVCReader extends FileBuffer where
  bSkipSEI : Bool
  bSkipAUD : Bool
  loop : ℤ
  iLoop : ℤ
  iRoute : ℤ
  streamID : ℤ
  oH264Decode : NAL_t
  iBound : ℤ
  bKey : Bool
  iUnit : ℤ
  iFrame : ℤ
  vStack : List MediaPacket
  routed : List MediaPacket
  bSchedule : Bool
  iParsed : ℕ

def Surroundings.parse (m : Surroundings) (n : ℕ) (nal : NAL_t) (bs : Bytes) :
    Except SirannonException (ℤ × NAL_t) :=
  H264_parse_NAL (m.pStack n) (store (m.pBehind n) 0 bs) bs.length nal

namespace AVCReader

def new (sFile : Bytes) (pBuffer : Memory) (iMaxBuffer : ℕ) (positive : 0 < iMaxBuffer)
    (bSkipSEI bSkipAUD : Bool) (loop iRoute streamID : ℤ) : AVCReader where
  toFileBuffer := FileBuffer.fread sFile sFile pBuffer iMaxBuffer 0 positive (Nat.zero_le _)
  bSkipSEI := bSkipSEI
  bSkipAUD := bSkipAUD
  loop := loop
  iLoop := 1
  iRoute := iRoute
  streamID := streamID
  oH264Decode := NAL_t.zero
  iBound := -1
  bKey := false
  iUnit := 0
  iFrame := 0
  vStack := []
  routed := []
  bSchedule := true
  iParsed := 0

/-- An empty file is not read. -/
def verified (r : AVCReader) (sFilename : String) : Except SirannonException AVCReader :=
  if r.bEof ∧ r.iEndIndex = 0 then .error (runtimeError s!"Empty file({sFilename})") else .ok r

def prepareBuffer (r : AVCReader) (sFilename : String) : Except SirannonException AVCReader :=
  verified { r with toFileBuffer := r.reload, iBound := -1, oH264Decode := NAL_t.zero } sFilename

/-- A packet of the frame that is sent away, at its place in the stack. -/
def numbered (r : AVCReader) (i : ℕ) (pPckt : MediaPacket) : MediaPacket :=
  { pPckt with
    unitnumber := r.iUnit+i
    framenumber := r.iFrame
    subframenumber := i
    key := r.bKey
    framestart := decide (i = 0)
    frameend := decide (i+1 = r.vStack.length) }

def send_frame (r : AVCReader) : Except SirannonException AVCReader :=
  if r.vStack = [] then .error (runtimeError "buffer underflow")
  else .ok { r with
    routed := r.routed ++ r.vStack.mapIdx r.numbered
    vStack := []
    iUnit := r.iUnit+r.vStack.length
    bKey := false }

def parsed (r : AVCReader) (iJump : ℤ) (nal : NAL_t) : AVCReader :=
  { r with
    oH264Decode := nal
    iBound := if r.iBound < 0 then 0 else iJump
    iParsed := r.iParsed+1 }

/-- Where a picture begins, the last one goes. -/
def atBound (r : AVCReader) : Except SirannonException AVCReader :=
  if 0 < r.iBound then
    match r.send_frame with
    | .error e => .error e
    | .ok r => .ok { r with iFrame := r.iFrame+1 }
  else .ok r

def typed (r : AVCReader) (pPckt : MediaPacket) : MediaPacket :=
  let pPckt := { pPckt with
    frame := H264FrameToXFrame r.oH264Decode.nal_unit_type r.oH264Decode.slice_type }
  if r.oH264Decode.svc ≠ 0 then
    { pPckt with
      codec := .svc
      T := r.oH264Decode.temporal_id
      Q := r.oH264Decode.quality_id
      D := r.oH264Decode.dependency_id }
  else pPckt

def stacked (r : AVCReader) (pPckt : MediaPacket) : AVCReader :=
  { r with
    bKey := IsIFrame (r.typed pPckt) || r.bKey
    vStack := r.vStack ++ [r.typed pPckt] }

def classify (m : Surroundings) (r : AVCReader) (pPckt : MediaPacket) :
    Except SirannonException AVCReader :=
  match m.parse r.iParsed r.oH264Decode pPckt.bytes with
  | .error e => .error e
  | .ok (iJump, nal) =>
    if iJump < 0 then .error (runtimeError "failed to parse")
    else
      match (r.parsed iJump nal).atBound with
      | .error e => .error e
      | .ok r => .ok (r.stacked pPckt)

/-- A packet of this type ends what came before. -/
def classify_ctrl (r : AVCReader) (type : PacketType) : Except SirannonException AVCReader :=
  match r.send_frame with
  | .error e => .error e
  | .ok r =>
    let pPckt := { MediaPacket.new type .video 0 with
      framenumber := r.iFrame+1
      unitnumber := r.iUnit
      subframenumber := 0
      framestart := true
      frameend := true
      xroute := r.iRoute
      xstream := r.streamID
      mux := .ES
      codec := .avc }
    .ok { r with
      iFrame := r.iFrame+1
      iUnit := r.iUnit+1
      routed := r.routed ++ [pPckt] }

def looped (r : AVCReader) : AVCReader :=
  if r.loop < 0 then r else { r with iLoop := r.iLoop+1 }

/-- The file is over. -/
def finish (r : AVCReader) (sFilename : String) : Except SirannonException AVCReader :=
  if r.loop < 0 ∨ r.iLoop < r.loop then
    match r.looped.classify_ctrl .reset with
    | .error e => .error e
    | .ok r => r.prepareBuffer sFilename
  else
    match r.looped.classify_ctrl .«end» with
    | .error e => .error e
    | .ok r => .ok { r with bSchedule := false }

def packet (r : AVCReader) (bs : Bytes) : Except SirannonException MediaPacket :=
  MediaPacket.push_back
    { MediaPacket.new .media .video bs.length with
      codec := .avc
      xroute := r.iRoute
      xstream := r.streamID } bs

/-- Is a unit of this type left out? -/
def skips (r : AVCReader) (iNAL : ℕ) : Prop :=
  (r.bSkipSEI = true ∧ iNAL = NAL_UNIT_TYPE_SEI) ∨
    (r.bSkipAUD = true ∧ iNAL = NAL_UNIT_TYPE_ACCESS_UNIT_DELIM)

instance (r : AVCReader) (iNAL : ℕ) : Decidable (r.skips iNAL) := inferInstanceAs (Decidable (_ ∨ _))

def moved (r : AVCReader) (o : Offset) : AVCReader :=
  { r with toFileBuffer := o.buffer.advanced o.iOffset o.inside }

/-- The unit in front of `o` has been found. -/
def take (m : Surroundings) (r : AVCReader) (sFilename : String) (o : Offset) :
    Except SirannonException (Bool × AVCReader) :=
  let r := r.moved o
  if r.skips (H264_NAL_type (shift o.buffer.pBuffer o.buffer.iIndex)) then .ok (true, r)
  else
    match r.packet (load o.buffer.pBuffer o.buffer.iIndex o.iOffset) with
    | .error e => .error e
    | .ok pPckt =>
      match r.classify m pPckt with
      | .error e => .error e
      | .ok r =>
        if o.bLast then (r.finish sFilename).map fun r => (false, r) else .ok (true, r)

def doStep (m : Surroundings) (sFilename : String) (r : AVCReader) :
    Except SirannonException (Bool × AVCReader) :=
  if H264_is_start_code (shift r.pBuffer r.iIndex) = 0 then
    .error (runtimeError "Could not find a start code:")
  else
    match findOffset r.toFileBuffer with
    | .error e => .error e
    | .ok o => r.take m sFilename o

/-- Steps, as long as the reader is scheduled. -/
def steps (m : Surroundings) (sFilename : String) : ℕ → AVCReader → Except SirannonException AVCReader
  | 0, r => .ok r
  | n+1, r =>
    if r.bSchedule then
      match r.doStep m sFilename with
      | .error e => .error e
      | .ok (_, r) => steps m sFilename n r
    else .ok r

end AVCReader

end Sirannon.Reader
