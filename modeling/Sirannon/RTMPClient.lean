import Sirannon.H264Parsing
import Sirannon.RTMPChunkStream
import Sirannon.RTMPPacketizer

/-!
# RTMP client

What a client makes of the video and audio messages it receives: the extra
data goes into the descriptor of the stream, any other message becomes one
packet. Packets in MOV format may pass through a converter on their way to the
queue.
-/

set_option autoImplicit false

namespace Sirannon.RTMPTag
open MachineInt Bits ByteMemory Media

/-! ## Descriptors -/

/-- `behind` is the array of the extra data as far as it does not hold extra data. -/
structure Descriptor extends MediaDescriptor where
  behind : Memory
  inc : ℕ
  route : ℤ
  framesize : ℤ
  profile : ℕ
  lengthSize : ℕ

def maxExtraSize : ℕ := 5*1024

def Descriptor.getExtraSize (d : Descriptor) : ℕ := d.extra_data.length

def Descriptor.setExtraData (d : Descriptor) (pData : List UInt8) :
    Except SirannonException Descriptor :=
  if maxExtraSize < pData.length then
    .error (outOfBoundsError s!"Extra data too large: {pData.length} > {maxExtraSize} (byte)")
  else .ok { d with behind := store d.behind 0 d.extra_data, extra_data := pData }

def Descriptor.extra (d : Descriptor) : IBits :=
  IBits.new (store d.behind 0 d.extra_data) d.getExtraSize

def mp4aSampleRate (iIdx : ℕ) : ℤ :=
  [96000, 88200, 64000, 48000, 44100, 32000, 24000, 22050, 16000, 12000, 11025, 8000, 7350].getD
    iIdx 0

def mp4aChannels (iIdx : ℕ) : Except SirannonException ℤ :=
  match [(0 : ℤ), 1, 2, 3, 4, 5, 6, 8][iIdx]? with
  | some iChannels => .ok iChannels
  | none => .error (undefinedBehaviour "channel configuration outside the table")

def ESDS2META (d : Descriptor) : Except SirannonException Descriptor :=
  if d.getExtraSize < 2 then
    .error (runtimeError s!"MP4Converter: AAC extra data too short: ({d.getExtraSize}) < 2")
  else do
    let iProfile := d.extra.read 5
    let iSample := iProfile.2.read 4
    let iChannel := iSample.2.read 4
    let channels ← mp4aChannels iChannel.1
    return { d with
      profile := iProfile.1
      samplerate := mp4aSampleRate iSample.1
      channels := channels }

/-- Width and height count units of sixteen. -/
def Descriptor.sized (d : Descriptor) (iWidth iHeight : ℕ) : Descriptor :=
  if d.height = 0 ∧ d.width = 0 then
    { d with height := int32 ((iHeight+1)*2^4), width := int32 ((iWidth+1)*2^4) }
  else d

def AVCC2META (pStack : Memory) (d : Descriptor) : Except SirannonException Descriptor :=
  let lengthSize := (d.extra.seek 4).read 8
  let iCount := lengthSize.2.read 8
  let iSPS := iCount.2.read 16
  if iCount.1%2^5 = 0 ∨ iSPS.1 = 0 then
    .error (runtimeError s!"MP4Converter: No SPS in exta data: ({d.getExtraSize})")
  else do
    let oH264Decode ← H264.H264_parse_SPS pStack (shift iSPS.2.buf iSPS.2.v) iSPS.1 H264.NAL_t.zero
    return ({ d with lengthSize := lengthSize.1%2^2+1 } : Descriptor).sized
      oH264Decode.pic_width_in_mbs_minus1 oH264Decode.pic_height_in_map_units_minus1

/-! ## Client -/

structure VideoStream where
  bVideoMov : Bool
  bVideoMetaData : Bool
  iVideoUnit : ℤ
  iVideoStream : ℤ
  iLastVideoDts : ℤ
  pVideoDesc : Descriptor

structure AudioStream where
  bAudioMov : Bool
  bAudioMetaData : Bool
  iAudioUnit : ℤ
  iAudioStream : ℤ
  iLastAudioDts : ℤ
  pAudioDesc : Descriptor

/-- `oAnnexB` is the state of the converter. -/
structure RTMPClient (C : Type) extends VideoStream, AudioStream where
  bAnnexB : Bool
  oAnnexB : C
  mBuffer : List MediaPacket

/-- `convertES` with what it does to the queue. -/
abbrev Converter (C : Type) :=
  C → MediaPacket → List MediaPacket → Bool → Except SirannonException (C × List MediaPacket)

abbrev message_t := RTMPChunkStream.Message

inductive VideoCodec
  | avc | vp6 | other
  deriving DecidableEq, Repr

/-- The codec and the number of bits behind the flag. -/
def videoCodec : ℕ → Option (VideoCodec × ℕ)
  | 2 => some (.other, 0)
  | 3 => some (.other, 0)
  | 4 => some (.vp6, 8)
  | 5 => some (.vp6, 8)
  | 6 => some (.other, 0)
  | 7 => some (.avc, 32)
  | _ => none

section
variable {C : Type}

def RTMPClient.setVideo (s : RTMPClient C) (v : VideoStream) : RTMPClient C :=
  { s with toVideoStream := v }

def RTMPClient.setAudio (s : RTMPClient C) (a : AudioStream) : RTMPClient C :=
  { s with toAudioStream := a }

def RTMPClient.push (s : RTMPClient C) (pPckt : MediaPacket) : RTMPClient C :=
  { s with mBuffer := s.mBuffer ++ [pPckt] }

def RTMPClient.queue (convertES : Converter C) (s : RTMPClient C) (bMov : Bool)
    (pPckt : MediaPacket) (bAddParameterSets : Bool) : Except SirannonException (RTMPClient C) :=
  if s.bAnnexB ∧ bMov then do
    let r ← convertES s.oAnnexB pPckt s.mBuffer bAddParameterSets
    return { s with oAnnexB := r.1, mBuffer := r.2 }
  else .ok (s.push pPckt)

/-- What the reader of a message has not read yet. -/
def remaining (pMessage : message_t) (oBuffer : IBits) : List UInt8 :=
  load oBuffer.buf oBuffer.v (pMessage.messageLength-oBuffer.v)

def setVideoExtra (pStack : Memory) (v : VideoStream) (pData : List UInt8) :
    Except SirannonException VideoStream :=
  if v.pVideoDesc.getExtraSize = 0 then do
    let d ← v.pVideoDesc.setExtraData pData
    let d ← AVCC2META pStack d
    return { v with bVideoMetaData := true, pVideoDesc := d }
  else .ok { v with bVideoMetaData := true }

/-- The first byte of VP6 data is kept as extra data if there is none. -/
def keepVP6 (codec : VideoCodec) (d : Descriptor) (pData : List UInt8) : Descriptor :=
  if d.getExtraSize = 0 ∧ codec = .vp6 then { d with extra_data := pData.take 1 } else d

def VideoStream.timed (v : VideoStream) (iTime : ℤ) : VideoStream :=
  { v with
    iVideoUnit := v.iVideoUnit+1
    iLastVideoDts := if iTime = v.iLastVideoDts then int32 (iTime+90) else iTime
    pVideoDesc :=
      if 0 < v.iLastVideoDts then { v.pVideoDesc with inc := uint32 (iTime-v.iLastVideoDts) }
      else v.pVideoDesc }

def videoPacket (v : VideoStream) (iKey iSuffix : ℕ) (iTime : ℤ) (pPckt : MediaPacket) :
    MediaPacket :=
  let w := v.timed iTime
  { pPckt with
    unitnumber := v.iVideoUnit
    framenumber := v.iVideoUnit
    dts := w.iLastVideoDts
    pts :=
      if w.pVideoDesc.codec = .avc then int32 (w.iLastVideoDts+(iSuffix%2^24 : ℕ)*90)
      else w.iLastVideoDts
    inc := w.pVideoDesc.inc
    codec := w.pVideoDesc.codec
    mux := if v.bVideoMov then .MOV else .ES
    framestart := true
    frameend := true
    key := iKey = FLASH_VIDEO_KEY_FRAME
    desc := some w.pVideoDesc.toMediaDescriptor
    xroute := w.pVideoDesc.route
    xstream := v.iVideoStream }

def handleVideo (convertES : Converter C) (pStack : Memory) (pMessage : message_t)
    (s : RTMPClient C) : Except SirannonException (RTMPClient C) := do
  let iKey := pMessage.oBuffer.read 4
  let iCodecID := iKey.2.read 4
  match videoCodec iCodecID.1 with
  | none => return s
  | some (codec, iBits) =>
    let iSuffix := iCodecID.2.read iBits
    if pMessage.messageLength < iSuffix.2.v+2 then return s
    else if codec = .avc ∧ iSuffix.1 = 0 then
      let v ← setVideoExtra pStack s.toVideoStream (remaining pMessage iSuffix.2)
      return s.setVideo v
    else
      let v := { s.toVideoStream with
        pVideoDesc := keepVP6 codec s.pVideoDesc (remaining pMessage iSuffix.2) }
      let pPckt ← (MediaPacket.new .media .video pMessage.messageLength).push_back
        (remaining pMessage iSuffix.2)
      let iTime := int32 (pMessage.timestamp*90)
      let pPckt := videoPacket v iKey.1 iSuffix.1 iTime pPckt
      (s.setVideo (v.timed iTime)).queue convertES s.bVideoMov pPckt pPckt.key

inductive AudioCodec
  | mp4a | mp1a | other
  deriving DecidableEq, Repr

/-- The codec and the number of bits behind the flag. -/
def audioCodec (iCodecID : ℕ) : Option (AudioCodec × ℕ) :=
  if iCodecID = FLASH_AUDIO_AAC then some (.mp4a, 8)
  else if iCodecID = FLASH_AUDIO_MP3 ∨ iCodecID = FLASH_AUDIO_MP3_8 then some (.mp1a, 0)
  else if iCodecID ∈ [1, 3, 4, 5, 6, 7, 8, 9, 11, 15] then some (.other, 0)
  else none

def setAudioExtra (a : AudioStream) (pData : List UInt8) : Except SirannonException AudioStream :=
  if a.pAudioDesc.getExtraSize = 0 then do
    let d ← a.pAudioDesc.setExtraData pData
    let d ← ESDS2META d
    return { a with bAudioMetaData := true, pAudioDesc := d }
  else .ok { a with bAudioMetaData := true }

def Descriptor.stepped (d : Descriptor) (iTime iLast : ℤ) : Descriptor :=
  if 0 < iLast then { d with inc := uint32 (iTime-iLast) } else d

/-- The product is taken without a sign. -/
def Descriptor.framed (d : Descriptor) : Descriptor :=
  if d.framesize = 0 ∧ 0 < d.inc then
    { d with framesize := int32 (uint32 (d.inc*d.samplerate)/90000 : ℕ) }
  else d

def AudioStream.timed (a : AudioStream) (iTime : ℤ) : AudioStream :=
  { a with
    iAudioUnit := a.iAudioUnit+1
    iLastAudioDts := iTime
    pAudioDesc := (a.pAudioDesc.stepped iTime a.iLastAudioDts).framed }

def audioPacket (a : AudioStream) (iTime : ℤ) (pPckt : MediaPacket) : MediaPacket :=
  let b := a.timed iTime
  { pPckt with
    unitnumber := a.iAudioUnit
    framenumber := a.iAudioUnit
    dts := iTime
    pts := iTime
    inc := b.pAudioDesc.inc
    mux := if a.bAudioMov then .MOV else .ES
    framestart := true
    frameend := true
    key := true
    desc := some b.pAudioDesc.toMediaDescriptor
    xroute := b.pAudioDesc.route
    xstream := a.iAudioStream
    codec := b.pAudioDesc.codec }

def handleAudio (convertES : Converter C) (pMessage : message_t) (s : RTMPClient C) :
    Except SirannonException (RTMPClient C) :=
  if pMessage.messageLength = 0 then .ok s
  else
    let iCodecID := pMessage.oBuffer.read 4
    let iFlags := iCodecID.2.read 4
    match audioCodec iCodecID.1 with
    | none => .ok s
    | some (codec, iBits) =>
      let iSuffix := iFlags.2.read iBits
      if codec = .mp4a ∧ iSuffix.1 = 0 then do
        let a ← setAudioExtra s.toAudioStream (remaining pMessage iSuffix.2)
        return s.setAudio a
      else do
        let pPckt ← (MediaPacket.new .media .audio pMessage.messageLength).push_back
          (remaining pMessage iSuffix.2)
        let iTime := int32 (pMessage.timestamp*90)
        (s.setAudio (s.toAudioStream.timed iTime)).queue convertES s.bAudioMov
          (audioPacket s.toAudioStream iTime pPckt) false

/-- The handler of a message goes with its type. -/
def handle (convertES : Converter C) (pStack : Memory) (s : RTMPClient C) (pMessage : message_t) :
    Except SirannonException (RTMPClient C) :=
  if pMessage.messageTypeId = 9 then handleVideo convertES pStack pMessage s
  else if pMessage.messageTypeId = 8 then handleAudio convertES pMessage s
  else .ok s

end

end Sirannon.RTMPTag
