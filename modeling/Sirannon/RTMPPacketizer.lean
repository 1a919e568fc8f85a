import Sirannon.MachineInt
import Sirannon.MediaPacket
import Sirannon.StateError

/-!
# RTMP packetizer

A frame becomes one message: a tag header in front of it, which depends on the
codec, and then chunks of at most the chunk size. After a reset the extra data
of AVC and AAC goes out first, as a message of its own.
-/

set_option autoImplicit false

namespace Sirannon.RTMPTag
open MachineInt Bits Media StateError

/-! ## Codecs -/

def FLASH_VIDEO_VP6 : ℕ := 4
def FLASH_VIDEO_VP6_ALPHA : ℕ := 5
def FLASH_VIDEO_H264 : ℕ := 7
def FLASH_VIDEO_KEY_FRAME : ℕ := 1
def FLASH_AUDIO_MP3 : ℕ := 2
def FLASH_AUDIO_AAC : ℕ := 10
def FLASH_AUDIO_MP3_8 : ℕ := 14

def SirannonToFlash : CodecType → ℕ
  | .mp1a => FLASH_AUDIO_MP3
  | .mp2a => FLASH_AUDIO_MP3
  | .mp4a => FLASH_AUDIO_AAC
  | .avc => FLASH_VIDEO_H264
  | .vp6 => FLASH_VIDEO_VP6
  | .vp6f => FLASH_VIDEO_VP6
  | _ => 0

/-- The field for the sample rate, if the rate is supported. -/
def sampleRateField (samplerate : ℤ) : Option ℕ :=
  if samplerate = 48000 ∨ samplerate = 44100 then some 3
  else if samplerate = 22050 then some 2
  else if samplerate = 11025 then some 1
  else if samplerate = 5512 ∨ samplerate = 8000 then some 0
  else none

/-! ## Packetizer -/

/-- A message as the chunks that were routed for it. -/
structure Message where
  iMessageType : ℕ
  iTimestamp : ℤ
  chunks : List MediaPacket

/-- `routed` and `packed` record the chunks handed on, one by one and by message. -/
structure RTMPPacketizer where
  oFlag : OBits
  bReset : Bool
  bGlobalHeader : Bool
  iOldTimestampDelta : ℤ
  iSummedTime : ℤ
  iSize : ℤ
  iUnit : ℤ
  iChunkSize : ℤ
  iStreamID : ℤ
  iChunkID : ℤ
  routed : List MediaPacket
  packed : List Message

def RTMPPacketizer.init (iChunkSize iStreamID iChunkID : ℤ) :
    Except SirannonException RTMPPacketizer :=
  if 63 < iChunkID then .error (runtimeError s!"ChunkID too large: ({iChunkID}) > (63)")
  else .ok {
    oFlag := OBits.new 1
    bReset := true
    bGlobalHeader := false
    iOldTimestampDelta := 0
    iSummedTime := 0
    iSize := -1
    iUnit := 0
    iChunkSize := iChunkSize
    iStreamID := iStreamID
    iChunkID := iChunkID
    routed := []
    packed := [] }

def RTMPPacketizer.flush (s : RTMPPacketizer) : RTMPPacketizer :=
  { s with iSize := -1, iOldTimestampDelta := -1, bReset := true }

abbrev Packing := EStateM SirannonException RTMPPacketizer

def RTMPPacketizer.setFlag (s : RTMPPacketizer) (oFlag : OBits) : RTMPPacketizer :=
  { s with oFlag := oFlag }

def writeFlag (iBits iVal : ℕ) : Packing Unit := do
  let s ← get
  let oFlag ← ofExcept (s.oFlag.write iBits iVal)
  modify fun s => s.setFlag oFlag

def makeFlag (pPckt : MediaPacket) : Packing Unit :=
  match pPckt.content with
  | .video => do
    writeFlag 4 0
    if SirannonToFlash pPckt.codec = 0 then throw (valueError "Unsupported video codec")
    else writeFlag 4 (SirannonToFlash pPckt.codec)
  | .audio =>
    if SirannonToFlash pPckt.codec = 0 then throw (valueError "Unsupported audio codec")
    else do
      writeFlag 4 (SirannonToFlash pPckt.codec)
      match pPckt.desc with
      | none => throw (undefinedBehaviour "packet without a descriptor")
      | some desc =>
        match sampleRateField desc.samplerate with
        | none => throw (valueError s!"Unsupported sample rate({desc.samplerate})")
        | some iRate => do
          writeFlag 2 iRate
          writeFlag 1 1
          writeFlag 1 (if 1 < desc.channels then 1 else 0)
  | .mixed => throw (valueError "Invalid mixed content")

/-- The flag is made for the first packet and kept. -/
def getFlag (pPckt : MediaPacket) : Packing ℕ := do
  let s ← get
  if s.oFlag.size ≠ 0 then pure (s.oFlag.data.headD 0).toNat
  else do
    makeFlag pPckt
    let s ← get
    pure (s.oFlag.data.headD 0).toNat

def keyFlag (pPckt : MediaPacket) : ℕ :=
  if pPckt.content = .video then
    if pPckt.key ∨ pPckt.frame = .SPS then 0x10 else 0x20
  else 0

/-- The fields of the tag header behind the flag. -/
def codecFields (pPckt : MediaPacket) : Except SirannonException (List (ℕ × ℕ)) :=
  if pPckt.codec = .avc then
    if pPckt.frame = .SPS then .ok [(32, 0)]
    else .ok [(8, 0x01), (24, uint32 ((int32 (pPckt.pts-pPckt.dts)).tdiv 90))]
  else if pPckt.codec = .mp4a then .ok [(8, if pPckt.frame ≠ .AUDH then 1 else 0)]
  else if pPckt.codec = .vp6 then .ok [(8, 0)]
  else if pPckt.codec = .vp6f then
    match pPckt.desc with
    | none => .error (undefinedBehaviour "packet without a descriptor")
    | some desc => .ok [(8, (desc.extra_data.headD 0).toNat)]
  else .ok []

attribute [grind =] codecFields

/-- What `pack` finds out about a packet before it cuts it into chunks. -/
structure Timing where
  iMessageType : ℕ
  iTimestamp : ℤ
  iTimestampDelta : ℤ
  bNewSize : Bool
  bNewTimestampDelta : Bool

def isFull (pPckt : MediaPacket) : Bool :=
  pPckt.framenumber ≠ 0 ∧ pPckt.framenumber % (if pPckt.content = .video then 8 else 11) = 0

def chunkFmt (bFirstChunk bFull : Bool) (t : Timing) : ℕ :=
  if bFirstChunk ∧ bFull then 0
  else if bFirstChunk ∧ t.bNewSize then 1
  else if bFirstChunk ∧ t.bNewTimestampDelta then 2
  else 3

def chunkFields (fmt : ℕ) (s : RTMPPacketizer) (t : Timing) (iSize : ℕ) : List (ℕ × ℕ) :=
  (2, fmt)::(6, uint32 s.iChunkID)::
    match fmt with
    | 0 => [(24, uint32 t.iTimestamp), (24, iSize), (8, t.iMessageType), (8, uint32 s.iStreamID),
        (24, 0)]
    | 1 => [(24, uint32 t.iTimestampDelta), (24, iSize), (8, t.iMessageType)]
    | 2 => [(24, uint32 t.iTimestampDelta)]
    | _ => []

/-- The state once the kind of a chunk header is chosen. -/
def RTMPPacketizer.chosen (s : RTMPPacketizer) (fmt : ℕ) : RTMPPacketizer :=
  { s with
    bReset := false
    iOldTimestampDelta := if fmt = 0 then -1 else s.iOldTimestampDelta }

def addChunk (pChunk : MediaPacket) : List Message → List Message
  | [] => []
  | [m] => [{ m with chunks := m.chunks ++ [pChunk] }]
  | m::rest => m::addChunk pChunk rest

def RTMPPacketizer.route (s : RTMPPacketizer) (pChunk : MediaPacket) : RTMPPacketizer :=
  { s with
    iUnit := s.iUnit+1
    routed := s.routed ++ [pChunk]
    packed := addChunk pChunk s.packed }

/-- The metadata of a chunk; `pPckt` is what is left of the packet. -/
def labelled (pChunk pPckt : MediaPacket) (bFirstChunk : Bool) (iUnit iSub : ℤ) : MediaPacket :=
  let pChunk := pChunk.set_metadata pPckt
  { pChunk with
    framestart := bFirstChunk && pPckt.framestart
    frameend := pPckt.size = 0 && pPckt.frameend
    unitnumber := iUnit
    subframenumber := iSub
    mux := .RTMP }

def oneChunk (pPckt : MediaPacket) (oChunkHeader : List UInt8) (iPayload : ℕ) :
    Except SirannonException (MediaPacket × MediaPacket) := do
  let pChunk ← (MediaPacket.new .media pPckt.content iPayload).push_back oChunkHeader
  let pChunk ← pChunk.push_back (pPckt.bytes.take iPayload)
  let pPckt ← pPckt.pop_front iPayload
  return (pChunk, pPckt)

/-- With a chunk size of zero the loop never ends. -/
def chunkLoop (t : Timing) : ℕ → MediaPacket → Bool → ℤ → Packing Unit
  | 0, pPckt, _, _ =>
    if pPckt.size = 0 then pure () else throw (undefinedBehaviour "chunks without end")
  | fuel+1, pPckt, bFirstChunk, iSub =>
    if pPckt.size = 0 then pure () else do
      let s ← get
      let fmt := chunkFmt bFirstChunk (isFull pPckt || s.bReset) t
      modify fun s => s.chosen fmt
      let oChunkHeader ← ofExcept ((OBits.new 2048).writes (chunkFields fmt s t pPckt.size))
      let iPayload := min s.iChunkSize pPckt.size
      if iPayload < 0 then throw (undefinedBehaviour "packet of a negative size") else do
        let cut ← ofExcept (oneChunk pPckt oChunkHeader.data iPayload.toNat)
        modify fun s => s.route (labelled cut.1 cut.2 bFirstChunk s.iUnit iSub)
        chunkLoop t fuel cut.2 false (iSub+1)

def RTMPPacketizer.timing (s : RTMPPacketizer) (iMessageType : ℕ) (pPckt : MediaPacket) : Timing :=
  let iTimestamp := pPckt.dts.tdiv 90
  let iTimestampDelta := int32 (iTimestamp-s.iSummedTime)
  { iMessageType := iMessageType
    iTimestamp := iTimestamp
    iTimestampDelta := iTimestampDelta
    bNewSize := s.iSize ≠ pPckt.size
    bNewTimestampDelta := iTimestampDelta ≠ s.iOldTimestampDelta }

def RTMPPacketizer.timed (s : RTMPPacketizer) (t : Timing) (pPckt : MediaPacket) :
    RTMPPacketizer :=
  { s with
    iSize := pPckt.size
    iSummedTime := int32 (s.iSummedTime+t.iTimestampDelta)
    iOldTimestampDelta := t.iTimestampDelta }

def RTMPPacketizer.opened (s : RTMPPacketizer) (t : Timing) : RTMPPacketizer :=
  { s with packed := s.packed ++ [⟨t.iMessageType, t.iTimestamp, []⟩] }

def packTyped (iMessageType : ℕ) (pPckt : MediaPacket) (iSub : ℤ) : Packing Unit := do
  let s ← get
  let t := s.timing iMessageType pPckt
  modify fun s => s.timed t pPckt
  let iFlag ← getFlag pPckt
  let fields ← ofExcept (codecFields pPckt)
  let oMessageHeader ← ofExcept ((OBits.new 2048).writes ((8, iFlag ||| keyFlag pPckt)::fields))
  let pPckt ← ofExcept (pPckt.push_front oMessageHeader.data)
  modify fun s => s.opened t
  chunkLoop t pPckt.size pPckt true iSub

def pack (pPckt : MediaPacket) (iSub : ℤ) : Packing Unit :=
  match pPckt.content with
  | .video => packTyped 9 pPckt iSub
  | .audio => packTyped 8 pPckt iSub
  | .mixed => throw (runtimeError "Content must be either video or audio for RTMP")

/-- The packet for the extra data, as if it were a frame in front of the first one. -/
def extraPacket (pPckt : MediaPacket) (desc : MediaDescriptor) (frame : FrameType) :
    Except SirannonException MediaPacket := do
  let pExtraPckt ← (MediaPacket.new .media pPckt.content desc.extra_data.length).push_back
    desc.extra_data
  let pExtraPckt := pExtraPckt.set_metadata pPckt
  return { pExtraPckt with frame := frame, framestart := true, frameend := false }

def packExtra (pPckt : MediaPacket) (frame : FrameType) : Packing Unit :=
  match pPckt.desc with
  | none => throw (undefinedBehaviour "packet without a descriptor")
  | some desc => do
    let pExtraPckt ← ofExcept (extraPacket pPckt desc frame)
    pack pExtraPckt 0
    pack { pPckt with framestart := false } 1
    modify fun s => { s with bGlobalHeader := false }

def receiveMOV (pPckt : MediaPacket) : Packing Unit := do
  let s ← get
  if s.bReset = false then pack pPckt 0
  else match pPckt.content with
    | .video => packExtra pPckt .SPS
    | .audio => packExtra pPckt .AUDH
    | .mixed => throw (runtimeError "content must be either video or audio for RTMP")

attribute [grind =] receiveMOV

def receive (pPckt : MediaPacket) : Packing Unit :=
  match pPckt.codec with
  | .mp1a => pack pPckt 0
  | .mp2a => pack pPckt 0
  | .vp6 => pack pPckt 0
  | .vp6f => pack pPckt 0
  | .mp4a =>
    if pPckt.mux ≠ .MOV then throw (typeError "Frame not in MP4 format") else receiveMOV pPckt
  | .avc =>
    if pPckt.mux ≠ .MOV then throw (typeError "Frame not in MP4 format") else receiveMOV pPckt
  | _ => throw (typeError "Codec type is not supported for RTMP")

/-! ## Messages -/

def headerBytes : ℕ → ℕ
  | 0 => 12
  | 1 => 8
  | 2 => 4
  | _ => 1

/-- The size of a chunk header goes with the first two bits. -/
def headerSize (bytes : List UInt8) : ℕ := headerBytes ((bytes.headD 0).toNat/64)

/-- What a receiver of the chunks puts together. -/
def Message.payload (m : Message) : List UInt8 :=
  m.chunks.flatMap fun c => c.bytes.drop (headerSize c.bytes)

end Sirannon.RTMPTag
