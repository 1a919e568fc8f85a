import Sirannon.PESPacketizer

/-!
# Video transcoder

The time stamps of frames wait in two queues, one beside the decoder and one
beside the encoder, and a frame comes out of the encoder with the next stamp of
the second. At the end both codecs are called for what they still hold; how
often is read off the counters. Pictures are left out.
-/

set_option autoImplicit false

namespace Sirannon.Transcoding
open Bits Media
open PES (mergeFrameParts)

/-- The codecs, by the number of the call since they were opened: what a decoder returns for a
packet of a size and whether a picture is there, what an encoder returns, and the packets made of
what it has encoded. -/
structure Codecs where
  decode : ℕ → ℕ → ℤ × Bool
  encode : ℕ → ℤ
  packets : ℕ → List MediaPacket
  key : ℕ → Bool

/-- A rate is never raised. Without a reduction the numerator is not positive. -/
structure Reduction where
  num : ℤ
  den : ℤ
  den_pos : 0 < den
  le : num ≤ den

/-- The property holds two numbers if there is a reduction. -/
def readReduction : Option (ℤ × ℤ) → Except SirannonException Reduction
  | none => .ok ⟨-1, 1, by decide, by decide⟩
  | some (num, den) =>
    if h : den ≤ 0 ∨ den < num then
      .error (valueError s!"Malformed parameter fps: {num}_{den}")
    else .ok ⟨num, den, by omega, by omega⟩

/-- What is set before the first packet, and what the encoder takes over from the source. -/
structure Settings where
  iReduce : Reduction
  iMinDts : ℤ
  bMovFrame : Bool
  iStream : ℤ
  pDesc : MediaDescriptor
  route : ℤ
  inc : ℤ

/-- An open codec counts its calls. -/
structure TranscoderVideo where
  iUnit : ℤ
  iFrame : ℤ
  pDecoderCtx : Option ℕ
  pEncoderCtx : Option ℕ
  iFrames : ℤ
  iDecoded : ℤ
  iEncoded : ℤ
  iEncodedDts : ℤ
  iFrac : ℤ
  vEncodeDTS : List ℤ
  vDecodeDTS : List ℤ
  vBuffer2 : List MediaPacket
  routed : List MediaPacket

/-- The encoder is open from the start when the source is known then. -/
def TranscoderVideo.new (bKnown : Bool) : TranscoderVideo where
  iUnit := 0
  iFrame := 0
  pDecoderCtx := none
  pEncoderCtx := if bKnown then some 0 else none
  iFrames := 0
  iDecoded := 0
  iEncoded := 0
  iEncodedDts := 0
  iFrac := 0
  vEncodeDTS := []
  vDecodeDTS := []
  vBuffer2 := []
  routed := []

variable (c : Codecs) (o : Settings)

namespace TranscoderVideo

/-! ## Encoder -/

def decoder_init (s : TranscoderVideo) : Option MediaDescriptor →
    Except SirannonException TranscoderVideo
  | none => .error (undefinedBehaviour "descriptor of the decoder")
  | some _ => .ok { s with pDecoderCtx := some 0, iEncoded := 0, iDecoded := 0 }

def encoder_init (s : TranscoderVideo) : Option MediaDescriptor →
    Except SirannonException TranscoderVideo
  | none => .error (undefinedBehaviour "descriptor of the encoder")
  | some _ => .ok { s with pEncoderCtx := some 0 }

def TIMESTAMP_MIN : ℤ := 90000

def subframe (s : TranscoderVideo) (key : Bool) (iSubFrame : ℕ) (bLast : Bool) (pPckt : MediaPacket) :
    MediaPacket :=
  { pPckt with
    content := .video
    type := .media
    xstream := o.iStream
    xroute := o.route
    dts := TIMESTAMP_MIN+(s.iEncodedDts-TIMESTAMP_MIN)/1
    pts := TIMESTAMP_MIN+(s.iEncodedDts-TIMESTAMP_MIN)/1
    inc := o.inc
    desc := some o.pDesc
    framestart := iSubFrame = 0
    frameend := bLast
    codec := o.pDesc.codec
    unitnumber := s.iUnit
    framenumber := s.iFrame
    subframenumber := iSubFrame
    key := key
    mux := if o.bMovFrame then .MOV else .ES }

/-- The loop that releases the buffer. -/
def release (key : Bool) : ℕ → List MediaPacket → TranscoderVideo → TranscoderVideo
  | _, [], s => s
  | iSubFrame, pPckt::vBuffer, s =>
    release key (iSubFrame+1) vBuffer
      { s with
        iUnit := s.iUnit+1
        routed := s.routed ++ [s.subframe o key iSubFrame vBuffer.isEmpty pPckt] }

/-- A frame has been encoded. -/
def encoded (s : TranscoderVideo) (iCall : ℕ) : Except SirannonException TranscoderVideo :=
  match s.vEncodeDTS with
  | [] => .error (undefinedBehaviour "front of no time stamps")
  | iDTS::vEncodeDTS =>
    let s := release o (c.key iCall) 0 (c.packets iCall)
      { s with iEncoded := s.iEncoded+1, iEncodedDts := iDTS, vEncodeDTS := vEncodeDTS }
    .ok { s with iFrame := s.iFrame+1 }

def encodePicture (s : TranscoderVideo) : Except SirannonException TranscoderVideo :=
  let iCall := s.pEncoderCtx.getD 0
  let s := { s with pEncoderCtx := some (iCall+1) }
  if 0 < c.encode iCall then s.encoded c o iCall
  else if c.encode iCall = 0 then .ok s
  else .error (runtimeError "encoding failed")

def encode (s : TranscoderVideo) (pSourcePckt : MediaPacket) :
    Except SirannonException TranscoderVideo :=
  match s.pEncoderCtx with
  | none => do
    let s ← s.encoder_init pSourcePckt.desc
    s.encodePicture c o
  | some _ => s.encodePicture c o

def encode_reset (s : TranscoderVideo) : TranscoderVideo := { s with pEncoderCtx := none }

def encode_ctrl (s : TranscoderVideo) (pPckt : MediaPacket) : TranscoderVideo :=
  let pPckt := { pPckt with
    unitnumber := s.iUnit
    framenumber := s.iFrame
    xstream := o.iStream
    xroute := o.route
    dts := s.iEncodedDts
    pts := s.iEncodedDts
    inc := o.inc
    codec := o.pDesc.codec }
  { s with iUnit := s.iUnit+1, routed := s.routed ++ [pPckt] }

/-! ## Decoder -/

def decode_reset (s : TranscoderVideo) : TranscoderVideo := { s with iFrames := 0, pDecoderCtx := none }

/-- The frame is kept, or dropped. -/
def reduce (s : TranscoderVideo) : Except SirannonException (Bool × TranscoderVideo) :=
  if 0 < o.iReduce.num then
    if 2^31 ≤ s.iFrac+o.iReduce.num then .error (undefinedBehaviour "signed overflow")
    else if o.iReduce.den ≤ s.iFrac+o.iReduce.num then
      .ok (true, { s with iFrac := (s.iFrac+o.iReduce.num)%o.iReduce.den })
    else .ok (false, { s with iFrac := s.iFrac+o.iReduce.num, iFrames := s.iFrames-1 })
  else .ok (true, s)

def kept (s : TranscoderVideo) (pPckt : MediaPacket) (iDTS : ℤ) (iFinished : Bool) :
    Except SirannonException TranscoderVideo :=
  let s := { s with vEncodeDTS := s.vEncodeDTS ++ [iDTS] }
  if iFinished then encode c o { s with iDecoded := s.iDecoded+1 } pPckt
  else .ok s

/-- The decoder has taken the packet. -/
def decoded (s : TranscoderVideo) (pPckt : MediaPacket) (iFinished : Bool) :
    Except SirannonException TranscoderVideo :=
  match s.vDecodeDTS with
  | [] => .error (undefinedBehaviour "front of no time stamps")
  | iDTS::vDecodeDTS =>
    if pPckt.dts < o.iMinDts then .ok { s with iFrames := s.iFrames-1, vDecodeDTS := vDecodeDTS }
    else do
      let s ← reduce o { s with vDecodeDTS := vDecodeDTS }
      if s.1 then s.2.kept c o pPckt iDTS iFinished else .ok s.2

def decode (s : TranscoderVideo) (pPckt : MediaPacket) : Except SirannonException TranscoderVideo :=
  let iCall := s.pDecoderCtx.getD 0
  let s := { s with
    iFrames := s.iFrames+1
    vDecodeDTS := s.vDecodeDTS ++ [pPckt.dts]
    pDecoderCtx := some (iCall+1) }
  let iStatus := (c.decode iCall pPckt.size).1
  if iStatus < 0 then .error ⟨"FFmpegError: Could not decode frame"⟩
  else if iStatus = 0 then .ok s
  else s.decoded c o pPckt (c.decode iCall pPckt.size).2

/-! ## Packets -/

def receive_media (s : TranscoderVideo) (pPckt : MediaPacket) :
    Except SirannonException TranscoderVideo := do
  let s ← if s.pDecoderCtx = none then s.decoder_init pPckt.desc else .ok s
  let merged ← mergeFrameParts s.vBuffer2 pPckt
  match merged.2 with
  | none => .ok { s with vBuffer2 := merged.1 }
  | some pMerged => decode c o { s with vBuffer2 := merged.1 } pMerged

def outOfFuel : SirannonException := undefinedBehaviour "the loop goes on"

/-- What the decoder returns here is not looked at. -/
def drainDecoder (pPckt : MediaPacket) : ℕ → TranscoderVideo → Except SirannonException TranscoderVideo
  | 0, s => if s.iDecoded < s.iFrames then .error outOfFuel else .ok s
  | fuel+1, s =>
    if s.iDecoded < s.iFrames then do
      let s ← encode c o { s with iDecoded := s.iDecoded+1 } pPckt
      drainDecoder pPckt fuel s
    else .ok s

def drainEncoder (pPckt : MediaPacket) : ℕ → TranscoderVideo → Except SirannonException TranscoderVideo
  | 0, s => if s.iEncoded < s.iFrames then .error outOfFuel else .ok s
  | fuel+1, s =>
    if s.iEncoded < s.iFrames then do
      let s ← encode c o s pPckt
      drainEncoder pPckt fuel s
    else .ok s

def receive_ctrl (fuel : ℕ) (s : TranscoderVideo) (pPckt : MediaPacket) :
    Except SirannonException TranscoderVideo := do
  let s ← drainDecoder c o pPckt fuel s
  let s ← drainEncoder c o pPckt fuel s
  let s := s.decode_reset.encode_reset
  return if pPckt.type = .end then s.encode_ctrl o pPckt else s

def receive (fuel : ℕ) (s : TranscoderVideo) (pPckt : MediaPacket) :
    Except SirannonException TranscoderVideo :=
  if pPckt.type = .media then s.receive_media c o pPckt else s.receive_ctrl c o fuel pPckt

def run (fuel : ℕ) : List MediaPacket → TranscoderVideo → Except SirannonException TranscoderVideo
  | [], s => .ok s
  | pPckt::ps, s => do
    let s ← s.receive c o fuel pPckt
    run fuel ps s

end TranscoderVideo

end Sirannon.Transcoding
