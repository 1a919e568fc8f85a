import Sirannon.MediaPacket
import Sirannon.StateError

/-!
# TS demultiplexer

Packets of 188 bytes are told apart by their PID. The tables on PID 0 and on
the PIDs it announces say which PIDs carry streams; the packets of a stream are
collected until the next one that starts a PES packet. A counter for each PID
shows whether packets were lost.
-/

set_option autoImplicit false

namespace Sirannon.Demultiplexing
open Bits BitString ByteMemory Media StateError Std

def FIRST_SYNC : ℤ := -3

def LOST_SYNC : ℤ := -2

def iMaxFrame : ℕ := 1024*1024

def GetPmtCodec (iPMT : ℕ) : CodecType :=
  if iPMT = 0x01 then .mp1v
  else if iPMT = 0x02 then .mp2v
  else if iPMT = 0x10 then .mp4v
  else if iPMT = 0x1B then .avc
  else if iPMT = 0x03 then .mp1a
  else if iPMT = 0x04 then .mp2a
  else if iPMT = 0x11 ∨ iPMT = 0x0F then .mp4a
  else if iPMT = 0xA0 then .wmvc
  else .NO

def CodecToContent : CodecType → ContentType
  | .avc | .svc | .mp1v | .mp2v | .mp4v | .wmv1 | .wmv2 | .wmv3 | .wmvc | .vp6 | .vp6f | .vp8
  | .yuv | .h263 | .theora | .flv1 => .video
  | .mp1a | .mp2a | .mp4a | .ac3 | .wma1 | .wma2 | .vorbis | .anb | .awb | .awbp | .pcm
  | .swfa => .audio
  | _ => .mixed

def MediaDescriptor.new : MediaDescriptor := ⟨.video, .NO, 0, 0, 0, 0, 0, []⟩

/-- `pData` is the part of the buffer up to `iPos`. -/
structure Stream where
  pData : List UInt8
  iStream : ℕ
  iUnit : ℤ
  iCodec : CodecType
  iContent : ContentType
  desc : MediaDescriptor
  iRoute : ℤ
  iXstream : ℤ
  deriving DecidableEq, Repr

def Stream.iPos (pStream : Stream) : ℕ := pStream.pData.length

structure PMT where
  mStreams : TreeMap ℕ ℕ
  iChannel : ℤ
  iVersion : ℤ
  iPCR : ℕ

/-- What the source does with memory: the length it takes a payload to have, how far it read in a
table of a given size, and which range it copied to which place. -/
inductive Access
  | payload (iPayload : ℤ)
  | table (iSize : ℤ) (iRead : ℕ)
  | copy (iFrom : ℕ) (iPos : ℕ) (iSize : ℤ)
  deriving DecidableEq, Repr

/-- `iStreamID` is the counter of `nextStreamID`; `routed` and `accesses` record what the component
did. -/
structure TSDemultiplexer where
  mStreams : TreeMap ℕ Stream
  mChannels : TreeMap ℕ PMT
  mCC : TreeMap ℕ ℤ
  iVersion : ℤ
  iID : ℤ
  channel : ℤ
  iVideoRoute : ℤ
  iAudioRoute : ℤ
  iStreamID : ℤ
  routed : List MediaPacket
  accesses : List Access

def TSDemultiplexer.init (channel videoRoute audioRoute iStreamID : ℤ) : TSDemultiplexer where
  mStreams := {}
  mChannels := {}
  mCC := TreeMap.insert {} 0 FIRST_SYNC
  iVersion := -1
  iID := -1
  channel := channel
  iVideoRoute := videoRoute
  iAudioRoute := audioRoute
  iStreamID := iStreamID
  routed := []
  accesses := []

abbrev Demux := EStateM SirannonException TSDemultiplexer

def TSDemultiplexer.logged (s : TSDemultiplexer) (a : Access) : TSDemultiplexer :=
  { s with accesses := s.accesses ++ [a] }

/-! ## Tables -/

/-- A reader that remembers how far it read. -/
structure Reader where
  bits : IBits
  extent : ℕ

def Reader.new (pData : Memory) (iSize : ℤ) : Reader := ⟨IBits.new pData iSize.toNat, 0⟩

def Reader.read (r : Reader) (iBits : ℕ) : ℕ × Reader :=
  ((r.bits.read iBits).1, ⟨(r.bits.read iBits).2, max r.extent (r.bits.read iBits).2.v⟩)

def Reader.seek (r : Reader) (iBytes : ℕ) : Reader := ⟨r.bits.seek iBytes, r.extent⟩

def PMT.new (iChannel : ℕ) : PMT := ⟨{}, iChannel, -1, 0⟩

def TSDemultiplexer.addChannel (s : TSDemultiplexer) (iChannel iPID : ℕ) : TSDemultiplexer :=
  if s.channel < 0 ∨ s.channel = iChannel then
    if iPID ∈ s.mChannels then s
    else { s with
      mChannels := s.mChannels.insert iPID (PMT.new iChannel)
      mCC := s.mCC.insert iPID FIRST_SYNC }
  else s

def parseChannels : ℕ → ℕ → Reader → TSDemultiplexer → Reader × TSDemultiplexer
  | 0, _, r, s => (r, s)
  | fuel+1, iLength, r, s =>
    if 4 < iLength then
      let (iChannel, r) := r.read 16
      let (iSyntax, r) := r.read 3
      if iSyntax ≠ 0x07 then (r, s)
      else
        let (iPID, r) := r.read 13
        parseChannels fuel (iLength-4) r (s.addChannel iChannel iPID)
    else ((r.read 32).2, s)

def TSDemultiplexer.setID (s : TSDemultiplexer) (iID : ℕ) : TSDemultiplexer :=
  if s.iID < 0 then { s with iID := iID } else s

def TSDemultiplexer.parsePAT (s : TSDemultiplexer) (pData : Memory) (iSize : ℤ) :
    Reader × TSDemultiplexer :=
  let (iPointer, r) := (Reader.new pData iSize).read 8
  if iPointer ≠ 0 then (r, s)
  else
    let (iTableID, r) := r.read 8
    if iTableID ≠ 0 then (r, s)
    else
      let (iSyntax, r) := r.read 4
      if iSyntax ≠ 0xB then (r, s)
      else
        let (iLength, r) := r.read 12
        if iLength < 5 then (r, s)
        else
          let (iID, r) := r.read 16
          let s := s.setID iID
          if s.iID ≠ iID then (r, s)
          else
            let (iSyntax, r) := r.read 2
            if iSyntax ≠ 0x03 then (r, s)
            else
              let (iVersion, r) := r.read 5
              let (_, r) := r.read 1
              let (_, r) := r.read 8
              let (_, r) := r.read 8
              parseChannels iLength (iLength-5) r { s with iVersion := iVersion }

def Stream.new (iStream : ℕ) (iRoute iXstream : ℤ) : Stream where
  pData := []
  iStream := iStream
  iUnit := 0
  iCodec := GetPmtCodec iStream
  iContent := CodecToContent (GetPmtCodec iStream)
  desc := MediaDescriptor.new
  iRoute := iRoute
  iXstream := iXstream

/-- A stream the other tables do not have yet. -/
def TSDemultiplexer.createStream (s : TSDemultiplexer) (iStream iPID : ℕ) : TSDemultiplexer :=
  if iPID ∈ s.mStreams then s
  else if CodecToContent (GetPmtCodec iStream) = .audio then
    { s with
      mStreams := s.mStreams.insert iPID (Stream.new iStream s.iAudioRoute s.iStreamID)
      mCC := s.mCC.insert iPID FIRST_SYNC
      iAudioRoute := s.iAudioRoute+1
      iStreamID := s.iStreamID+1 }
  else
    { s with
      mStreams := s.mStreams.insert iPID (Stream.new iStream s.iVideoRoute s.iStreamID)
      mCC := s.mCC.insert iPID FIRST_SYNC
      iVideoRoute := s.iVideoRoute+1
      iStreamID := s.iStreamID+1 }

def TSDemultiplexer.addStream (s : TSDemultiplexer) (iPMT iStream iPID : ℕ) : TSDemultiplexer :=
  if GetPmtCodec iStream = .NO then s
  else
    match s.mChannels[iPMT]? with
    | none => s
    | some pPMT =>
      if iPID ∈ pPMT.mStreams then s
      else
        ({ s with
          mChannels := s.mChannels.insert iPMT
            { pPMT with mStreams := pPMT.mStreams.insert iPID iStream } } :
          TSDemultiplexer).createStream iStream iPID

/-- `iLength` is signed: the info of a stream may reach behind the end of the section. -/
def parseStreams (iPMT : ℕ) : ℕ → ℤ → Reader → TSDemultiplexer → Reader × TSDemultiplexer
  | 0, _, r, s => (r, s)
  | fuel+1, iLength, r, s =>
    if 4 < iLength then
      let (iStream, r) := r.read 8
      let (iSyntax, r) := r.read 3
      if iSyntax ≠ 0x07 then (r, s)
      else
        let (iPID, r) := r.read 13
        let (iSyntax, r) := r.read 6
        if iSyntax ≠ 0x3C then (r, s)
        else
          let (iInfo, r) := r.read 10
          parseStreams iPMT fuel (iLength-(5+iInfo)) (r.seek iInfo) (s.addStream iPMT iStream iPID)
    else ((r.read 32).2, s)

def TSDemultiplexer.setPMT (s : TSDemultiplexer) (iPMT : ℕ) (f : PMT → PMT) : TSDemultiplexer :=
  { s with mChannels := s.mChannels.modify iPMT f }

def TSDemultiplexer.parsePMT (s : TSDemultiplexer) (pData : Memory) (iSize : ℤ) (iPMT : ℕ)
    (pPMT : PMT) : Reader × TSDemultiplexer :=
  let (iPointer, r) := (Reader.new pData iSize).read 8
  if iPointer ≠ 0 then (r, s)
  else
    let (iTableID, r) := r.read 8
    if iTableID ≠ 0x02 then (r, s)
    else
      let (iSyntax, r) := r.read 4
      if iSyntax ≠ 0x0B then (r, s)
      else
        let (iLength, r) := r.read 12
        if iLength < 5 then (r, s)
        else
          let (iChannel, r) := r.read 16
          if pPMT.iChannel ≠ iChannel then (r, s)
          else
            let (iSyntax, r) := r.read 2
            if iSyntax ≠ 0x3 then (r, s)
            else
              let (iVersion, r) := r.read 5
              let (_, r) := r.read 1
              let (_, r) := r.read 8
              let (_, r) := r.read 8
              let (_, r) := r.read 3
              let (iPCR, r) := r.read 13
              let s := s.setPMT iPMT fun pPMT => { pPMT with iVersion := iVersion, iPCR := iPCR }
              let (iSyntax, r) := r.read 6
              if iSyntax ≠ 0x3C then (r, s)
              else
                let (iInfo, r) := r.read 10
                let r := r.seek iInfo
                if (iLength : ℤ)-(9+iInfo) < 0 then (r, s)
                else parseStreams iPMT iLength (iLength-(9+iInfo)) r s

/-! ## Streams -/

def Stream.packet (pStream : Stream) (bSkip : Bool) (pckt : MediaPacket) : MediaPacket :=
  { pckt with
    dts := 0
    pts := 0
    inc := 0
    unitnumber := pStream.iUnit
    xstream := pStream.iXstream
    xroute := pStream.iRoute
    codec := pStream.iCodec
    content := pStream.iContent
    error := bSkip
    desc := some pStream.desc }

/-- The bytes of the PES header at the front of `pckt`. -/
def headerSize (pckt : MediaPacket) : ℕ :=
  let b := (reader pckt).seek (4+2+2)
  let (iExtra, b) := b.read 8
  (b.seek iExtra).v

def Stream.release (pStream : Stream) (bSkip : Bool) : Except SirannonException MediaPacket := do
  let pckt ← (MediaPacket.new .media .mixed pStream.iPos).push_back pStream.pData
  let pckt ← pckt.pop_front (headerSize pckt)
  .ok (pStream.packet bSkip pckt)

def TSDemultiplexer.emit (s : TSDemultiplexer) (iPID : ℕ) (pStream : Stream)
    (pckt : MediaPacket) : TSDemultiplexer :=
  { s with
    mStreams := s.mStreams.insert iPID { pStream with pData := [], iUnit := pStream.iUnit+1 }
    routed := s.routed ++ [pckt] }

def TSDemultiplexer.releaseStream (iPID : ℕ) (bNew bSkip : Bool) : Demux Unit := do
  let s ← get
  match s.mStreams[iPID]? with
  | none => throw (undefinedBehaviour "no stream with this PID")
  | some pStream =>
    if bNew ∧ pStream.iPos ≠ 0 then do
      let pckt ← ofExcept (pStream.release bSkip)
      set (s.emit iPID pStream pckt)
    else pure ()

/-- Adds the payload that starts at `iFrom` of the packet. -/
def TSDemultiplexer.append (iPID : ℕ) (pData : Memory) (iFrom : ℕ) (iSize : ℤ) : Demux Unit := do
  let s ← get
  match s.mStreams[iPID]? with
  | none => throw (undefinedBehaviour "no stream with this PID")
  | some pStream =>
    if (iMaxFrame : ℤ) < pStream.iPos + iSize then pure ()
    else do
      set (s.logged (.copy iFrom pStream.iPos iSize))
      if iSize < 0 then throw (undefinedBehaviour "memcpy of a negative size")
      else modify fun s => { s with
        mStreams := s.mStreams.insert iPID
          { pStream with pData := pStream.pData ++ load pData iFrom iSize.toNat } }

def TSDemultiplexer.parsePKT (iPID : ℕ) (pData : Memory) (iFrom : ℕ) (iSize : ℤ)
    (bNew bSkip : Bool) : Demux Unit := do
  releaseStream iPID bNew bSkip
  append iPID pData iFrom iSize

/-! ## Packets -/

structure TSHeader where
  iSyntax : ℕ
  bStart : Bool
  iPID : ℕ
  iField : ℕ
  iCC : ℕ
  deriving DecidableEq, Repr

/-- The fixed header of four bytes, and the reader behind it. -/
def tsHeader (pData : Memory) : TSHeader × IBits :=
  let (iSyntax, b) := (IBits.new pData 188).read 8
  let (_, b) := b.read 1
  let (iStart, b) := b.read 1
  let (_, b) := b.read 1
  let (iPID, b) := b.read 13
  let (_, b) := b.read 2
  let (iField, b) := b.read 2
  let (iCC, b) := b.read 4
  (⟨iSyntax, iStart ≠ 0, iPID, iField, iCC⟩, b)

/-- The bytes of the adaptation field. -/
def adapation (iField : ℕ) (b : IBits) : ℕ :=
  if iField &&& 0x02 ≠ 0 then (b.read 8).1+1 else 0

/-- The counter to remember for the PID, and when the packet is not dropped whether packets were
lost before it. -/
def syncCC (last : ℤ) (bStart : Bool) (iCC : ℕ) : ℤ × Option Bool :=
  if last = FIRST_SYNC then
    if bStart then (iCC, some false) else (last, none)
  else if last = LOST_SYNC then
    if bStart then (iCC, some true) else (last, none)
  else if (iCC : ℤ) ≠ (last+1) % 0x10 then
    if bStart then (iCC, some true) else (LOST_SYNC, none)
  else (iCC, some false)

attribute [grind =] syncCC

/-- The payload of a packet, behind `iAdapation` bytes of its adaptation field. -/
def payload (pData : Memory) (iAdapation : ℕ) : Memory := fun i => pData (4+iAdapation+i)

def payloadSize (iAdapation : ℕ) : ℤ := 188-4-iAdapation

def TSDemultiplexer.dispatch (pData : Memory) (iPID iAdapation : ℕ) (bStart bSkip : Bool) :
    Demux Unit := do
  let s ← get
  if iPID = 0 then
    let (r, s) := s.parsePAT (payload pData iAdapation) (payloadSize iAdapation)
    set (s.logged (.table (payloadSize iAdapation) r.extent))
  else
    match s.mChannels[iPID]? with
    | some pPMT =>
      let (r, s) := s.parsePMT (payload pData iAdapation) (payloadSize iAdapation) iPID pPMT
      set (s.logged (.table (payloadSize iAdapation) r.extent))
    | none =>
      if iPID ∈ s.mStreams then
        parsePKT iPID pData (4+iAdapation) (payloadSize iAdapation) bStart bSkip
      else throw (runtimeError s!"PID({iPID}), unknown packet should have been ignored")

def TSDemultiplexer.parsePayload (pData : Memory) (iPID iAdapation : ℕ) (bStart bSkip : Bool) :
    Demux Unit := do
  modify fun s => s.logged (.payload (payloadSize iAdapation))
  dispatch pData iPID iAdapation bStart bSkip

def TSDemultiplexer.parseTS (pData : Memory) : Demux Unit := do
  let (h, b) := tsHeader pData
  if h.iSyntax ≠ 0x47 then pure ()
  else do
    let s ← get
    match s.mCC[h.iPID]? with
    | none => pure ()
    | some last => do
      let (cc, bTake) := syncCC last h.bStart h.iCC
      set { s with mCC := s.mCC.insert h.iPID cc }
      match bTake with
      | none => pure ()
      | some bSkip => parsePayload pData h.iPID (adapation h.iField b) h.bStart bSkip

/-- The memory of a packet's data, with what lies behind taken as zero. -/
def memory (bytes : List UInt8) : Memory := store zeroed 0 bytes

def TSDemultiplexer.receive (pckt : MediaPacket) : Demux Unit :=
  if pckt.size = 0 ∨ pckt.size % 188 ≠ 0 then
    throw (valueError "packet must be a multitude of 188 bytes")
  else forM (List.range (pckt.size/188)) fun i =>
    parseTS fun k => memory pckt.bytes (188*i+k)

def Stream.ended (pStream : Stream) (oType : PacketType) : MediaPacket :=
  { MediaPacket.new oType .mixed 0 with
    unitnumber := pStream.iUnit
    xstream := pStream.iXstream
    xroute := pStream.iRoute
    codec := pStream.iCodec
    content := pStream.iContent }

def TSDemultiplexer.endStream (oType : PacketType) (iPID : ℕ) : Demux Unit := do
  releaseStream iPID true true
  let s ← get
  match s.mStreams[iPID]? with
  | none => throw (undefinedBehaviour "no stream with this PID")
  | some pStream => set { s with
      mStreams := s.mStreams.insert iPID { pStream with iUnit := pStream.iUnit+1 }
      routed := s.routed ++ [pStream.ended oType] }

/-- `receive_reset` is the same. -/
def TSDemultiplexer.receive_end (pckt : MediaPacket) : Demux Unit := do
  let s ← get
  if s.mStreams.isEmpty then
    modify fun s => { s with routed := s.routed ++ [MediaPacket.new pckt.type .mixed 0] }
  else forM s.mStreams.keys (endStream pckt.type)

end Sirannon.Demultiplexing
