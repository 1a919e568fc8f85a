import Sirannon.Packetizer

/-!
# PES packetizer

The parts of a frame are put together and sent with a header that holds the
time stamps. A large frame is cut into several PES packets, all with a header
of their own, unless the length field is left at zero. The unpacketizer takes
every packet with time stamps for the start of a frame. Audio frames are not
gathered here and no access unit delimiters are inserted.
-/

set_option autoImplicit false

namespace Sirannon.PES
open MachineInt Bits Media Packetization StateError

/-! ## Packetizer -/

structure PESPacketizer extends Packetizer where
  oBuffer : List MediaPacket
  iMaxSize : ℤ
  iDelta : ℤ
  bZero : Bool
  deriving DecidableEq, Repr

/-- `delta` is in milliseconds. -/
def PESPacketizer.init (mtu delta : ℤ) (bZero : Bool) : PESPacketizer where
  toPacketizer := Packetizer.init mtu
  oBuffer := []
  iMaxSize := if bZero then -1 else 65500
  iDelta := int32 (delta*90)
  bZero := bZero

abbrev Packing := EStateM SirannonException PESPacketizer

def GetPesID : CodecType → ℕ
  | .mp1v | .mp2v | .mp4v | .avc | .svc => 0xE0
  | .mp1a | .mp2a | .mp4a => 0xC0
  | .ac3 => 0xBD
  | .wmv1 | .wmv2 | .wmv3 | .wmvc => 0xA0
  | _ => 0x00

/-- The packet made of several parts, its data still missing. -/
def mergedPckt (front : MediaPacket) (iSize : ℕ) : MediaPacket :=
  { (MediaPacket.new .media .video iSize).set_metadata front with
    framestart := true, frameend := true, subframenumber := 0 }

/-- What is left in the buffer, and the frame once its last part is there. -/
def mergeFrameParts (vBuffer : List MediaPacket) (pPckt : MediaPacket) :
    Except SirannonException (List MediaPacket × Option MediaPacket) :=
  if pPckt.frameend then
    match vBuffer with
    | [] => .ok ([], some pPckt)
    | front::rest => do
      let pMerged := mergedPckt front (sizes (front::rest ++ [pPckt]))
      let pMerged ← push_all pMerged (front::rest ++ [pPckt])
      return ([], some pMerged)
  else .ok (vBuffer ++ [pPckt], none)

/-- Time stamps are written as unsigned numbers of 64 bits. -/
def uint64 (x : ℤ) : ℕ := (x % 2^64).toNat

def shiftField (iTime iShift iRight : ℕ) : ℕ :=
  (((iTime <<< iShift) % 2^64) >>> iShift) >>> iRight

def timeFields (iTag iTime : ℕ) : List (ℕ × ℕ) :=
  [(8, (shiftField iTime 0 30) <<< 1 ||| iTag), (8, shiftField iTime 2 22),
    (8, (shiftField iTime 10 15) <<< 1 ||| 0x1), (8, shiftField iTime 17 7),
    (8, (shiftField iTime 25 0) <<< 1 ||| 0x1)]

/-- Are both time stamps written? -/
def both (pPckt : MediaPacket) : Bool := pPckt.dts ≠ pPckt.pts ∧ 0 ≤ pPckt.pts

def headerFields (bZero : Bool) (pPckt : MediaPacket) (iPES : ℕ) : List (ℕ × ℕ) :=
  let iHeader := if both pPckt then 10 else 5
  [(24, 0x01), (8, GetPesID pPckt.codec), (16, if bZero then 0 else iPES+iHeader+3), (8, 0x80)] ++
    if both pPckt then
      [(8, 0xC0), (8, 0x0A)] ++ timeFields 0x31 (uint64 pPckt.pts) ++
        timeFields 0x11 (uint64 pPckt.dts)
    else [(8, 0x80), (8, 0x05)] ++ timeFields 0x21 (uint64 pPckt.pts)

def createHeader (bZero : Bool) (pPckt : MediaPacket) (iPES : ℕ) :
    Except SirannonException MediaPacket := do
  let oHeader ← (OBits.new 50).writes (headerFields bZero pPckt iPES)
  pPckt.push_front oHeader.data

def splitLoop (bZero : Bool) (iMaxSize : ℕ) : ℕ → MediaPacket →
    Except SirannonException (List MediaPacket)
  | 0, _ => .ok []
  | fuel+1, pMerged =>
    if pMerged.size = 0 then .ok [] else do
      let pPES := (MediaPacket.new .media pMerged.content iMaxSize).set_metadata pMerged
      let iPayload := min pMerged.size iMaxSize
      let pPES ← createHeader bZero pPES iPayload
      let pPES ← pPES.push_back (pMerged.bytes.take iPayload)
      let pMerged ← pMerged.pop_front iPayload
      let oSend ← splitLoop bZero iMaxSize fuel pMerged
      return pPES::oSend

/-- The PES packets for one frame. -/
def split (bZero : Bool) (iMaxSize : ℤ) (pMerged : MediaPacket) :
    Except SirannonException (List MediaPacket) :=
  if (bZero = true ∧ pMerged.content = .video) ∨ pMerged.size ≤ uint32 iMaxSize then do
    let pPES ← createHeader bZero pMerged pMerged.size
    return [pPES]
  else splitLoop bZero (uint32 iMaxSize) pMerged.size pMerged

def stamped (pPckt : MediaPacket) (iDTS iUnit : ℤ) : MediaPacket :=
  { pPckt with dts := iDTS, unitnumber := iUnit, mux := .PES }

def outputLoop (iINC : ℤ) : List MediaPacket → ℤ → PESPacketizer → PESPacketizer
  | [], _, s => s
  | pPckt::oSend, iDTS, s =>
    outputLoop iINC oSend (int32 (iDTS+iINC))
      { s with iUnit := s.iUnit+1, routed := s.routed ++ [stamped pPckt iDTS s.iUnit] }

/-- The division is one of unsigned numbers. -/
def PESPacketizer.output (s : PESPacketizer) : List MediaPacket → PESPacketizer
  | [] => s
  | front::rest =>
    let iINC := int32 (uint64 front.inc/(rest.length+1) : ℕ)
    outputLoop iINC (front::rest) front.dts s

/-- A positive delta is added to the time stamps. -/
def delayed (iDelta : ℤ) (pPckt : MediaPacket) : MediaPacket :=
  if 0 < iDelta then
    { pPckt with dts := int32 (pPckt.dts+iDelta), pts := int32 (pPckt.pts+iDelta) }
  else pPckt

def receive (pInputPckt : MediaPacket) : Packing Unit := do
  if pInputPckt.mux ≠ .ES then throw (typeError "Invalid packetization mode, expected(ES)")
  else do
    let s ← get
    let merged ← ofExcept (mergeFrameParts s.oBuffer pInputPckt)
    modify fun s => { s with oBuffer := merged.1 }
    match merged.2 with
    | none => pure ()
    | some pMerged => do
      let oSend ← ofExcept (split s.bZero s.iMaxSize (delayed s.iDelta pMerged))
      modify fun s => s.output oSend

def receive_end (pInputPckt : MediaPacket) : Packing Unit :=
  modify fun s => { s with routed := s.routed ++ [delayed s.iDelta pInputPckt] }

/-! ## Unpacketizer -/

structure PESUnpacketizer where
  iUnit : ℤ
  iFrame : ℤ
  iLastDTS : ℤ
  iFirstDTS : ℤ
  iBaseDTS : ℤ
  vQueue : List MediaPacket
  bSync : Bool
  routed : List MediaPacket
  deriving DecidableEq, Repr

def PESUnpacketizer.init : PESUnpacketizer := ⟨0, 0, -1, -1, 90000, [], true, []⟩

abbrev Unpacking := EStateM SirannonException PESUnpacketizer

/-- `(*i)->data()[i]`. -/
def dataAt (pPckt : MediaPacket) (i : ℕ) : ℕ := (pPckt.bytes.getD i 0).toNat

/-- The length field, as it stands in the data. -/
def lengthField (pPckt : MediaPacket) : ℕ := dataAt pPckt 4*256+dataAt pPckt 5

structure PESHeader where
  iLength : ℕ
  iTime : ℕ
  iHeader : ℕ
  iPTS : ℤ
  iDTS : ℤ
  deriving DecidableEq, Repr

/-- A time stamp and where to read on, unless the four bits in front of it are wrong. -/
def readTime (oStream : IBits) (iTag : ℕ) : Option (ℤ × IBits) :=
  let iSyntax := oStream.read 4
  if iSyntax.1 ≠ iTag then none
  else
    let high := iSyntax.2.read 3
    let middle := (high.2.read 1).2.read 15
    let low := (middle.2.read 1).2.read 15
    some (int32 (high.1*2^30+middle.1*2^15+low.1), (low.2.read 1).2)

/-- The header of a PES packet, unless its syntax is wrong. -/
def parseHeader (pPES : MediaPacket) : Option PESHeader :=
  let iStart := (reader pPES).read 24
  if iStart.1 ≠ 0x000001 then none
  else
    let iLength := (iStart.2.read 8).2.read 16
    let iSyntax := iLength.2.read 2
    if iSyntax.1 ≠ 0x2 then none
    else
      let iTime := (iSyntax.2.read 6).2.read 2
      let iHeader := (iTime.2.read 6).2.read 8
      if iTime.1 = 0x2 then do
        let iPTS ← readTime iHeader.2 0x2
        return ⟨iLength.1, iTime.1, iHeader.1, iPTS.1, iPTS.1⟩
      else if iTime.1 = 0x3 then do
        let iPTS ← readTime iHeader.2 0x3
        let iDTS ← readTime iPTS.2 0x1
        return ⟨iLength.1, iTime.1, iHeader.1, iPTS.1, iDTS.1⟩
      else some ⟨iLength.1, iTime.1, iHeader.1, 0, 0⟩

/-- Time is relative to the first time stamp read. -/
def PESUnpacketizer.based (s : PESUnpacketizer) (h : PESHeader) : PESUnpacketizer :=
  if s.iFirstDTS = -1 then { s with iFirstDTS := h.iDTS } else s

/-- The packet that is put out, its data still missing. -/
def PESUnpacketizer.created (s : PESUnpacketizer) (pPES : MediaPacket) (h : PESHeader)
    (iFrameSize : ℕ) : MediaPacket :=
  let iDTS := int32 (h.iDTS-s.iFirstDTS+s.iBaseDTS)
  { (MediaPacket.new .media pPES.content iFrameSize).set_metadata pPES with
    dts := iDTS
    pts := int32 (h.iPTS-s.iFirstDTS+s.iBaseDTS)
    inc := if s.iLastDTS < 0 then 0 else int32 (iDTS-s.iLastDTS)
    unitnumber := s.iUnit
    framenumber := s.iFrame
    framestart := true
    frameend := true }

def PESUnpacketizer.counted (s : PESUnpacketizer) (pckt : MediaPacket) : PESUnpacketizer :=
  { s with iUnit := s.iUnit+1, iFrame := s.iFrame+1, iLastDTS := pckt.dts }

/-- A payload of negative length is far too large for any packet. -/
def pushPayload (pckt pPES : MediaPacket) (iHeader : ℕ) : Except SirannonException MediaPacket :=
  if pPES.size < 9+iHeader then .error (outOfBoundsError "MediaPacket overflow")
  else pckt.push_back (pPES.bytes.drop (9+iHeader))

/-- `return` inside the loop leaves the rest of the queue for the next call. -/
def unpackLoop (iFrameSize : ℕ) : List MediaPacket → Option MediaPacket → Unpacking Unit
  | [], none => pure ()
  | [], some pckt => modify fun s => { s with routed := s.routed ++ [pckt] }
  | pPES::vQueue, pckt => do
    modify fun s => { s with vQueue := vQueue }
    match parseHeader pPES with
    | none => pure ()
    | some h =>
      match pckt with
      | none =>
        if h.iTime ≠ 0x2 ∧ h.iTime ≠ 0x3 then unpackLoop iFrameSize vQueue none
        else do
          modify fun s => s.based h
          let s ← get
          let pckt := s.created pPES h iFrameSize
          modify fun s => s.counted pckt
          let pckt ← ofExcept (pushPayload pckt pPES h.iHeader)
          unpackLoop iFrameSize vQueue (some pckt)
      | some pckt => do
        modify fun s => s.based h
        let pckt ← ofExcept (pushPayload pckt pPES h.iHeader)
        unpackLoop iFrameSize vQueue (some pckt)

def unpack : Unpacking Unit := do
  let s ← get
  unpackLoop (s.vQueue.map lengthField).sum s.vQueue none

/-- Do the flags or the time stamps announce the start of a frame? -/
def bStart (pckt : MediaPacket) : Bool :=
  dataAt pckt 6 &&& 0x08 ≠ 0 ∨ dataAt pckt 7 &&& 0xC0 ≠ 0

def PESUnpacketizer.receive (pckt : MediaPacket) : Unpacking Unit := do
  if pckt.size < 9 then throw (runtimeError s!"PES, packet too small: {pckt.size} < 9")
  else do
    let pckt := { pckt with mux := .RTP }
    let s ← get
    if s.bSync = true ∧ bStart pckt = false then pure ()
    else do
      modify fun s => { s with bSync := false }
      if bStart pckt then unpack else pure ()
      modify fun s => { s with bSync := pckt.error, vQueue := s.vQueue ++ [pckt] }

def PESUnpacketizer.receive_end (pckt : MediaPacket) : Unpacking Unit := do
  unpack
  modify fun s => { s with routed := s.routed ++ [pckt] }

/-- A packet of the packetizer, handed to the function for its type. -/
def deliver (pckt : MediaPacket) : Unpacking Unit :=
  match pckt.type with
  | .media => PESUnpacketizer.receive pckt
  | .reset => PESUnpacketizer.receive_end pckt
  | .end => PESUnpacketizer.receive_end pckt

end Sirannon.PES
