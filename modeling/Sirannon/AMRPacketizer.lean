import Sirannon.Packetizer

/-!
# AMR packetizer

Speech frames are gathered until the next one does not fit or the packet
covers too much time. A payload starts with a table of contents, one entry a
frame, and the bits of all frames follow back to back. The unpacketizer reads
with two cursors, one in the table and one in the bits.
-/

set_option autoImplicit false

namespace Sirannon.AMR
open MachineInt Bits Media Packetization StateError

/-! ## Frames -/

def mFrameTypeToSizeBits_NB : List ℕ := [95, 103, 118, 134, 148, 159, 204, 244, 0]

def mFrameTypeToSizeBits_WB : List ℕ := [132, 177, 253, 285, 317, 365, 397, 461, 477]

def mFrameTypeToSizeBits (codec : CodecType) : List ℕ :=
  if codec = .anb then mFrameTypeToSizeBits_NB else mFrameTypeToSizeBits_WB

/-- The tables end with type 8, a type has four bits. -/
def frameSizeBits (codec : CodecType) (iFrame : ℕ) : Except SirannonException ℕ :=
  match (mFrameTypeToSizeBits codec)[iFrame]? with
  | some iBits => .ok iBits
  | none => .error (undefinedBehaviour "index behind the table of frame sizes")

def frameType (pPckt : MediaPacket) : ℕ := ((pPckt.bytes.headD 0).toNat &&& 0x78) >>> 3

def encodedBits (pPckt : MediaPacket) : Except SirannonException ℕ :=
  if pPckt.bytes = [] then .error (undefinedBehaviour "first byte of an empty packet")
  else frameSizeBits pPckt.codec (frameType pPckt)

/-- The loop that moves bits from a reader to a writer, up to 32 at a time. -/
def copyBits : ℕ → ℕ → IBits → OBits → Except SirannonException (IBits × OBits)
  | 0, _, oData, oPayload => .ok (oData, oPayload)
  | fuel+1, iBits, oData, oPayload =>
    if iBits = 0 then .ok (oData, oPayload) else do
      let iWrite := min 32 iBits
      let read ← oData.readWithin iWrite
      let oPayload ← oPayload.write iWrite read.1
      copyBits fuel (iBits-iWrite) read.2 oPayload

/-! ## Packetizer -/

structure AMRPacketizer extends Packetizer where
  vBuffer : List MediaPacket
  iPack : ℤ
  iMaxDuration : ℤ
  deriving DecidableEq, Repr

def AMRPacketizer.init (mtu maxptime : ℤ) : AMRPacketizer where
  toPacketizer := Packetizer.init mtu
  vBuffer := []
  iPack := 4
  iMaxDuration := maxptime*90

abbrev Packing := EStateM SirannonException AMRPacketizer

/-- The table of contents: another entry follows, the type, no error. -/
def writeTOC (oPayload : OBits) : List MediaPacket → Except SirannonException OBits
  | [] => .ok oPayload
  | pPckt::rest => do
    let oPayload ← oPayload.write 1 (if rest = [] then 0 else 1)
    let oPayload ← oPayload.write 4 (frameType pPckt)
    let oPayload ← oPayload.write 1 1
    writeTOC oPayload rest

def writeData (oPayload : OBits) : List MediaPacket → Except SirannonException OBits
  | [] => .ok oPayload
  | pPckt::rest => do
    let oData := (reader pPckt).seek 1
    let iBits ← encodedBits pPckt
    let copied ← copyBits iBits iBits oData oPayload
    writeData copied.2 rest

def payload (iMTU : ℕ) (vBuffer : List MediaPacket) : Except SirannonException (List UInt8) := do
  let oPayload ← (OBits.new iMTU).write 4 0xF
  let oPayload ← writeTOC oPayload vBuffer
  let oPayload ← writeData oPayload vBuffer
  let oPayload ← oPayload.pad 0xFF
  return oPayload.data

def packed (pPacked : MediaPacket) : MediaPacket :=
  { pPacked with mux := .RTP, framestart := true, frameend := true }

def AMRPacketizer.routePacked (s : AMRPacketizer) (pPacked : MediaPacket) : AMRPacketizer :=
  { s with toPacketizer := s.toPacketizer.number pPacked, iPack := 4, vBuffer := [] }

def pack : Packing Unit := do
  let s ← get
  match s.vBuffer with
  | [] => pure ()
  | front::rest => do
    let oPayload ← ofExcept (payload s.iMTU.toNat (front::rest))
    let pPacked := (MediaPacket.new .media .audio (uint32 s.iMTU)).set_metadata front
    let pPacked ← ofExcept ((packed pPacked).push_back oPayload)
    modify fun s => s.routePacked pPacked

/-- Time from the first to the last frame in the buffer. -/
def duration (vBuffer : List MediaPacket) : ℤ :=
  match vBuffer.head?, vBuffer.getLast? with
  | some front, some back => back.dts-front.dts
  | _, _ => 0

/-- Must the buffer leave before a frame of `iBits` bits is stored? -/
def AMRPacketizer.isFull (s : AMRPacketizer) (iBits : ℕ) : Bool :=
  s.iMTU*8 < s.iPack+iBits ∨
    s.vBuffer ≠ [] ∧ 0 < s.iMaxDuration ∧ s.iMaxDuration < duration s.vBuffer

def makeRoom (iBits : ℕ) : Packing Unit := do
  let s ← get
  if s.isFull iBits then pack else pure ()

def AMRPacketizer.store (s : AMRPacketizer) (iBits : ℕ) (pPckt : MediaPacket) : AMRPacketizer :=
  { s with iPack := s.iPack+iBits, vBuffer := s.vBuffer ++ [pPckt] }

def receive (pPckt : MediaPacket) : Packing Unit :=
  if pPckt.codec ≠ .anb ∧ pPckt.codec ≠ .awb then
    throw (typeError "Invalid codec, expected(AMR, AMR-WB)")
  else if pPckt.mux ≠ .ES then throw (typeError "Invalid packetization, expected(ES)")
  else do
    let iEncoded ← ofExcept (encodedBits pPckt)
    makeRoom (6+iEncoded)
    modify fun s => s.store (6+iEncoded) pPckt

def AMRPacketizer.send (s : AMRPacketizer) (pPckt : MediaPacket) : AMRPacketizer :=
  { s with toPacketizer := s.toPacketizer.number { pPckt with mux := .RTP } }

def receive_end (pPckt : MediaPacket) : Packing Unit := do
  pack
  modify fun s => s.send pPckt

def packetize (frames : List MediaPacket) (pEnd : MediaPacket) : Packing Unit := do
  forM frames receive
  receive_end pEnd

/-! ## Unpacketizer -/

abbrev AMRUnpacketizer := Unpacketizer Unit

abbrev Unpacking := Unpack Unit

/-- The loop that moves `oPayload` over the table of contents. -/
def skipTOC : ℕ → IBits → Except SirannonException IBits
  | 0, oPayload => .ok oPayload
  | fuel+1, oPayload => do
    let bCont ← oPayload.readWithin 1
    let entry ← bCont.2.readWithin 5
    if bCont.1 = 0 then .ok entry.2 else skipTOC fuel entry.2

/-- The bytes of one frame, and the cursor behind its bits. -/
def unpackFrame (iFrameType iFrameSize : ℕ) (oPayload : IBits) :
    Except SirannonException (IBits × List UInt8) := do
  let oFrame ← (OBits.new (iFrameSize/8+2)).write 1 0
  let oFrame ← oFrame.write 4 iFrameType
  let oFrame ← oFrame.write 3 4
  let copied ← copyBits iFrameSize iFrameSize oPayload oFrame
  let oFrame ← copied.2.pad 0
  return (copied.1, oFrame.data)

/-- `iFrame` is never counted up, so all frames of a payload get its time. -/
def unpacked (pUnpack : MediaPacket) (iUnit : ℤ) : MediaPacket :=
  let iFrame : ℤ := 0
  let iDTS := int32 (pUnpack.dts+pUnpack.inc*iFrame)
  { pUnpack with mux := .ES, dts := iDTS, pts := iDTS, framenumber := iUnit }

def frameLoop (pPckt : MediaPacket) : ℕ → IBits → IBits → Unpacking Unit
  | 0, _, _ => pure ()
  | fuel+1, oHeader, oPayload => do
    let bCont ← ofExcept (oHeader.readWithin 1)
    let entry ← ofExcept (bCont.2.readWithin 5)
    let iFrameType := entry.1 >>> 1
    let iFrameSize ← ofExcept (frameSizeBits pPckt.codec iFrameType)
    let oFrame ← ofExcept (unpackFrame iFrameType iFrameSize oPayload)
    let pUnpack := (MediaPacket.new .media .audio (iFrameSize/8+2)).set_metadata pPckt
    let pUnpack ← ofExcept (pUnpack.push_back oFrame.2)
    modify fun s => s.emit (unpacked pUnpack s.iUnit)
    if bCont.1 = 0 then pure () else frameLoop pPckt fuel entry.2 oFrame.1

def unpack : Unpacking Unit := do
  let s ← get
  match s.vBuffer with
  | [] => pure ()
  | [pPckt] =>
    if pPckt.codec ≠ .anb ∧ pPckt.codec ≠ .awb then
      throw (valueError "Invalid codec, expected(AMR-NB,AMR-WB)")
    else do
      let start ← ofExcept ((reader pPckt).readWithin 4)
      let oPayload ← ofExcept (skipTOC (8*pPckt.size) start.2)
      let oHeader ← ofExcept ((reader pPckt).readWithin 4)
      frameLoop pPckt (8*pPckt.size) oHeader.2 oPayload
      drop
  | _ => throw (runtimeError "Fragmented AMR should not occur")

/-- A packet of the packetizer, handed to the function for its type. -/
def deliver (pPckt : MediaPacket) : Unpacking Unit :=
  match pPckt.type with
  | .media => Unpacketizer.receive unpack pPckt
  | .reset => Unpacketizer.receive_end unpack pPckt
  | .end => Unpacketizer.receive_end unpack pPckt

end Sirannon.AMR
