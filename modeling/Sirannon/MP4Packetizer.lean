import Sirannon.Packetizer

/-!
# MPEG-4 packetizer

A frame that does not fit in a packet is cut into fragments; small frames are
gathered on a stack and leave together in one packet. Audio packets start with
the header of RFC 3640, which gives the size of every frame they hold; video
packets have no header.
-/

set_option autoImplicit false

namespace Sirannon.MP4
open MachineInt Bits Media Packetization StateError

/-! ## Packetizer -/

structure MP4Packetizer extends Packetizer where
  bAggregate : Bool
  iLen : ℤ
  vStack : List MediaPacket
  deriving DecidableEq, Repr

def iMax : ℕ := 3

def MP4Packetizer.init (mtu : ℤ) (bAggregate : Bool) : MP4Packetizer where
  toPacketizer := Packetizer.init mtu
  bAggregate := bAggregate
  iLen := 0
  vStack := []

abbrev Packing := EStateM SirannonException MP4Packetizer

def MP4Packetizer.number (s : MP4Packetizer) (pckt : MediaPacket) : MP4Packetizer :=
  { s with toPacketizer := s.toPacketizer.number pckt }

/-- The bytes `oHeader` holds after it has been cleared and written to. -/
def header (fields : List (ℕ × ℕ)) : Except SirannonException (List UInt8) := do
  let oHeader ← (OBits.new 1500).writes fields
  return oHeader.data

/-- The RFC header of a fragment; video has none. -/
def fragmentHeader (codec : CodecType) (iSize : ℕ) (iUnit : ℤ) :
    Except SirannonException (List UInt8) :=
  if codec = .mp4a then header [(16, 0x0010), (13, iSize), (3, uint32 iUnit)] else .ok []

/-- The flags and number a fragment gets; `pPckt` is what the loop leaves of the frame. -/
def fragment (pFrag pPckt : MediaPacket) (iFrag : ℕ) : MediaPacket :=
  { pFrag with
    content := pPckt.content
    framestart := if iFrag = 0 then pPckt.framestart else false
    frameend := if pPckt.size = 0 then pPckt.frameend else false }

def fragmentLoop (iSize : ℕ) : ℕ → MediaPacket → ℕ → Packing Unit
  | 0, _, _ => pure ()
  | fuel+1, pPckt, iFrag =>
    if pPckt.size = 0 then pure () else do
      let s ← get
      let iLocalSize := uint32 (min (s.iMTU-4) pPckt.size)
      let pFrag := (MediaPacket.new .media .audio (iLocalSize+4)).set_metadata pPckt
      let oHeader ← ofExcept (fragmentHeader pPckt.codec iSize s.iUnit)
      let pFrag ← ofExcept (pFrag.push_back oHeader)
      let pFrag ← ofExcept (pFrag.push_back (pPckt.bytes.take iLocalSize))
      let pPckt ← ofExcept (pPckt.pop_front iLocalSize)
      modify fun s => s.number (fragment pFrag pPckt iFrag)
      fragmentLoop iSize fuel pPckt (iFrag+1)

def pack_FU (pPckt : MediaPacket) : Packing Unit := fragmentLoop pPckt.size pPckt.size pPckt 0

/-- The RFC header of an aggregate; video has none. -/
def stapHeader (codec : CodecType) (vStack : List MediaPacket) :
    Except SirannonException (List UInt8) :=
  if codec = .mp4a then
    header ((16, vStack.length*16)::vStack.flatMap fun p => [(13, p.size), (3, 0)])
  else .ok []

/-- The flags the loop of `pack_STAP` collects. -/
def aggregate (pStap : MediaPacket) (vStack : List MediaPacket) : MediaPacket :=
  { pStap with
    content := (vStack.getLast?.map fun p => p.content).getD pStap.content
    framestart := pStap.framestart || vStack.any fun p => p.framestart
    frameend := pStap.frameend || vStack.any fun p => p.frameend }

def pack_STAP (front : MediaPacket) (vStack : List MediaPacket) : Packing Unit := do
  let s ← get
  let pStap := (MediaPacket.new .media .audio (uint32 s.iMTU)).set_metadata front
  let oHeader ← ofExcept (stapHeader pStap.codec vStack)
  let pStap ← ofExcept (pStap.push_back oHeader)
  let pStap ← ofExcept (push_all pStap vStack)
  modify fun s => s.number (aggregate pStap vStack)

def MP4Packetizer.cleared (s : MP4Packetizer) : MP4Packetizer := { s with iLen := 0, vStack := [] }

def pack : Packing Unit := do
  let s ← get
  match s.vStack with
  | [] => pure ()
  | [pPckt] => do
    pack_FU pPckt
    modify MP4Packetizer.cleared
  | front::rest => do
    pack_STAP front (front::rest)
    modify MP4Packetizer.cleared

def push (pPckt : MediaPacket) : Packing Unit := do
  modify fun s => { s with iLen := s.iLen+pPckt.size, vStack := s.vStack ++ [pPckt] }
  let s ← get
  if iMax ≤ s.vStack.length then pack else pure ()

/-- The branch of `receive` for frames that may be aggregated. -/
def stack (pPckt : MediaPacket) : Packing Unit := do
  let s ← get
  if s.iMTU < (pPckt.size : ℤ)+4 then do
    pack
    pack_FU pPckt
  else if s.iMTU < 2+((s.vStack.length : ℤ)+1)*2+s.iLen+pPckt.size then do
    pack
    push pPckt
  else push pPckt

def strip (pPckt : MediaPacket) : Except SirannonException MediaPacket :=
  if pPckt.codec = .mp4a then pPckt.pop_front 7 else .ok pPckt

def receive (pPckt : MediaPacket) : Packing Unit :=
  if pPckt.codec.isIn familyMPEG4 = false then
    throw (typeError "Invalid codec, expected(mp4a, mp4v)")
  else if pPckt.mux ≠ .ES then throw (typeError "Invalid packetization, expected(ES)")
  else do
    let pPckt ← ofExcept (strip pPckt)
    let pPckt := { pPckt with mux := .RTP }
    let s ← get
    if s.bAggregate = false ∧ pPckt.codec = .mp4a then pack_FU pPckt else stack pPckt

def receive_end (pPckt : MediaPacket) : Packing Unit := do
  pack
  modify fun s => s.number { pPckt with mux := .RTP }

/-! ## Unpacketizer -/

abbrev MP4Unpacketizer := Unpacketizer Unit

abbrev Unpacking := Unpack Unit

/-- The buffer once the packets in front of `left` are used up. -/
def consumed (left : List MediaPacket) : Unpacking Unit := do
  modify fun s => { s with vBuffer := left }
  if left = [] then pure ()
  else throw (runtimeError "Packets remaining in buffer after unpacking a frame")

/-- A frame put out: complete, and no longer packetized. -/
def whole (pFrag : MediaPacket) (mux : MuxType) : MediaPacket :=
  { pFrag with mux := mux, framestart := true, frameend := true }

def unpackVideo (pPckt : MediaPacket) (vBuffer : List MediaPacket) : Unpacking Unit := do
  let pFrag := (MediaPacket.new .media .video (sizes vBuffer)).set_metadata pPckt
  let pFrag ← ofExcept (push_all (whole pFrag .ES) vBuffer)
  modify fun s => s.emit pFrag
  consumed []

/-- The packet for one frame of an aggregate, its data still missing. -/
def stapFrame (pPckt : MediaPacket) (iFrag : ℕ) (i : ℤ) : MediaPacket :=
  let pFrag := (MediaPacket.new .media .audio iFrag).set_metadata pPckt
  let iDTS := int32 (pPckt.dts+i*pPckt.inc)
  { whole pFrag .MOV with dts := iDTS, pts := iDTS }

/-- The loop over the frames of an aggregate; `iPos` is the read position of `oPayload`. -/
def stapLoop (pPckt : MediaPacket) : ℕ → ℤ → IBits → ℕ → Unpacking Unit
  | 0, _, _, _ => pure ()
  | iParts+1, i, oHeader, iPos => do
    let iFrag := (oHeader.read 16).1/8
    let pFrag ← ofExcept ((stapFrame pPckt iFrag i).push_back
      (ByteMemory.load oHeader.buf iPos iFrag))
    modify fun s => s.emit pFrag
    stapLoop pPckt iParts (i+1) (oHeader.read 16).2 (iPos+iFrag)

def pushPayload (pFrag pPckt : MediaPacket) : Except SirannonException MediaPacket :=
  if pPckt.size < 4 then .error (outOfBoundsError "MediaPacket overflow")
  else pFrag.push_back (pPckt.bytes.drop 4)

/-- The loop that joins fragments: the frame, the bytes found and the packets not needed. -/
def joinLoop (iSize : ℕ) : List MediaPacket → MediaPacket → ℕ →
    Except SirannonException (MediaPacket × ℕ × List MediaPacket)
  | [], pFrag, iTestSize => .ok (pFrag, iTestSize, [])
  | pPckt::vBuffer, pFrag, iTestSize =>
    if iSize ≤ iTestSize then .ok (pFrag, iTestSize, pPckt::vBuffer)
    else
      let first := (reader pPckt).read 16
      if first.1 ≠ 16 ∨ (first.2.read 16).1/8 ≠ iSize then
        .error (runtimeError "STAP after FU in the same frame is not allowed")
      else do
        let pFrag ← pushPayload pFrag pPckt
        joinLoop iSize vBuffer pFrag (iTestSize+(pPckt.size-4))

def unpackFragments (pPckt : MediaPacket) (vBuffer : List MediaPacket) (iSize : ℕ) :
    Unpacking Unit := do
  let pFrag := (MediaPacket.new .media .audio iSize).set_metadata pPckt
  let joined ← ofExcept (joinLoop iSize vBuffer (whole pFrag .MOV) 0)
  if joined.2.1 ≠ iSize then
    modify fun s => { s with iUnit := s.iUnit+1, vBuffer := [] }
  else do
    modify fun s => s.emit joined.1
    consumed joined.2.2

def unpackAudio (pPckt : MediaPacket) (rest : List MediaPacket) : Unpacking Unit :=
  let first := (reader pPckt).read 16
  let iHeader := first.1/8
  let iParts := iHeader/2
  if 1 < iParts then do
    stapLoop pPckt iParts 0 first.2 (2+iHeader)
    consumed rest
  else if iParts = 1 then
    let iSize := (first.2.read 16).1/8
    let iPayload := uint32 ((pPckt.size : ℤ)-4)
    if iPayload < iSize then unpackFragments pPckt (pPckt::rest) iSize
    else if iSize = iPayload then do
      let pFrag ← ofExcept (pPckt.pop_front 4)
      modify fun s => s.emit (whole pFrag .MOV)
      consumed rest
    else throw (valueError s!"Invalid fragement size field({iSize})")
  else throw (valueError "Invalid header size(0)")

def unpack : Unpacking Unit := do
  let s ← get
  match s.vBuffer with
  | [] => throw (undefinedBehaviour "front of an empty queue")
  | pPckt::rest =>
    if pPckt.codec ≠ .mp4a ∧ pPckt.codec ≠ .mp4v then throw (typeError "Invalid codec")
    else if pPckt.mux ≠ .RTP then
      throw (typeError "Invalid packetization mode, expected(RTP)")
    else if pPckt.codec = .mp4v then unpackVideo pPckt (pPckt::rest)
    else unpackAudio pPckt rest

/-- A packet of the packetizer, handed to the function for its type. -/
def deliver (pPckt : MediaPacket) : Unpacking Unit :=
  match pPckt.type with
  | .media => Unpacketizer.receive unpack pPckt
  | .reset => Unpacketizer.receive_end unpack pPckt
  | .end => Unpacketizer.receive_end unpack pPckt

end Sirannon.MP4
