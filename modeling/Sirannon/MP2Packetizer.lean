import Sirannon.MP2Unpacketizer

/-!
# MPEG-2 packetizer

A frame that is too large for the network is cut into fragments, all with a
header of four bytes. For video the header repeats what the first fragment says
of the picture; for audio it is the place of the fragment in its frame.
-/

set_option autoImplicit false

namespace Sirannon.MP2
open ByteMemory MachineInt Bits Media Packetization

def PICTURE_START : ℕ := 0x00000100

def SEQUENCE_START : ℕ := 0x000001B3

/-- The last four bytes read are kept in `iVal`; one byte behind the data is looked at too. -/
def findLoop (pData : Memory) (iSize iStartcode : ℕ) : ℕ → ℕ → ℕ → ℤ
  | 0, _, _ => -1
  | fuel+1, iPos, iVal =>
    let iVal := iVal*2^8%2^32+(pData iPos).toNat
    if iVal = iStartcode then (iPos : ℤ)+1-4
    else if iSize < iPos+1 then -1
    else findLoop pData iSize iStartcode fuel (iPos+1) iVal

def find_next_start_code (pData : Memory) (iSize iStartcode : ℕ) : ℤ :=
  findLoop pData iSize iStartcode (iSize+1) 0 0xFFFFFFFF

/-- `iPos` is where the picture starts, once that is known. -/
structure MP2Packetizer extends Packetizer where
  iPos : ℤ
  iType : ℕ
  iTime : ℕ

def MP2Packetizer.init (mtu : ℤ) : MP2Packetizer := ⟨Packetizer.init mtu, -1, 0, 0⟩

/-- What lies behind the data is taken as zero. -/
def data (pckt : MediaPacket) : Memory := store zeroed 0 pckt.bytes

/-- The picture header, and whether a sequence header stands in front of it. -/
def MP2Packetizer.picture (s : MP2Packetizer) (pckt : MediaPacket) : Option (MP2Packetizer × Bool) :=
  if s.iPos < 0 then
    let iPos := find_next_start_code (data pckt) pckt.size PICTURE_START
    if iPos < 0 then none
    else
      let iTime := ((IBits.new (shift (data pckt) iPos.toNat) 6).read 32).2.read 10
      let iType := iTime.2.read 3
      some ({ s with iPos := iPos, iTime := iTime.1, iType := iType.1 },
        decide (0 ≤ find_next_start_code (data pckt) iPos.toNat SEQUENCE_START))
  else some (s, false)

def videoFields (s : MP2Packetizer) (bSequence : Bool) (pckt : MediaPacket) : List (ℕ × ℕ) :=
  [(5, 0), (1, 0), (10, s.iTime), (1, 0), (1, 0), (1, bSequence.toNat), (1, pckt.framestart.toNat),
    (1, pckt.frameend.toNat), (3, s.iType), (8, 0)]

def audioFields (iOffset : ℕ) : List (ℕ × ℕ) := [(16, 0), (16, iOffset)]

def addHeader (fields : List (ℕ × ℕ)) (pckt : MediaPacket) : Except SirannonException MediaPacket := do
  let oHeader ← (OBits.new 4).writes fields
  pckt.push_front oHeader.data

/-- Nothing when the picture was not found. -/
def MP2Packetizer.header (s : MP2Packetizer) (pckt : MediaPacket) (iOffset : ℕ) :
    Except SirannonException (Option (MP2Packetizer × MediaPacket)) :=
  match pckt.content with
  | .video =>
    match s.picture pckt with
    | none => .ok none
    | some r => do
      let pckt ← addHeader (videoFields r.1 r.2 pckt) pckt
      return some (r.1, pckt)
  | .audio => do
    let pckt ← addHeader (audioFields iOffset) pckt
    return some (s, pckt)
  | _ => .error (runtimeError "unexpected content")

def MP2Packetizer.route (s : MP2Packetizer) (pckt : MediaPacket) : MP2Packetizer :=
  { s with routed := s.routed ++ [pckt] }

/-- A fragment without its header. -/
def fragment (pckt : MediaPacket) (pNext : MediaPacket) (iUnit : ℤ) (iOffset : ℕ) : MediaPacket :=
  { pNext.set_metadata pckt with
    unitnumber := iUnit, framestart := iOffset = 0, frameend := pckt.size = 0 }

def outOfFuel : SirannonException := undefinedBehaviour "the loop goes on"

/-- The largest payload, as an unsigned number. -/
def MP2Packetizer.iMax (s : MP2Packetizer) : ℕ := uint32 (s.iMTU-4)

/-- One fragment is cut off: what is left, and the fragment if it got a header. -/
def cut (s : MP2Packetizer) (pckt : MediaPacket) (iPayload iOffset : ℕ) :
    Except SirannonException (MediaPacket × Option (MP2Packetizer × MediaPacket)) := do
  let pNext ← (MediaPacket.new .media pckt.content (iPayload+4)).push_back (pckt.bytes.take iPayload)
  let pckt ← pckt.pop_front iPayload
  let r ← MP2Packetizer.header { s with iUnit := s.iUnit+1 } (fragment pckt pNext s.iUnit iOffset) iOffset
  return (pckt, r)

/-- The loop that cuts a frame. It goes on for ever when it cuts off nothing. -/
def fragments : ℕ → MP2Packetizer → MediaPacket → ℕ → Except SirannonException MP2Packetizer
  | 0, s, pckt, _ => if pckt.size = 0 then .ok s else .error outOfFuel
  | fuel+1, s, pckt, iOffset =>
    if pckt.size = 0 then .ok s
    else do
      let iPayload := min pckt.size s.iMax
      let r ← cut s pckt iPayload iOffset
      match r.2 with
      | none => return { s with iUnit := s.iUnit+1 }
      | some q => fragments fuel (q.1.route q.2) r.1 (iOffset+iPayload)

/-- A frame that is small enough keeps its packet. -/
def single (s : MP2Packetizer) (pckt : MediaPacket) : Except SirannonException MP2Packetizer := do
  let r ← MP2Packetizer.header { s with iUnit := s.iUnit+1 } (pckt.setUnit s.iUnit) 0
  match r with
  | none => return { s with iUnit := s.iUnit+1 }
  | some r => return r.1.route r.2

def send (s : MP2Packetizer) (pckt : MediaPacket) : Except SirannonException MP2Packetizer :=
  if s.iMax < pckt.size then fragments pckt.size s pckt 0 else single s pckt

def MP2Packetizer.receive (s : MP2Packetizer) (pckt : MediaPacket) :
    Except SirannonException MP2Packetizer :=
  if pckt.codec = .mp1v ∨ pckt.codec = .mp2v ∨ pckt.codec = .mp1a ∨ pckt.codec = .mp2a then
    (send s { pckt with mux := .RTP }).map fun s => { s with iPos := -1 }
  else .error (runtimeError "Invalid codec, expected(mp1v, mp1a, mp2v, mp2a)")

def packetize (s : MP2Packetizer) (frames : List MediaPacket) : Except SirannonException MP2Packetizer :=
  frames.foldlM MP2Packetizer.receive s

end Sirannon.MP2
