import Sirannon.Packetizer

/-!
# MPEG-2 unpacketizer

The fragments of a frame are joined without their headers of four bytes. The
header of a video fragment says whether it is the last one of its slice.
-/

set_option autoImplicit false

namespace Sirannon.MP2
open Bits Media Packetization StateError

abbrev MP2Unpacketizer := Unpacketizer Unit

abbrev Unpacking := Unpack Unit

def MpegToSirannon (iField : ℕ) : FrameType :=
  match iField with
  | 1 => .I
  | 2 => .P
  | 3 => .B
  | _ => .other

/-- `bEnd` and the type of the frame, from the header of a video fragment. -/
def deduce (pUnpack pPckt : MediaPacket) : Bool × MediaPacket :=
  if pUnpack.content = .video then
    let bEnd := ((reader pPckt).read 20).2.read 1
    (bEnd.1 ≠ 0, { pUnpack with frame := MpegToSirannon (bEnd.2.read 3).1 })
  else (false, pUnpack)

/-- The loop over the fragments: the frame, and the packets it leaves. -/
def joinLoop : List MediaPacket → MediaPacket →
    Except SirannonException (MediaPacket × List MediaPacket)
  | [], pUnpack => .ok (pUnpack, [])
  | pPckt::vBuffer, pUnpack => do
    let (bEnd, pUnpack) := deduce pUnpack pPckt
    let pPckt ← pPckt.pop_front 4
    let pUnpack ← pUnpack.push_back pPckt.bytes
    if bEnd then .ok (pUnpack, vBuffer) else joinLoop vBuffer pUnpack

/-- A frame put out; the unit number is not advanced. -/
def whole (pUnpack : MediaPacket) (iUnit : ℤ) : MediaPacket :=
  { pUnpack with framestart := true, frameend := true, mux := .ES, unitnumber := iUnit }

def put (pUnpack : MediaPacket) (left : List MediaPacket) : Unpacking Unit := do
  modify fun s => { s with vBuffer := left, routed := s.routed ++ [pUnpack] }
  if left = [] then pure ()
  else throw (runtimeError
    s!"Corrupted unpacketizer stack ({left.length} remaining packets)")

def unpack : Unpacking Unit := do
  let s ← get
  match s.vBuffer with
  | [] => throw (undefinedBehaviour "front of an empty queue")
  | [pPckt] => do
    let pPckt ← ofExcept (pPckt.pop_front 4)
    put (whole pPckt s.iUnit) []
  | pPckt::rest => do
    let pUnpack := (MediaPacket.new .media .video (sizes (pPckt::rest))).set_metadata pPckt
    let joined ← ofExcept (joinLoop (pPckt::rest) (whole pUnpack s.iUnit))
    put joined.1 joined.2

def receive (pPckt : MediaPacket) : Unpacking Unit :=
  if pPckt.codec = .mp1a ∨ pPckt.codec = .mp2a ∨ pPckt.codec = .mp1v ∨ pPckt.codec = .mp2v then
    Unpacketizer.receive unpack pPckt
  else throw (valueError "Invalid codec")

/-- A packet, handed to the function for its type. -/
def deliver (pPckt : MediaPacket) : Unpacking Unit :=
  match pPckt.type with
  | .media => receive pPckt
  | .reset => Unpacketizer.receive_end unpack pPckt
  | .end => Unpacketizer.receive_end unpack pPckt

end Sirannon.MP2
