import Sirannon.Packetizer

/-!
# H.264 packetizer

A NAL unit that fits in a packet travels alone or with others in an
aggregate, a larger one is cut into fragments that repeat its header byte. The
unpacketizer joins fragments by their flags and unit numbers, takes aggregates
apart by their sizes, and puts a start code in front of every NAL unit.
-/

set_option autoImplicit false

namespace Sirannon.AVC
open MachineInt Bits Media Packetization StateError

/-! ## Packetizer -/

def type_mask : UInt8 := 0x1F

def nri_mask : UInt8 := 0xE0

def FLAG_BEGIN : UInt8 := 0x80

def FLAG_END : UInt8 := 0x40

def FLAG_FU : UInt8 := 0x1C

def FLAG_STAPA : UInt8 := 0x18

structure AVCPacketizer extends Packetizer where
  bAggregate : Bool
  len : ℕ
  stack : List MediaPacket
  deriving DecidableEq, Repr

def AVCPacketizer.init (mtu : ℤ) (bAggregate : Bool) : AVCPacketizer where
  toPacketizer := Packetizer.init mtu
  bAggregate := bAggregate
  len := 0
  stack := []

abbrev Packing := EStateM SirannonException AVCPacketizer

def AVCPacketizer.number (s : AVCPacketizer) (pckt : MediaPacket) : AVCPacketizer :=
  { s with toPacketizer := s.toPacketizer.number pckt }

/-- The length of the start code in front of a NAL unit. -/
def H264_is_start_code : List UInt8 → ℕ
  | 0::0::1::_ => 3
  | 0::0::0::1::_ => 4
  | _ => 0

/-- `pPckt->data()[i]`. -/
def dataAt (pPckt : MediaPacket) (i : ℕ) : UInt8 := pPckt.bytes.getD i 0

/-- The packet for one fragment, its data still missing. -/
def fragment (pPckt : MediaPacket) (header1 : UInt8) (write_size : ℕ) : MediaPacket :=
  { (MediaPacket.new .media .video (write_size+2)).set_metadata pPckt with
    framestart := if header1 &&& FLAG_BEGIN ≠ 0 then pPckt.framestart else false
    frameend := if header1 &&& FLAG_END ≠ 0 then pPckt.frameend else false
    mux := .RTP }

/-- The second header byte of the next fragment, `size` bytes being left. -/
def nextHeader (pPckt : MediaPacket) (iMTU : ℤ) (size : ℕ) (header1 : UInt8) : UInt8 :=
  let type := dataAt pPckt 0 &&& type_mask
  if (size : ℤ) ≤ iMTU-2 then FLAG_END ||| type
  else if size = pPckt.size-1 then FLAG_BEGIN ||| type
  else header1

/-- The loop over the fragments; `data` is what is left of the NAL unit. -/
def fragmentLoop (pPckt : MediaPacket) : ℕ → List UInt8 → UInt8 → Packing Unit
  | 0, _, _ => pure ()
  | fuel+1, data, header1 =>
    if data.length = 0 then pure () else do
      let s ← get
      let header0 := (dataAt pPckt 0 &&& nri_mask) ||| FLAG_FU
      let header1 := nextHeader pPckt s.iMTU data.length header1
      let write_size := uint32 (min (data.length : ℤ) (s.iMTU-2))
      let new_pckt := fragment pPckt header1 write_size
      let new_pckt ← ofExcept (new_pckt.push_back [header0])
      let new_pckt ← ofExcept (new_pckt.push_back [header1])
      let new_pckt ← ofExcept (new_pckt.push_back (data.take write_size))
      modify fun s => s.number new_pckt
      fragmentLoop pPckt fuel (data.drop write_size) (dataAt pPckt 0 &&& type_mask)

def pack_FU (pPckt : MediaPacket) : Packing Unit := do
  let s ← get
  if s.iMTU < pPckt.size then
    fragmentLoop pPckt pPckt.size (pPckt.bytes.drop 1)
      (FLAG_BEGIN ||| (dataAt pPckt 0 &&& type_mask))
  else modify fun s => s.number { pPckt with mux := .RTP }

/-- The size of a NAL unit in an aggregate, as a number of 16 bits. -/
def sizeBytes (n : ℕ) : List UInt8 := [UInt8.ofNat (n/2^8), UInt8.ofNat n]

/-- One NAL unit more in an aggregate, with its flags. -/
def stapPart (stap_pckt pPckt : MediaPacket) : Except SirannonException MediaPacket := do
  let stap_pckt ← stap_pckt.push_back (sizeBytes pPckt.size)
  let stap_pckt ← stap_pckt.push_back pPckt.bytes
  return { stap_pckt with
    frameend := stap_pckt.frameend || pPckt.frameend
    framestart := stap_pckt.framestart || pPckt.framestart }

def pack_STAP (front : MediaPacket) (stack : List MediaPacket) : Packing Unit := do
  let s ← get
  if s.len = 0 then throw (runtimeError "assert ( len > 0 )")
  else do
    let iSize := 1+stack.length*2+s.len
    let stap_pckt := { (MediaPacket.new .media .video iSize).set_metadata front with mux := .RTP }
    let nri := (dataAt front 0 &&& nri_mask) &&& 0x7F
    let stap_pckt ← ofExcept (stap_pckt.push_back [FLAG_STAPA ||| nri])
    let stap_pckt ← ofExcept (stack.foldlM stapPart stap_pckt)
    modify fun s => { s.number stap_pckt with stack := [] }

def pack : Packing Unit := do
  let s ← get
  match s.stack with
  | [] => pure ()
  | [pPckt] => do
    pack_FU pPckt
    modify fun s => { s with stack := [], len := 0 }
  | front::rest => do
    pack_STAP front (front::rest)
    modify fun s => { s with len := 0 }

def push (pPckt : MediaPacket) : Packing Unit := do
  modify fun s => { s with len := s.len+pPckt.size, stack := s.stack ++ [pPckt] }
  if pPckt.frameend then pack else pure ()

/-- Does the NAL unit go into the aggregate that is being gathered? -/
def AVCPacketizer.joins (s : AVCPacketizer) (pPckt : MediaPacket) : Bool :=
  s.len+pPckt.size+1+(s.stack.length+1)*2 ≤ uint32 s.iMTU ∧
    (∀ back ∈ s.stack.getLast?, back.framenumber = pPckt.framenumber)

def receive (pPckt : MediaPacket) : Packing Unit :=
  if pPckt.codec.isIn familyH264 = false then throw (typeError "Invalid codec")
  else if pPckt.mux ≠ .ES then throw (typeError "Invalid packetization mode, expected(ES)")
  else do
    let pPckt ← ofExcept (pPckt.pop_front (H264_is_start_code pPckt.bytes))
    let s ← get
    if s.bAggregate = false then pack_FU pPckt
    else if s.iMTU < pPckt.size then do
      pack
      pack_FU pPckt
    else if s.joins pPckt then push pPckt
    else do
      pack
      if (pPckt.size : ℤ)+3 ≤ s.iMTU then push pPckt else pack_FU pPckt

/-- The end packet sends away what has been gathered. -/
def receive_end (pPckt : MediaPacket) : Packing Unit := do
  pack
  modify fun s => s.number { pPckt with mux := .RTP }

/-! ## Unpacketizer -/

def NAL_UNIT_TYPE_SLICE_NON_IDR : ℕ := 0x01
def NAL_UNIT_TYPE_SLICE_DP_A : ℕ := 0x02
def NAL_UNIT_TYPE_SLICE_IDR : ℕ := 0x05
def NAL_UNIT_TYPE_SPS : ℕ := 0x07
def NAL_UNIT_TYPE_PPS : ℕ := 0x08
def NAL_UNIT_TYPE_SLICE_SVC : ℕ := 0x14

/-- What `H264_parse_NAL` does to the values it remembers, and the two values asked for here. -/
structure NALParser (ν : Type) where
  H264_parse_NAL : List UInt8 → ν → ν
  nal_unit_type : ν → ℕ
  first_mb_in_slice : ν → ℕ

/-- What the H.264 unpacketizer adds to the state. -/
structure AVCState (ν : Type) where
  bConformAnnexB : Bool
  oNAL : ν

section
variable {ν : Type}

abbrev AVCUnpacketizer (ν : Type) := Unpacketizer (AVCState ν)

abbrev Unpacking (ν : Type) := Unpack (AVCState ν)

def START_CODE_LONG : List UInt8 := [0, 0, 0, 1]

def START_CODE_SHORT : List UInt8 := [0, 0, 1]

/-- Parameter sets and the first slice of a frame get the long start code. -/
def NALParser.bLong (H : NALParser ν) (oNAL : ν) : Bool :=
  let nal_unit_type := H.nal_unit_type oNAL
  if nal_unit_type = NAL_UNIT_TYPE_SPS ∨ nal_unit_type = NAL_UNIT_TYPE_PPS then true
  else if nal_unit_type = NAL_UNIT_TYPE_SLICE_SVC ∨ nal_unit_type = NAL_UNIT_TYPE_SLICE_NON_IDR ∨
      nal_unit_type = NAL_UNIT_TYPE_SLICE_DP_A ∨ nal_unit_type = NAL_UNIT_TYPE_SLICE_IDR then
    H.first_mb_in_slice oNAL = 0
  else false

/-- The type of frame, for streams that do not know it. -/
def frameType (pPckt : MediaPacket) : FrameType :=
  if pPckt.frame = .no_frame then
    let iType := (dataAt pPckt 0 &&& type_mask).toNat
    if iType = NAL_UNIT_TYPE_PPS then .PPS
    else if iType = NAL_UNIT_TYPE_SPS then .SPS
    else if iType = NAL_UNIT_TYPE_SLICE_IDR then .IDR
    else .P
  else pPckt.frame

/-- Only for strict Annex B the NAL unit is parsed. -/
def AVCState.parsed (H : NALParser ν) (own : AVCState ν) (bytes : List UInt8) : AVCState ν :=
  if own.bConformAnnexB then { own with oNAL := H.H264_parse_NAL bytes own.oNAL } else own

def AVCState.startCode (H : NALParser ν) (own : AVCState ν) : List UInt8 :=
  if own.bConformAnnexB = true ∧ H.bLong own.oNAL = false then START_CODE_SHORT
  else START_CODE_LONG

def typed (pPckt : MediaPacket) : MediaPacket :=
  { pPckt with
    frame := frameType pPckt
    codec := if pPckt.codec = CodecType.NO then .avc else pPckt.codec }

def startcodes (H : NALParser ν) (pPckt : MediaPacket) : Unpacking ν MediaPacket := do
  modify fun s => { s with own := s.own.parsed H pPckt.bytes }
  let s ← get
  ofExcept ((typed pPckt).push_front (s.own.startCode H))

/-- Do the fragments begin and end a NAL unit, and is none missing in between? -/
def complete (front back : MediaPacket) (n : ℕ) : Bool :=
  dataAt front 1 &&& FLAG_BEGIN ≠ 0 ∧ dataAt back 1 &&& FLAG_END ≠ 0 ∧
    uint32 (back.unitnumber-front.unitnumber+1) = n

/-- The header byte of a NAL unit, put together from those of its fragments. -/
def newHeader (front : MediaPacket) : UInt8 :=
  (dataAt front 0 &&& nri_mask) ||| (dataAt front 1 &&& type_mask)

/-- The packet for the joined fragments. -/
def joined (front back : MediaPacket) (pckt : MediaPacket) : MediaPacket :=
  { pckt.set_metadata front with
    mux := .ES, framestart := front.framestart, frameend := back.frameend }

/-- The payloads of the fragments, pushed one by one. -/
def pushFragments (pckt : MediaPacket) : List MediaPacket → Except SirannonException MediaPacket
  | [] => .ok pckt
  | q::vBuffer => do
    let pckt ← pckt.push_back (q.bytes.drop 2)
    pushFragments pckt vBuffer

def unpackFU (H : NALParser ν) (front back : MediaPacket) (vBuffer : List MediaPacket) :
    Unpacking ν Unit := do
  if complete front back vBuffer.length then do
    let size := (vBuffer.map fun q => q.size-2).sum
    let pckt ← ofExcept ((MediaPacket.new .media .video size).push_back [newHeader front])
    let pckt ← ofExcept (pushFragments (joined front back pckt) vBuffer)
    modify fun s => { s with vBuffer := [] }
    let pckt ← startcodes H pckt
    modify fun s => s.emit pckt
  else modify fun s => { s with iUnit := s.iUnit+1, vBuffer := [] }

/-- One NAL unit of an aggregate; `data` is what is left of the aggregate behind it. -/
def stapUnit (pStap pckt : MediaPacket) (iSubFrame : ℤ) (iCount : ℕ) (data : List UInt8) :
    MediaPacket :=
  { pckt.set_metadata pStap with
    subframenumber := iSubFrame
    mux := .ES
    framestart := if iCount = 0 then pStap.framestart else false
    frameend := if data = [] then pStap.frameend else false }

/-- The loop over an aggregate, `data` being what is left of it. -/
def stapLoop (H : NALParser ν) (pStap : MediaPacket) : ℕ → List UInt8 → ℤ → ℕ → Unpacking ν Unit
  | 0, _, _, _ => pure ()
  | fuel+1, data, iSubFrame, iCount => do
    let next_size := (data.getD 0 0).toNat*2^8+(data.getD 1 0).toNat
    if data.length < 2+next_size then throw (runtimeError "corrupted STAP-A packet")
    else do
      let pckt ← ofExcept ((MediaPacket.new .media .video (next_size+4)).push_back
        ((data.drop 2).take next_size))
      let data := data.drop (2+next_size)
      let pckt ← startcodes H pckt
      modify fun s => s.emit (stapUnit pStap pckt iSubFrame iCount data)
      if data = [] then pure ()
      else stapLoop H pStap fuel data (iSubFrame+1) (iCount+1)

def unpack (H : NALParser ν) : Unpacking ν Unit := do
  let s ← get
  match s.vBuffer with
  | [] => pure ()
  | front::rest => do
    let indicator := dataAt front 0 &&& type_mask
    if indicator = FLAG_FU then
      unpackFU H front ((front::rest).getLast (List.cons_ne_nil front rest)) (front::rest)
    else if indicator = FLAG_STAPA then do
      modify fun s => { s with vBuffer := rest }
      stapLoop H front front.size (front.bytes.drop 1) front.subframenumber 0
    else do
      modify fun s => { s with vBuffer := rest }
      let pckt ← startcodes H front
      modify fun s => s.emit { pckt with mux := .ES }
    drop

/-- A fragment that is not the last one is kept waiting. -/
def waits (back : MediaPacket) : Bool :=
  dataAt back 0 &&& type_mask = FLAG_FU ∧ dataAt back 1 &&& FLAG_END = 0

def AVCUnpacketizer.receive (H : NALParser ν) (pPckt : MediaPacket) : Unpacking ν Unit := do
  Unpacketizer.receive (unpack H) pPckt
  if waits pPckt then pure () else unpack H

end

end Sirannon.AVC
