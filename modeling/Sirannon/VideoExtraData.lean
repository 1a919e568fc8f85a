import Sirannon.AnnexB
import Sirannon.BitBuffer

/-!
# Extra data of AVC

The record that describes a video stream holds its parameter sets, each behind
its length. It is built in two ways: from the start of a stream, where the
numbers of the parameter sets are filled in at the end, and from the parameter
sets that were put aside. A third function takes it apart again.
-/

set_option autoImplicit false

namespace Sirannon.VideoExtra
open ByteMemory Bits Media MachineInt H264

def H264_START_CODE : Bytes := [0, 0, 0, 1]

/-- What is computed in loops that may not end: nothing as long as the fuel is too little. -/
abbrev Looped := ExceptT SirannonException Option

def goesOn {α : Type} : Looped α := ExceptT.mk none

def ofExcept {α : Type} (r : Except SirannonException α) : Looped α := ExceptT.mk (some r)

/-! ## The start of a record -/

/-- Profile, its compatibility and level. -/
def profile (pBuffer : Memory) : Bytes := load pBuffer (H264_header_size pBuffer) 3

def writeBytes : Bytes → OBuffer → Except SirannonException OBuffer
  | [], o => .ok o
  | b::bs, o => do
    let o ← o.write 8 b.toNat
    writeBytes bs o

def writeHeader (pProfile : Bytes) (oVideoExtra : OBuffer) : Except SirannonException OBuffer :=
  writeBytes (0x01::pProfile ++ [0xFF]) oVideoExtra.clear

/-! ## From the start of a stream -/

/-- How far the buffer has been read, and how much of it is left. -/
structure Cursor where
  pBuffer : ℕ
  iSize : ℕ

def Cursor.type (m : Memory) (c : Cursor) : ℕ := H264_NAL_type (shift m c.pBuffer)

def Cursor.iNAL (m : Memory) (c : Cursor) : ℕ := AnnexB.H264_find_NAL (shift m c.pBuffer) c.iSize

def Cursor.iHeader (m : Memory) (c : Cursor) : ℕ := H264_is_start_code (shift m c.pBuffer)

def Cursor.next (m : Memory) (c : Cursor) : Cursor := ⟨c.pBuffer+c.iNAL m, c.iSize-c.iNAL m⟩

/-- The loop that goes to the first SPS. -/
def findSPS (m : Memory) : ℕ → Cursor → Looped Cursor
  | 0, _ => goesOn
  | fuel+1, c => if c.type m ≠ NAL_UNIT_TYPE_SPS then findSPS m fuel (c.next m) else pure c

def writeUnit (m : Memory) (c : Cursor) (oVideoExtra : OBuffer) : Except SirannonException OBuffer := do
  let oVideoExtra ← oVideoExtra.write 16 (uint32 ((c.iNAL m : ℤ)-c.iHeader m))
  if c.iNAL m < c.iHeader m then .error (undefinedBehaviour "memcpy of a negative size")
  else oVideoExtra.write_buffer (load m (c.pBuffer+c.iHeader m) (c.iNAL m-c.iHeader m))

/-- The loops over the parameter sets, with their number. -/
def writeUnits (m : Memory) (bUnit : ℕ → Bool) : ℕ → ℕ → Cursor → OBuffer → Looped (ℕ × Cursor × OBuffer)
  | 0, _, _, _ => goesOn
  | fuel+1, iUnits, c, oVideoExtra =>
    if 0 < c.iSize ∧ bUnit (c.type m) then do
      let oVideoExtra ← ofExcept (writeUnit m c oVideoExtra)
      writeUnits m bUnit fuel (iUnits+1) (c.next m) oVideoExtra
    else pure (iUnits, c, oVideoExtra)

def isPPS (iType : ℕ) : Bool := iType = NAL_UNIT_TYPE_PPS

def noPPS (iType : ℕ) : Bool := iType ≠ NAL_UNIT_TYPE_PPS

/-- The numbers of parameter sets, which are single bytes, are filled in. -/
def fillIn (iSPSIdx iPPSIdx iSPS iPPS : ℕ) (oVideoExtra : OBuffer) : Except SirannonException OBuffer := do
  let oVideoExtra ← (oVideoExtra.seekSet iSPSIdx).write 8 (0xE0 ||| iSPS%2^8)
  (oVideoExtra.seekSet iPPSIdx).write 8 (0x00 ||| iPPS%2^8)

/-- The extra data of the descriptor, and the writer. -/
def buildVideoExtraData (m : Memory) (iSize fuel : ℕ) (oVideoExtra : OBuffer) :
    Looped (Bytes × OBuffer) := do
  let c ← findSPS m fuel ⟨0, iSize⟩
  let oVideoExtra ← ofExcept (writeHeader (profile (shift m c.pBuffer)) oVideoExtra)
  let iSPSIdx := oVideoExtra.size
  let r ← writeUnits m noPPS fuel 0 c (oVideoExtra.seekCur 1)
  let iPPSIdx := r.2.2.size
  let q ← writeUnits m isPPS fuel 0 r.2.1 (r.2.2.seekCur 1)
  let iTotal := q.2.2.size
  let oVideoExtra ← ofExcept (fillIn iSPSIdx iPPSIdx r.1 q.1 q.2.2)
  pure (oVideoExtra.data iTotal, oVideoExtra)

/-! ## From the parameter sets -/

structure MP4MediaConverter where
  vSPS : List MediaPacket
  vPPS : List MediaPacket
  oVideoExtra : OBuffer

/-- The data of a packet, and what stands behind them. -/
def pData (behind : Memory) (pPckt : MediaPacket) : Memory := store behind 0 pPckt.bytes

def writeParameter (behind : Memory) (pPckt : MediaPacket) (oVideoExtra : OBuffer) :
    Except SirannonException (MediaPacket × OBuffer) := do
  let pPckt ← pPckt.pop_front (H264_is_start_code (pData behind pPckt))
  let oVideoExtra ← oVideoExtra.write 16 pPckt.size
  let oVideoExtra ← oVideoExtra.write_buffer pPckt.bytes
  pure (pPckt, oVideoExtra)

def writeParameters (behind : Memory) : List MediaPacket → OBuffer →
    Except SirannonException (List MediaPacket × OBuffer)
  | [], oVideoExtra => .ok ([], oVideoExtra)
  | pPckt::v, oVideoExtra => do
    let r ← writeParameter behind pPckt oVideoExtra
    let q ← writeParameters behind v r.2
    pure (r.1::q.1, q.2)

/-- Nothing is set when a kind of parameter sets is missing. -/
def MP4MediaConverter.ANNEXB2AVCC (behind : Memory) (s : MP4MediaConverter) :
    Except SirannonException (Option Bytes × MP4MediaConverter) :=
  match s.vSPS, s.vPPS with
  | pSPS::_, _::_ => do
    let oVideoExtra ← writeHeader (profile (pData behind pSPS)) s.oVideoExtra
    let oVideoExtra ← oVideoExtra.write 8 (0xE0 ||| s.vSPS.length)
    let r ← writeParameters behind s.vSPS oVideoExtra
    let oVideoExtra ← r.2.write 8 (0x00 ||| s.vPPS.length)
    let q ← writeParameters behind s.vPPS oVideoExtra
    pure (some (q.2.data q.2.size), ⟨r.1, q.1, q.2⟩)
  | _, _ => pure (none, s)

/-! ## Back to parameter sets -/

def extractLoop : ℕ → IBits → Except SirannonException (List MediaPacket × IBits)
  | 0, oHeader => .ok ([], oHeader)
  | n+1, oHeader => do
    let iSize := (oHeader.read 16).1
    let oHeader := (oHeader.read 16).2
    let pPckt ← (MediaPacket.new .media .video (iSize+4)).push_back H264_START_CODE
    let pPckt ← pPckt.push_back (load oHeader.buf oHeader.v iSize)
    let r ← extractLoop n (oHeader.seek iSize)
    pure (pPckt::r.1, r.2)

/-- `vSPS`, `vPPS` and the reader. The size of the length fields is read and not used. -/
def extractParameterSets (behind : Memory) (extra_data : Bytes) :
    Except SirannonException (List MediaPacket × List MediaPacket × IBits) := do
  let oHeader := (IBits.new (store behind 0 extra_data) extra_data.length).read 32
  let iLengthSize := oHeader.2.read 8
  let iSPS := iLengthSize.2.read 8
  let r ← extractLoop (iSPS.1%2^5) iSPS.2
  let iPPS := r.2.read 8
  let q ← extractLoop (iPPS.1%2^5) iPPS.2
  pure (r.1, q.1, q.2)

end Sirannon.VideoExtra
