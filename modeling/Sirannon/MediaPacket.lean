import Sirannon.Bits

/-!
# Media packets

A packet is its metadata and a window into a buffer that has room in front of
the data, for headers, and behind it. The operations on the data move the ends
of the window and throw when the buffer has no room left.
-/

set_option autoImplicit false

namespace Sirannon.Media
open Bits BitString ByteMemory

inductive PacketType
  | media | reset | «end»
  deriving DecidableEq, Repr

inductive ContentType
  | audio | video | mixed
  deriving DecidableEq, Repr

inductive MuxType
  | ES | MOV | TS | PES | RTMP | RTP | FLV | WEBM | M3U | PS | AVI | WMV | MKV | OGG | NO
  deriving DecidableEq, Repr

inductive CodecType
  | NO | mp1v | mp1a | mp2v | mp2a | mp4v | mp4a | avc | svc | mvc | wmv1 | wmv2 | wmv3 | wmvc
  | wma1 | wma2 | anb | awb | awbp | vp6 | vp6f | theora | vorbis | vp8 | flv1 | swfa | yuv | ac3
  | pcm | h263 | other
  deriving DecidableEq, Repr

def CodecType.code : CodecType → ℕ
  | NO => 0
  | mp1v => 0x10
  | mp1a => 0x11
  | mp2v => 0x20
  | mp2a => 0x21
  | mp4v => 0x40
  | mp4a => 0x41
  | avc => 0x80
  | svc => 0x81
  | mvc => 0x82
  | wmv1 => 0x100
  | wmv2 => 0x101
  | wmv3 => 0x102
  | wmvc => 0x103
  | wma1 => 0x104
  | wma2 => 0x105
  | anb => 0x200
  | awb => 0x201
  | awbp => 0x202
  | vp6 => 0x400
  | vp6f => 0x401
  | theora => 0x402
  | vorbis => 0x403
  | vp8 => 0x404
  | flv1 => 0x800
  | swfa => 0x801
  | yuv => 0x1000
  | ac3 => 0x1001
  | pcm => 0x1002
  | h263 => 0x1003
  | other => 0x1004

def familyMPEG4 : ℕ := 0x40

def familyH264 : ℕ := 0x80

/-- The test `codec & family` of the source. -/
def CodecType.isIn (codec : CodecType) (family : ℕ) : Bool := codec.code &&& family ≠ 0

inductive FrameType
  | I | IDR | SPS | SI | B | P | SP | E | EI | EP | EB | BI | BP | BB | CI | CP | CB | ESPS | PPS
  | SEI | AUD | AUDH | other | no_frame
  deriving DecidableEq, Repr

structure MediaDescriptor where
  content : ContentType
  codec : CodecType
  width : ℤ
  height : ℤ
  bitrate : ℤ
  samplerate : ℤ
  channels : ℤ
  extra_data : List UInt8
  deriving DecidableEq, Repr

/-- Everything `set_metadata` copies. -/
structure Metadata where
  type : PacketType
  content : ContentType
  mux : MuxType
  codec : CodecType
  frame : FrameType
  desc : Option MediaDescriptor
  framenumber : ℤ
  unitnumber : ℤ
  subframenumber : ℤ
  xroute : ℤ
  xstream : ℤ
  dts : ℤ
  pts : ℤ
  inc : ℤ
  T : ℕ
  D : ℕ
  Q : ℕ
  frameend : Bool
  framestart : Bool
  error : Bool
  key : Bool
  oSend : ℤ
  deriving DecidableEq, Repr

/-- `iFront` is the distance from the start of the buffer to `begin`. -/
structure MediaPacket extends Metadata where
  iFront : ℕ
  bytes : List UInt8
  max_size : ℕ
  deriving DecidableEq, Repr

def iBufferSpace : ℕ := 32

def Metadata.new (type : PacketType) (content : ContentType) : Metadata where
  type := type
  content := content
  mux := .ES
  codec := .NO
  frame := .no_frame
  desc := none
  framenumber := 0
  unitnumber := 0
  subframenumber := 0
  xroute := 0
  xstream := 0
  dts := 0
  pts := 0
  inc := 0
  T := 0
  D := 0
  Q := 0
  frameend := true
  framestart := true
  error := false
  key := false
  oSend := 0

def MediaPacket.new (type : PacketType) (content : ContentType) (iMaxSize : ℕ) : MediaPacket where
  toMetadata := Metadata.new type content
  iFront := iBufferSpace
  bytes := []
  max_size := iMaxSize + 2*iBufferSpace

def MediaPacket.size (p : MediaPacket) : ℕ := p.bytes.length

def MediaPacket.set_metadata (p pckt : MediaPacket) : MediaPacket :=
  { p with toMetadata := pckt.toMetadata }

def MediaPacket.pushed (p : MediaPacket) (buffer : List UInt8) : MediaPacket :=
  { p with bytes := p.bytes ++ buffer }

def MediaPacket.fronted (p : MediaPacket) (buffer : List UInt8) : MediaPacket :=
  { p with iFront := p.iFront - buffer.length, bytes := buffer ++ p.bytes }

def MediaPacket.popped (p : MediaPacket) (len : ℕ) : MediaPacket :=
  { p with iFront := p.iFront + len, bytes := p.bytes.drop len }

def MediaPacket.push_back (p : MediaPacket) (buffer : List UInt8) :
    Except SirannonException MediaPacket :=
  if p.max_size ≤ p.iFront + p.size + buffer.length then
    .error (outOfBoundsError "MediaPacket overflow")
  else .ok (p.pushed buffer)

def MediaPacket.push_front (p : MediaPacket) (buffer : List UInt8) :
    Except SirannonException MediaPacket :=
  if p.iFront < buffer.length then .error (outOfBoundsError "MediaPacket underflow")
  else .ok (p.fronted buffer)

def MediaPacket.pop_front (p : MediaPacket) (len : ℕ) : Except SirannonException MediaPacket :=
  if p.size < len then .error (outOfBoundsError "Cannot pop an empty packet")
  else .ok (p.popped len)

theorem push_back_ok {p : MediaPacket} {buffer : List UInt8}
    (h : p.iFront + p.size + buffer.length < p.max_size) :
    p.push_back buffer = .ok (p.pushed buffer) := by
  rw [MediaPacket.push_back, if_neg (by omega)]

theorem push_front_ok {p : MediaPacket} {buffer : List UInt8} (h : buffer.length ≤ p.iFront) :
    p.push_front buffer = .ok (p.fronted buffer) := by
  rw [MediaPacket.push_front, if_neg (by omega)]

theorem pop_front_ok {p : MediaPacket} {len : ℕ} (h : len ≤ p.size) :
    p.pop_front len = .ok (p.popped len) := by
  rw [MediaPacket.pop_front, if_neg (by omega)]

/-- A new packet takes as many bytes as it was made for. -/
theorem new_push_back (type : PacketType) (content : ContentType) (iMaxSize : ℕ)
    (buffer : List UInt8) (h : buffer.length ≤ iMaxSize) :
    (MediaPacket.new type content iMaxSize).push_back buffer =
      .ok ((MediaPacket.new type content iMaxSize).pushed buffer) := by
  apply push_back_ok
  simp only [MediaPacket.new, MediaPacket.size, List.length_nil, iBufferSpace]
  omega

@[simp] theorem new_bytes (type : PacketType) (content : ContentType) (iMaxSize : ℕ) :
    (MediaPacket.new type content iMaxSize).bytes = [] := rfl

@[simp] theorem pushed_bytes (p : MediaPacket) (buffer : List UInt8) :
    (p.pushed buffer).bytes = p.bytes ++ buffer := rfl

@[simp] theorem pushed_metadata (p : MediaPacket) (buffer : List UInt8) :
    (p.pushed buffer).toMetadata = p.toMetadata := rfl

@[simp] theorem fronted_bytes (p : MediaPacket) (buffer : List UInt8) :
    (p.fronted buffer).bytes = buffer ++ p.bytes := rfl

@[simp] theorem popped_bytes (p : MediaPacket) (len : ℕ) :
    (p.popped len).bytes = p.bytes.drop len := rfl

@[simp] theorem popped_metadata (p : MediaPacket) (len : ℕ) :
    (p.popped len).toMetadata = p.toMetadata := rfl

@[simp] theorem popped_size (p : MediaPacket) (len : ℕ) : (p.popped len).size = p.size-len := by
  simp [MediaPacket.size]

def MediaPacket.setUnit (p : MediaPacket) (iUnit : ℤ) : MediaPacket :=
  { p with unitnumber := iUnit }

@[simp] theorem setUnit_bytes (p : MediaPacket) (u : ℤ) : (p.setUnit u).bytes = p.bytes := rfl

@[simp] theorem setUnit_size (p : MediaPacket) (u : ℤ) : (p.setUnit u).size = p.size := rfl

@[simp] theorem setUnit_unitnumber (p : MediaPacket) (u : ℤ) : (p.setUnit u).unitnumber = u := rfl

@[simp] theorem set_metadata_bytes (p q : MediaPacket) : (p.set_metadata q).bytes = p.bytes := rfl

@[simp] theorem set_metadata_metadata (p q : MediaPacket) :
    (p.set_metadata q).toMetadata = q.toMetadata := rfl

/-- A frame is known by these two numbers. -/
def numbers (p : MediaPacket) : ℤ × ℤ := (p.framenumber, p.subframenumber)

/-! ## Several packets into one -/

def sizes (ps : List MediaPacket) : ℕ := (ps.map MediaPacket.size).sum

def allBytes (ps : List MediaPacket) : List UInt8 := ps.flatMap MediaPacket.bytes

theorem allBytes_split (q : List MediaPacket) (p : MediaPacket) (ps : List MediaPacket) :
    allBytes (q ++ p::ps) = allBytes (q ++ [p]) ++ allBytes ps := by
  simp [allBytes]

/-- The loop that pushes the data of one packet after the other. -/
def push_all (p : MediaPacket) : List MediaPacket → Except SirannonException MediaPacket
  | [] => .ok p
  | q::qs => do
    let p ← p.push_back q.bytes
    push_all p qs

theorem allBytes_length (ps : List MediaPacket) : (allBytes ps).length = sizes ps := by
  induction ps with
  | nil => rfl
  | cons p ps ih =>
    rw [allBytes, List.flatMap_cons, List.length_append, sizes, List.map_cons, List.sum_cons]
    rw [allBytes, sizes] at ih
    rw [ih, MediaPacket.size]

theorem push_all_ok (ps : List MediaPacket) (p : MediaPacket)
    (h : p.iFront + p.size + sizes ps < p.max_size) :
    push_all p ps = .ok (p.pushed (allBytes ps)) := by
  induction ps generalizing p with
  | nil => simp [push_all, allBytes, MediaPacket.pushed]
  | cons q qs ih =>
    have hsum : sizes (q::qs) = q.size + sizes qs := by simp [sizes]
    have hq : q.size = q.bytes.length := rfl
    have hstep : p.push_back q.bytes = .ok (p.pushed q.bytes) := push_back_ok (by omega)
    simp only [push_all, hstep, bind, Except.bind]
    rw [ih]
    · simp [allBytes, MediaPacket.pushed]
    · simp only [MediaPacket.size, MediaPacket.pushed, List.length_append]
      rw [← hq]
      have : p.size = p.bytes.length := rfl
      omega

/-! ## Reading the data -/

/-- A reader over the data of a packet; what lies behind the data is taken as zero. -/
def reader (p : MediaPacket) : IBits :=
  IBits.new (ByteMemory.store ByteMemory.zeroed 0 p.bytes) p.size

theorem reader_ahead {p : MediaPacket} {h rest : List UInt8} (hp : p.bytes = h ++ rest) :
    (reader p).Ahead 0 (ofBytes h ++ ofBytes rest) := by
  have hnew : (IBits.new zeroed p.size).Ahead (8*0) [] := IBits.ahead_new zeroed p.size
  have hstore := IBits.ahead_store hnew p.bytes
  rw [hp, ofBytes_append] at hstore
  rw [reader, hp]
  exact hstore

end Sirannon.Media
