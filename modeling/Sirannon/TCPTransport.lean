import Sirannon.MediaPacket
import Sirannon.MachineInt

/-!
# Sirannon header over TCP

In front of every packet go two bytes with its length and 21 bytes with its
metadata. The length counts 16 bits and is all that tells one packet from the
next, so a packet that is too long for it takes the receiver out of step.
-/

set_option autoImplicit false

namespace Sirannon.TCP
open Bits BitString ByteMemory MachineInt

abbrev Bytes := List UInt8

/-- What the header carries. Enumerations are numbers here: a cast makes one out of any number. -/
structure Header where
  dts : ℤ
  inc : ℤ
  unitnumber : ℤ
  framenumber : ℤ
  subframenumber : ℤ
  codec : ℕ
  type : ℕ
  content : ℕ
  mux : ℕ
  frame : ℕ
  framestart : Bool
  frameend : Bool
  key : Bool
  deriving DecidableEq, Repr

/-- `iFront` is the room in front of the data. -/
structure Packet extends Header where
  iFront : ℕ
  bytes : Bytes
  deriving DecidableEq, Repr

/-! ## Transmitter -/

def Packet.push_front (p : Packet) (buffer : Bytes) : Except SirannonException Packet :=
  if p.iFront < buffer.length then .error (outOfBoundsError "MediaPacket underflow")
  else .ok { p with iFront := p.iFront-buffer.length, bytes := buffer ++ p.bytes }

def headerFields (h : Header) : List (ℕ × ℕ) :=
  [(32, uint32 h.dts), (32, uint32 h.inc), (32, uint32 h.unitnumber), (32, uint32 h.framenumber),
    (8, uint32 h.subframenumber), (16, h.codec), (2, h.type), (2, h.content), (4, h.mux),
    (5, h.frame), (1, h.framestart.toNat), (1, h.frameend.toNat), (1, h.key.toNat)]

def encode_header (pckt : Packet) : Except SirannonException Packet := do
  let oHeader ← (OBits.new 128).writes (headerFields pckt.toHeader)
  pckt.push_front oHeader.data

def encode_length (pckt : Packet) : Except SirannonException Packet := do
  let oHeader ← (OBits.new 128).write 16 pckt.bytes.length
  pckt.push_front oHeader.data

/-- What goes to the socket. -/
def receive (bExtension : Bool) (pPckt : Packet) : Except SirannonException Bytes :=
  if bExtension then do
    let pPckt ← encode_header pPckt
    let pPckt ← encode_length pPckt
    return pPckt.bytes
  else .ok pPckt.bytes

/-- The socket takes everything, in order. -/
def transmit (bExtension : Bool) : List Packet → Except SirannonException Bytes
  | [] => .ok []
  | p::ps => do
    let pData ← receive bExtension p
    let pRest ← transmit bExtension ps
    return pData ++ pRest

/-! ## Receiver -/

def bufferSize : ℕ := 64*1024

/-- `inc` and `codec` are those of the descriptor of the stream. -/
structure TCPReceiver where
  pBuffer : Memory
  iStream : ℤ
  iVideo : ℤ
  iAudio : ℤ
  inc : ℤ
  codec : ℕ

/-- A packet as it is routed. -/
structure Routed extends Header where
  bytes : Bytes
  pts : ℤ
  xstream : ℤ
  xroute : ℤ
  deriving DecidableEq, Repr

def decode_header (pHeader : Memory) : Header :=
  let oHeader := IBits.new pHeader 21
  let (dts, oHeader) := oHeader.read 32
  let (inc, oHeader) := oHeader.read 32
  let (unitnumber, oHeader) := oHeader.read 32
  let (framenumber, oHeader) := oHeader.read 32
  let (subframenumber, oHeader) := oHeader.read 8
  let (codec, oHeader) := oHeader.read 16
  let (type, oHeader) := oHeader.read 2
  let (content, oHeader) := oHeader.read 2
  let (mux, oHeader) := oHeader.read 4
  let (frame, oHeader) := oHeader.read 5
  let (framestart, oHeader) := oHeader.read 1
  let (frameend, oHeader) := oHeader.read 1
  let (key, _) := oHeader.read 1
  { dts := int32 dts
    inc := int32 inc
    unitnumber := int32 unitnumber
    framenumber := int32 framenumber
    subframenumber := int32 subframenumber
    codec := codec
    type := type
    content := content
    mux := mux
    frame := frame
    framestart := decide (framestart ≠ 0)
    frameend := decide (frameend ≠ 0)
    key := decide (key ≠ 0) }

def decode_additional (r : TCPReceiver) (h : Header) (bytes : Bytes) : Routed where
  toHeader := h
  bytes := bytes
  pts := h.dts
  xstream := r.iStream
  xroute := if h.content = 1 then r.iVideo else if h.content = 0 then r.iAudio else r.iVideo

/-- One message, whose bytes are in the buffer. A length below that of the header wraps around. -/
def parse (r : TCPReceiver) (iSize : ℕ) : Except SirannonException (Routed × TCPReceiver) :=
  let h := decode_header r.pBuffer
  let r := { r with inc := h.inc, codec := h.codec }
  if iSize < 21 then .error (outOfBoundsError "MediaPacket overflow")
  else .ok (decode_additional r h (load r.pBuffer 21 (iSize-21)), r)

def decode_length (header : Memory) : ℕ := ((IBits.new header 2).read 16).1

/-- The packets routed, and the error that ended the thread. -/
abbrev Reception := List Routed × Option SirannonException

/-- The loop of the thread, over all that comes out of the socket. -/
def receiveLoop : ℕ → TCPReceiver → Bytes → Reception
  | 0, _, _ => ([], none)
  | fuel+1, r, stream =>
    if stream.length < 2 then ([], none)
    else
      let pBuffer := store r.pBuffer 0 (stream.take 2)
      let iSize := decode_length pBuffer
      if bufferSize < iSize then ([], some (valueError "Message size larger than buffer size"))
      else if (stream.drop 2).length < iSize then ([], none)
      else
        match parse { r with pBuffer := store pBuffer 0 ((stream.drop 2).take iSize) } iSize with
        | .error e => ([], some e)
        | .ok (pPckt, r) =>
          let rest := receiveLoop fuel r (stream.drop (2+iSize))
          (pPckt::rest.1, rest.2)

def mainThreadA (r : TCPReceiver) (stream : Bytes) : Reception :=
  receiveLoop stream.length r stream

/-! ## Messages -/

/-- Values that fit the types of the source. -/
structure Legal (h : Header) : Prop where
  dts : -2^31 ≤ h.dts ∧ h.dts < 2^31
  inc : -2^31 ≤ h.inc ∧ h.inc < 2^31
  unitnumber : -2^31 ≤ h.unitnumber ∧ h.unitnumber < 2^31
  framenumber : -2^31 ≤ h.framenumber ∧ h.framenumber < 2^31
  subframenumber : 0 ≤ h.subframenumber ∧ h.subframenumber < 2^8
  codec : h.codec < 2^16
  type : h.type < 3
  content : h.content < 3
  mux : h.mux < 15
  frame : h.frame < 24

theorem header_written (h : Header) : ∃ o, (OBits.new 128).writes (headerFields h) = .ok o ∧
    ofBytes o.data = fieldBits (headerFields h) ∧ o.data.length = 21 :=
  OBits.writes_new (headerFields h) (by rfl) (by decide) (by simp [headerFields])

theorem length_written (n : ℕ) : ∃ o, (OBits.new 128).write 16 n = .ok o ∧
    ofBytes o.data = ofNat 16 n ∧ o.data.length = 2 := by
  have hwritten : ∃ o, (OBits.new 128).writes [(16, n)] = .ok o ∧
      ofBytes o.data = fieldBits [(16, n)] ∧ o.data.length = 2 :=
    OBits.writes_new [(16, n)] rfl (by decide) (by simp)
  rcases hwritten with ⟨o, ho, hbits, hlength⟩
  refine ⟨o, ?_, by simpa [fieldBits] using hbits, hlength⟩
  rw [OBits.writes] at ho
  cases hwrite : (OBits.new 128).write 16 n with
  | error e =>
    rw [hwrite] at ho
    cases ho
  | ok o' =>
    rw [hwrite] at ho
    exact ho

def headerBytes (h : Header) : Bytes := pack (fieldBits (headerFields h))

def lengthBytes (n : ℕ) : Bytes := pack (ofNat 16 n)

def message (p : Packet) : Bytes :=
  lengthBytes (21+p.bytes.length) ++ (headerBytes p.toHeader ++ p.bytes)

theorem headerBytes_bits (h : Header) : ofBytes (headerBytes h) = fieldBits (headerFields h) := by
  rcases header_written h with ⟨o, -, hbits, -⟩
  rw [headerBytes, ← hbits, pack_ofBytes]

theorem headerBytes_length (h : Header) : (headerBytes h).length = 21 := by
  rcases header_written h with ⟨o, -, hbits, hlength⟩
  rw [headerBytes, ← hbits, pack_ofBytes, hlength]

theorem lengthBytes_bits (n : ℕ) : ofBytes (lengthBytes n) = ofNat 16 n :=
  ofBytes_pack 2 _ (ofNat_length 16 n)

theorem lengthBytes_length (n : ℕ) : (lengthBytes n).length = 2 :=
  pack_length 2 _ (ofNat_length 16 n)

/-- Both headers need room in front of the data. -/
theorem receive_eq (p : Packet) : (23 ≤ p.iFront ∧ receive true p = .ok (message p)) ∨
    (p.iFront < 23 ∧ ∃ e, receive true p = .error e) := by
  rcases header_written p.toHeader with ⟨oHeader, hheader, hbits, hlength⟩
  have hdata : oHeader.data = headerBytes p.toHeader := by
    rw [headerBytes, ← hbits, pack_ofBytes]
  simp only [receive, if_true, encode_header, hheader, bind, Except.bind, Packet.push_front,
    hdata, headerBytes_length]
  by_cases hroom : p.iFront < 21
  · rw [if_pos hroom]
    exact Or.inr ⟨by omega, _, rfl⟩
  rw [if_neg hroom]
  simp only [encode_length, bind, Except.bind]
  rcases length_written (headerBytes p.toHeader ++ p.bytes).length with
    ⟨oLength, hwrite, hbits', -⟩
  have hdata' : oLength.data = lengthBytes (21+p.bytes.length) := by
    rw [lengthBytes, ← headerBytes_length p.toHeader, ← List.length_append, ← hbits', pack_ofBytes]
  rw [hwrite]
  simp only [Packet.push_front, hdata', lengthBytes_length]
  by_cases hlast : p.iFront-21 < 2
  · rw [if_pos hlast]
    exact Or.inr ⟨by omega, _, rfl⟩
  · rw [if_neg hlast]
    exact Or.inl ⟨by omega, rfl⟩

/-! ## Parsing -/

theorem flag_read (b : Bool) : decide (b.toNat%2^1 ≠ 0) = b := by
  cases b <;> rfl

theorem decode_header_written {m : Memory} {h : Header} (hlegal : Legal h)
    (hm : Stored m 0 (headerBytes h)) : decode_header m = h := by
  have hahead := IBits.ahead_stored hm 21
  rw [headerBytes_bits] at hahead
  simp only [headerFields, fieldBits, List.flatMap_cons, List.flatMap_nil] at hahead
  rcases IBits.read_masked hahead (by decide) with ⟨hdts, h₁⟩
  rcases IBits.read_masked h₁ (by decide) with ⟨hinc, h₂⟩
  rcases IBits.read_masked h₂ (by decide) with ⟨hunit, h₃⟩
  rcases IBits.read_masked h₃ (by decide) with ⟨hframe, h₄⟩
  rcases IBits.read_masked h₄ (by decide) with ⟨hsub, h₅⟩
  rcases IBits.read_masked h₅ (by decide) with ⟨hcodec, h₆⟩
  rcases IBits.read_masked h₆ (by decide) with ⟨htype, h₇⟩
  rcases IBits.read_masked h₇ (by decide) with ⟨hcontent, h₈⟩
  rcases IBits.read_masked h₈ (by decide) with ⟨hmux, h₉⟩
  rcases IBits.read_masked h₉ (by decide) with ⟨hkind, h₁₀⟩
  rcases IBits.read_masked h₁₀ (by decide) with ⟨hstart, h₁₁⟩
  rcases IBits.read_masked h₁₁ (by decide) with ⟨hend, h₁₂⟩
  rcases IBits.read_masked h₁₂ (by decide) with ⟨hkey, -⟩
  have hsmall : int32 (uint32 h.subframenumber%2^8 : ℕ) = h.subframenumber := by
    have hrange := hlegal.subframenumber
    have hnat : uint32 h.subframenumber%2^8 = h.subframenumber.toNat := by
      rw [uint32]
      omega
    rw [hnat, Int.toNat_of_nonneg hrange.1, int32_of_range _ (by omega) (by omega)]
  have hbound : h.codec%2^16 = h.codec ∧ h.type%2^2 = h.type ∧ h.content%2^2 = h.content ∧
      h.mux%2^4 = h.mux ∧ h.frame%2^5 = h.frame := by
    have h₁ := hlegal.codec
    have h₂ := hlegal.type
    have h₃ := hlegal.content
    have h₄ := hlegal.mux
    have h₅ := hlegal.frame
    omega
  rw [decode_header]
  simp only [hdts, hinc, hunit, hframe, hsub, hcodec, htype, hcontent, hmux, hkind, hstart, hend,
    hkey, flag_read, hsmall, hbound, int32_uint32 hlegal.dts, int32_uint32 hlegal.inc,
    int32_uint32 hlegal.unitnumber, int32_uint32 hlegal.framenumber]

theorem decode_length_written {m : Memory} {n : ℕ} (hm : Stored m 0 (lengthBytes n)) :
    decode_length m = n%2^16 := by
  have hahead := IBits.ahead_stored hm 2
  rw [lengthBytes_bits, ← List.append_nil (ofNat 16 n)] at hahead
  exact (IBits.read_masked hahead (by decide)).1

/-! ## Streams -/

section
variable {r : TCPReceiver} {p : Packet} {rest : Bytes}

/-- The receiver once the first message of the stream is in its buffer. -/
def loaded (r : TCPReceiver) (p : Packet) (rest : Bytes) : TCPReceiver :=
  let stream := message p ++ rest
  let iSize := (21+p.bytes.length)%2^16
  { r with pBuffer := store (store r.pBuffer 0 (stream.take 2)) 0 ((stream.drop 2).take iSize) }

/-- What the loop does with a message: the length may be too small, but never too large. -/
theorem receiveLoop_message (fuel : ℕ) :
    receiveLoop (fuel+1) r (message p ++ rest) =
      match parse (loaded r p rest) ((21+p.bytes.length)%2^16) with
      | .error e => ([], some e)
      | .ok (pPckt, r) =>
        let later := receiveLoop fuel r ((message p ++ rest).drop (2+(21+p.bytes.length)%2^16))
        (pPckt::later.1, later.2) := by
  have hlength : (message p ++ rest).length = 23+p.bytes.length+rest.length := by
    simp only [message, List.length_append, lengthBytes_length, headerBytes_length]
    omega
  have htake : (message p ++ rest).take 2 = lengthBytes (21+p.bytes.length) := by
    rw [message, List.append_assoc, List.take_left' (lengthBytes_length _)]
  have hsize : decode_length (store r.pBuffer 0 ((message p ++ rest).take 2)) =
      (21+p.bytes.length)%2^16 := by
    rw [htake]
    exact decode_length_written (stored_store _ _ _)
  have hmod := Nat.mod_lt (21+p.bytes.length) (show 0 < 2^16 by decide)
  have hle := Nat.mod_le (21+p.bytes.length) (2^16)
  rw [receiveLoop, if_neg (by omega)]
  simp only [hsize]
  rw [if_neg (by
    rw [bufferSize]
    omega), if_neg (by
    rw [List.length_drop, hlength]
    omega)]
  rfl

theorem parse_loaded (r : TCPReceiver) (rest : Bytes) (hlegal : Legal p.toHeader)
    (hsize : 21 ≤ (21+p.bytes.length)%2^16) :
    ∃ r', parse (loaded r p rest) ((21+p.bytes.length)%2^16) =
      .ok (decode_additional r p.toHeader
        ((p.bytes ++ rest).take ((21+p.bytes.length)%2^16-21)), r') := by
  generalize hL : (21+p.bytes.length)%2^16 = iSize at hsize ⊢
  have hle : iSize-21 ≤ (p.bytes ++ rest).length := by
    have := Nat.mod_le (21+p.bytes.length) (2^16)
    rw [List.length_append]
    omega
  have hdata : ((message p ++ rest).drop 2).take iSize =
      headerBytes p.toHeader ++ (p.bytes ++ rest).take (iSize-21) := by
    rw [message, List.append_assoc, List.drop_left' (lengthBytes_length _), List.append_assoc,
      List.take_append, headerBytes_length,
      List.take_of_length_le (by rw [headerBytes_length]; exact hsize)]
  have hstored : Stored (loaded r p rest).pBuffer 0
      (headerBytes p.toHeader ++ (p.bytes ++ rest).take (iSize-21)) := by
    rw [loaded]
    simp only [hL, hdata]
    exact stored_store _ _ _
  rcases stored_append.mp hstored with ⟨hheader, hpayload⟩
  have hload : load (loaded r p rest).pBuffer 21 (iSize-21) =
      (p.bytes ++ rest).take (iSize-21) := by
    have hlength : ((p.bytes ++ rest).take (iSize-21)).length = iSize-21 := by
      rw [List.length_take, Nat.min_eq_left hle]
    rw [Nat.zero_add, headerBytes_length, Stored, hlength] at hpayload
    exact hpayload
  rw [parse, if_neg (by omega), decode_header_written hlegal hheader, hload]
  exact ⟨_, rfl⟩

theorem parse_short (r : TCPReceiver) {iSize : ℕ} (hsize : iSize < 21) : ∃ e, parse r iSize = .error e := by
  rw [parse, if_pos hsize]
  exact ⟨_, rfl⟩

end

/-! ## Round trip -/

def Delivered (p : Packet) (q : Routed) : Prop := q.toHeader = p.toHeader ∧ q.bytes = p.bytes

/-- All packets are taken, and they come out again in order. -/
def RoundTrips (r : TCPReceiver) (ps : List Packet) : Prop :=
  ∃ stream, transmit true ps = .ok stream ∧
    List.Forall₂ Delivered ps (mainThreadA r stream).1

def Transmittable (p : Packet) : Prop := 23 ≤ p.iFront ∧ p.bytes.length+21 < 2^16

theorem receiveLoop_fits (fuel : ℕ) (r : TCPReceiver) (rest : Bytes) {p : Packet}
    (hlegal : Legal p.toHeader) (hsize : p.bytes.length+21 < 2^16) :
    ∃ q r', Delivered p q ∧ (receiveLoop (fuel+1) r (message p ++ rest)).1 =
      q::(receiveLoop fuel r' rest).1 := by
  have hmod : (21+p.bytes.length)%2^16 = 21+p.bytes.length := Nat.mod_eq_of_lt (by omega)
  rcases parse_loaded r rest hlegal (by omega) with ⟨r', hparse⟩
  have htake : (p.bytes ++ rest).take (21+p.bytes.length-21) = p.bytes := by
    rw [Nat.add_sub_cancel_left, List.take_left' rfl]
  have hdrop : (message p ++ rest).drop (2+(21+p.bytes.length)) = rest := by
    apply List.drop_left'
    simp only [message, List.length_append, lengthBytes_length, headerBytes_length]
  rw [receiveLoop_message, hparse]
  simp only [hmod, htake, hdrop]
  exact ⟨_, r', ⟨rfl, rfl⟩, rfl⟩

/-- When the length wraps around, what is parsed is shorter than the packet. -/
theorem receiveLoop_wraps (fuel : ℕ) {r : TCPReceiver} {p : Packet} {rest : Bytes}
    (hlegal : Legal p.toHeader) (hsize : 2^16 ≤ p.bytes.length+21) {q : Routed} {qs : List Routed}
    (hreceived : (receiveLoop fuel r (message p ++ rest)).1 = q::qs) : q.bytes ≠ p.bytes := by
  cases fuel with
  | zero => cases hreceived
  | succ fuel =>
    rw [receiveLoop_message] at hreceived
    by_cases h21 : (21+p.bytes.length)%2^16 < 21
    · rcases parse_short (loaded r p rest) h21 with ⟨e, hparse⟩
      rw [hparse] at hreceived
      cases hreceived
    · rcases parse_loaded r rest hlegal (Nat.le_of_not_lt h21) with ⟨r', hparse⟩
      rw [hparse] at hreceived
      obtain rfl := (List.cons.inj hreceived).1
      intro hbytes
      have hlength := congrArg List.length hbytes
      rw [decode_additional, List.length_take] at hlength
      omega

theorem roundTrips_of_transmittable (ps : List Packet) (hlegal : ∀ p ∈ ps, Legal p.toHeader)
    (hps : ∀ p ∈ ps, Transmittable p) : ∃ stream, transmit true ps = .ok stream ∧
      ps.length ≤ stream.length ∧ ∀ fuel r, ps.length ≤ fuel → List.Forall₂ Delivered ps (receiveLoop fuel r stream).1 := by
  induction ps with
  | nil =>
    refine ⟨[], rfl, Nat.le_refl 0, ?_⟩
    intro fuel r _
    cases fuel <;> exact List.Forall₂.nil
  | cons p ps ih =>
    rcases ih (fun p hp => hlegal p (List.mem_cons_of_mem _ hp))
      (fun p hp => hps p (List.mem_cons_of_mem _ hp)) with ⟨stream, htransmit, hlength, hreceive⟩
    rcases hps p (List.mem_cons_self ..) with ⟨hfront, hsize⟩
    rcases receive_eq p with ⟨-, hp⟩ | ⟨hshort, -⟩
    · refine ⟨message p ++ stream, ?_, ?_, ?_⟩
      · rw [transmit, hp, htransmit]
        rfl
      · simp only [message, List.length_append, lengthBytes_length, List.length_cons]
        omega
      · intro fuel r hfuel
        cases fuel with
        | zero => cases hfuel
        | succ fuel =>
          rcases receiveLoop_fits fuel r stream
            (hlegal p (List.mem_cons_self ..)) hsize with ⟨q, r', hq, hloop⟩
          rw [hloop]
          exact List.Forall₂.cons hq (hreceive fuel r' (Nat.le_of_succ_le_succ hfuel))
    · omega

theorem transmittable_of_roundTrips (ps : List Packet) (hlegal : ∀ p ∈ ps, Legal p.toHeader)
    {stream : Bytes} (htransmit : transmit true ps = .ok stream) {fuel : ℕ} {r : TCPReceiver}
    (hreceive : List.Forall₂ Delivered ps (receiveLoop fuel r stream).1) :
    ∀ p ∈ ps, Transmittable p := by
  induction ps generalizing stream fuel r with
  | nil => simp
  | cons p ps ih =>
    rcases receive_eq p with ⟨hfront, hp⟩ | ⟨-, e, he⟩
    · cases hrest : transmit true ps with
      | error e =>
        rw [transmit, hp, hrest] at htransmit
        cases htransmit
      | ok rest =>
        rw [transmit, hp, hrest] at htransmit
        obtain rfl := Except.ok.inj htransmit
        have hp' := hlegal p (List.mem_cons_self ..)
        by_cases hsize : p.bytes.length+21 < 2^16
        · cases fuel with
          | zero => cases hreceive
          | succ fuel =>
            rcases receiveLoop_fits fuel r rest hp' hsize with ⟨q, r', hq, hloop⟩
            rw [hloop] at hreceive
            have hall := ih (fun p hp => hlegal p (List.mem_cons_of_mem _ hp)) hrest
              (List.forall₂_cons.mp hreceive).2
            intro p₁ hp₁
            rcases List.mem_cons.mp hp₁ with rfl | hp₁
            · exact ⟨hfront, hsize⟩
            · exact hall p₁ hp₁
        · cases hqs : (receiveLoop fuel r (message p ++ rest)).1 with
          | nil =>
            rw [hqs] at hreceive
            cases hreceive
          | cons q qs =>
            rw [hqs] at hreceive
            have hq := (List.forall₂_cons.mp hreceive).1
            exact absurd hq.2 (receiveLoop_wraps fuel hp' (by omega) hqs)
    · rw [transmit, he] at htransmit
      cases htransmit

/-- Packets come through exactly when there is room for both headers in front of each of them and
none is longer than its length can say. -/
theorem tcp_round_trip_iff (r : TCPReceiver) (ps : List Packet)
    (hlegal : ∀ p ∈ ps, Legal p.toHeader) : RoundTrips r ps ↔ ∀ p ∈ ps, Transmittable p := by
  constructor
  · rintro ⟨stream, htransmit, hreceive⟩
    exact transmittable_of_roundTrips ps hlegal htransmit hreceive
  · intro hps
    rcases roundTrips_of_transmittable ps hlegal hps with ⟨stream, htransmit, hlength, hreceive⟩
    exact ⟨stream, htransmit, hreceive stream.length r hlength⟩

def emptyReceiver : TCPReceiver := ⟨zeroed, 0, 100, 200, 0, 0⟩

/-- The first slice of a stream with `n` bytes of data. -/
def slicePacket (n : ℕ) : Packet where
  dts := 3600
  inc := 3600
  unitnumber := 0
  framenumber := 0
  subframenumber := 0
  codec := 0x80
  type := 0
  content := 1
  mux := 0
  frame := 1
  framestart := true
  frameend := true
  key := true
  iFront := 32
  bytes := List.replicate n 0x41

theorem slicePacket_legal (n : ℕ) : Legal (slicePacket n).toHeader := by
  constructor <;> simp [slicePacket]

theorem tcp_round_trip_iff_example : RoundTrips emptyReceiver [slicePacket 3] := by
  apply (tcp_round_trip_iff emptyReceiver [slicePacket 3] ?_).mpr
  · simp [Transmittable, slicePacket]
  · simp [slicePacket_legal]

theorem slicePacket_wraps {n : ℕ} (hn : 2^16 ≤ 21+n) :
    ¬ RoundTrips emptyReceiver [slicePacket n] := by
  rintro ⟨stream, htransmit, hreceive⟩
  have hlegal : ∀ p ∈ [slicePacket n], Legal p.toHeader := by simp [slicePacket_legal]
  have hsize := (transmittable_of_roundTrips _ hlegal htransmit hreceive _
    (List.mem_singleton.mpr rfl)).2
  rw [slicePacket, List.length_replicate] at hsize
  omega

/-- A packet of 65515 bytes gets the length 0. -/
theorem length_wraps : ¬ RoundTrips emptyReceiver [slicePacket 65515] :=
  slicePacket_wraps (by norm_num)

end Sirannon.TCP
