import Sirannon.Packetizer

/-!
# AMR-WB+ packetizer

Frames of one internal frequency are gathered until the next one does not fit.
A payload is a header with the frequency and the position of the first frame, a
table of contents with one entry for each frame, and the data of the frames.
-/

set_option autoImplicit false

namespace Sirannon.AMRWBP
open MachineInt BitString Bits ByteMemory Media Packetization StateError

/-- The table of the reader. -/
def dSize : List ℕ := [
  17, 23, 32, 36, 40, 46, 50, 58,
  60, 5, 34, 45, 60, 60, 0, 0,
  26, 30, 34, 38, 42, 48, 52, 60,
  31, 32, 35, 36, 38, 40, 41, 43,
  45, 46, 48, 50, 51, 53, 56, 58,
  60, 64, 65, 67, 72, 74, 75, 80]

/-! ## Packetizer -/

structure AMR_WBP_Packetizer extends Packetizer where
  vBuffer : List MediaPacket
  iPack : ℕ
  iInternalSampleRate : ℤ

def AMR_WBP_Packetizer.init (mtu : ℤ) : AMR_WBP_Packetizer where
  toPacketizer := Packetizer.init mtu
  vBuffer := []
  iPack := 1
  iInternalSampleRate := -1

abbrev Packing := EStateM SirannonException AMR_WBP_Packetizer

/-- `data()[i]` -/
def byteAt (pPckt : MediaPacket) (i : ℕ) : Except SirannonException UInt8 :=
  match pPckt.bytes[i]? with
  | some b => .ok b
  | none => .error (undefinedBehaviour "byte behind the data of a packet")

def writeTOC (oPayload : OBits) : List MediaPacket → Except SirannonException OBits
  | [] => .ok oPayload
  | pPckt::rest => do
    let iType ← byteAt pPckt 0
    let oPayload ← oPayload.write 1 (if rest = [] then 0 else 1)
    let oPayload ← oPayload.write 7 (iType &&& 0x7F).toNat
    let oPayload ← oPayload.write 8 1
    writeTOC oPayload rest

def writeData (oPayload : OBits) : List MediaPacket → Except SirannonException OBits
  | [] => .ok oPayload
  | pPckt::rest =>
    if pPckt.size < 2 then .error (undefinedBehaviour "size of the data behind the header")
    else if oPayload.iBytes < oPayload.size+(pPckt.size-2) then
      .error (undefinedBehaviour "copy behind the end of the packet")
    else writeData (oPayload.writeBuffer (pPckt.bytes.drop 2)) rest

def payload (iMTU : ℕ) (front : MediaPacket) (vBuffer : List MediaPacket) :
    Except SirannonException (List UInt8) := do
  let iHeader ← byteAt front 1
  let oHeader := IBits.new (store zeroed 0 [iHeader]) 1
  let iTFI := oHeader.read 2
  let iUnused := iTFI.2.read 1
  let iISF := iUnused.2.read 5
  let oPayload ← (OBits.new iMTU).write 5 iISF.1
  let oPayload ← oPayload.write 2 iTFI.1
  let oPayload ← oPayload.write 1 0
  let oPayload ← writeTOC oPayload vBuffer
  let oPayload ← writeData oPayload vBuffer
  return oPayload.data

def AMR_WBP_Packetizer.send (s : AMR_WBP_Packetizer) (pPckt : MediaPacket) : AMR_WBP_Packetizer :=
  { s with toPacketizer := s.toPacketizer.number { pPckt with mux := .RTP } }

def AMR_WBP_Packetizer.cleared (s : AMR_WBP_Packetizer) : AMR_WBP_Packetizer :=
  { s with vBuffer := [], iPack := 1 }

def pack : Packing Unit := do
  let s ← get
  match s.vBuffer with
  | [] => pure ()
  | front::rest => do
    let oPayload ← ofExcept (payload s.iMTU.toNat front (front::rest))
    let pPacked := (MediaPacket.new .media .audio (uint32 s.iMTU)).set_metadata front
    let pPacked ← ofExcept
      ({ pPacked with framestart := true, frameend := true }.push_back oPayload)
    modify fun s => (s.send pPacked).cleared

def AMR_WBP_Packetizer.store (s : AMR_WBP_Packetizer) (iNext : ℤ) (pPckt : MediaPacket) :
    AMR_WBP_Packetizer :=
  { s with
    iInternalSampleRate := iNext
    iPack := uint32 (s.iPack+pPckt.size)
    vBuffer := s.vBuffer++[pPckt] }

def receive (pPckt : MediaPacket) : Packing Unit :=
  if pPckt.codec ≠ .awbp then throw (typeError "Invalid codec, expected(AMR-WB+)")
  else if pPckt.mux ≠ .ES then throw (typeError "Invalid packetization, expected(ES)")
  else do
    let b ← ofExcept (byteAt pPckt 1)
    let iNext : ℤ := (b &&& 0x1F).toNat
    modify fun s =>
      { s with iInternalSampleRate := if s.iInternalSampleRate < 0 then iNext
          else s.iInternalSampleRate }
    let s ← get
    if iNext ≠ s.iInternalSampleRate then pack
    else if uint32 s.iMTU < uint32 (s.iPack+pPckt.size) then pack
    else pure ()
    modify fun s => s.store iNext pPckt

def receive_reset (pPckt : MediaPacket) : Packing Unit := do
  pack
  modify fun s => s.send pPckt

/-- Frames and the reset or end packet behind them. -/
structure Segment where
  frames : List MediaPacket
  pEnd : MediaPacket

def packetize : List Segment → Packing Unit
  | [] => pure ()
  | seg::segs => do
    forM seg.frames receive
    receive_reset seg.pEnd
    packetize segs

/-! ## Payloads -/

/-- What a payload says about its frames: their frequency index, the position of the first one, and
type and data of each. -/
structure Payload where
  iISF : ℕ
  iTFI : ℕ
  frames : List (ℕ × List UInt8)
  deriving DecidableEq, Repr

/-- The table of contents ends with the first entry without the continuation bit; each entry stands
for one frame. -/
def parseTOC : List UInt8 → Option (List ℕ × List UInt8)
  | b::n::rest =>
    if n ≠ 1 then none
    else if b.toNat < 128 then some ([b.toNat], rest)
    else (parseTOC rest).map fun r => ((b.toNat-128)::r.1, r.2)
  | _ => none

/-- The data of the frames of these types, with nothing behind it. -/
def parseData : List ℕ → List UInt8 → Option (List (ℕ × List UInt8))
  | [], [] => some []
  | [], _::_ => none
  | iType::types, bytes =>
    match dSize[iType]? with
    | none => none
    | some n =>
      if bytes.length < n then none
      else (parseData types (bytes.drop n)).map fun fs => (iType, bytes.take n)::fs

def parse : List UInt8 → Option Payload
  | [] => none
  | h::rest =>
    if h.toNat%2 ≠ 0 then none
    else do
      let toc ← parseTOC rest
      let frames ← parseData toc.1 toc.2
      return ⟨h.toNat/8, h.toNat/2%4, frames⟩

/-! ## Frames -/

def frameType (p : MediaPacket) : ℕ := (p.bytes.headD 0 &&& 0x7F).toNat

def header (p : MediaPacket) : UInt8 := p.bytes.getD 1 0

def frequency (p : MediaPacket) : ℕ := (header p).toNat%2^5

def position (p : MediaPacket) : ℕ := (header p).toNat/2^6

/-- A header of two bytes and the data that its type asks for. -/
structure Frame (p : MediaPacket) : Prop where
  type : p.type = .media
  codec : p.codec = .awbp
  mux : p.mux = .ES
  known : frameType p ≤ 47
  size : p.size = 2+dSize.getD (frameType p) 0

/-- A packet for the frames `g`. -/
structure Carries (iMTU : ℤ) (g : List MediaPacket) (p : MediaPacket) : Prop where
  type : p.type = .media
  size : (p.size : ℤ) ≤ iMTU
  payload : ∃ front, g.head? = some front ∧ parse p.bytes =
    some ⟨frequency front, position front, g.map fun f => (frameType f, f.bytes.drop 2)⟩ ∧
    ∀ f ∈ g, frequency f = frequency front

/-- The frames of a segment leave in packets of their own, in order, and then the packet behind
them. -/
def Leaves (iMTU : ℤ) (seg : Segment) (ps : List MediaPacket) : Prop :=
  ∃ groups packets pEnd, groups.flatten = seg.frames ∧
    List.Forall₂ (Carries iMTU) groups packets ∧ ps = packets++[pEnd] ∧
    pEnd.type = seg.pEnd.type ∧ pEnd.bytes = seg.pEnd.bytes

/-! ## Writing -/

def tocBytes : List MediaPacket → List UInt8
  | [] => []
  | p::rest => UInt8.ofNat ((if rest = [] then 0 else 128)+frameType p)::1::tocBytes rest

def dataBytes (g : List MediaPacket) : List UInt8 := g.flatMap fun p => p.bytes.drop 2

/-- What `iPack` counts. -/
def budget (g : List MediaPacket) : ℕ := 1+(g.map fun p => p.size).sum

section
variable {p : MediaPacket} {g : List MediaPacket} {o : OBits} {bs : List Bool}

theorem write_ok {iBits : ℕ} (h : o.Holds bs) (iVal : ℕ) (hpos : 0 < iBits)
    (hfit : bs.length+iBits ≤ 8*o.iBytes) : ∃ o', o.write iBits iVal = .ok o' ∧
      o'.Holds (bs++ofNat iBits iVal) ∧ o'.iBytes = o.iBytes := by
  have hwrite := OBits.write_fits h iVal hpos
  rwa [Fits, if_pos hfit] at hwrite

theorem byteAt_ok {i : ℕ} (h : i < p.size) : byteAt p i = .ok (p.bytes.getD i 0) := by
  rw [byteAt, List.getElem?_eq_getElem h, List.getD_eq_getElem?_getD, List.getElem?_eq_getElem h]
  rfl

theorem frame_header (h : Frame p) : 2 ≤ p.size := by
  rw [h.size]
  omega

theorem frameType_lt (p : MediaPacket) : frameType p < 128 := by
  rw [frameType, UInt8.toNat_and]
  exact Nat.lt_succ_of_le Nat.and_le_right

theorem tocBytes_length (g : List MediaPacket) : (tocBytes g).length = 2*g.length := by
  induction g with
  | nil => rfl
  | cons p g ih =>
    rw [tocBytes, List.length_cons, List.length_cons, ih, List.length_cons]
    omega

theorem entry_bits (c t : ℕ) (hc : c < 2) (ht : t < 128) :
    ofNat 1 c++(ofNat 7 t++ofNat 8 1) = ofBytes [UInt8.ofNat (128*c+t), 1] := by
  have hfirst : ofNat 8 (128*c+t) = ofNat 1 c++ofNat 7 t := by
    rw [show 8 = 1+7 by rfl, ofNat_add]
    congr 1
    · congr 1
      omega
    · apply ofNat_congr
      omega
  rw [ofBytes_cons, ofBytes_cons, ofBytes_nil, UInt8.toNat_ofNat', Nat.mod_eq_of_lt (by omega),
    hfirst, List.append_nil, List.append_assoc]
  rfl

theorem writeTOC_ok (hg : ∀ p ∈ g, Frame p) (h : o.Holds bs)
    (hfit : bs.length+8*(2*g.length) ≤ 8*o.iBytes) : ∃ o', writeTOC o g = .ok o' ∧
      o'.Holds (bs++ofBytes (tocBytes g)) ∧ o'.iBytes = o.iBytes := by
  induction g generalizing o bs with
  | nil => exact ⟨o, rfl, by simpa [tocBytes] using h, rfl⟩
  | cons p g ih =>
    have hp := frame_header (hg p List.mem_cons_self)
    have hrest := fun q hq => hg q (List.mem_cons_of_mem p hq)
    rw [List.length_cons] at hfit
    rcases write_ok h (if g = [] then 0 else 1) Nat.one_pos (by omega) with
      ⟨o₁, hok₁, h₁, hbytes₁⟩
    rcases write_ok h₁ (frameType p) (show 0 < 7 by decide) (by
      rw [hbytes₁, List.length_append, ofNat_length]
      omega) with ⟨o₂, hok₂, h₂, hbytes₂⟩
    rcases write_ok h₂ 1 (show 0 < 8 by decide) (by
      rw [hbytes₂, hbytes₁, List.length_append, List.length_append, ofNat_length, ofNat_length]
      omega) with ⟨o₃, hok₃, h₃, hbytes₃⟩
    have hentry := entry_bits (if g = [] then 0 else 1) (frameType p) (by split <;> decide)
      (frameType_lt p)
    have hvalue : (if g = [] then 0 else 128) = 128*(if g = [] then 0 else 1) := by
      split <;> rfl
    rw [List.append_assoc, List.append_assoc, hentry] at h₃
    rcases ih hrest h₃ (by
      rw [hbytes₃, hbytes₂, hbytes₁, List.length_append, ofBytes_length]
      simp only [List.length_cons, List.length_nil]
      omega) with ⟨o', hok, ho, hbytes⟩
    refine ⟨o', ?_, ?_, by rw [hbytes, hbytes₃, hbytes₂, hbytes₁]⟩
    · rw [writeTOC, byteAt_ok (by omega)]
      simp only [bind, Except.bind, hok₁]
      rw [← List.headD_eq_getD, ← frameType, hok₂]
      simp only [hok₃, hok]
    · rw [tocBytes, hvalue]
      rw [List.append_assoc, ← ofBytes_append] at ho
      exact ho

theorem writeData_ok (hg : ∀ p ∈ g, Frame p) {bytes : List UInt8} (h : o.Holds (ofBytes bytes))
    (hfit : bytes.length+(dataBytes g).length ≤ o.iBytes) : ∃ o', writeData o g = .ok o' ∧
      o'.data = bytes++dataBytes g := by
  induction g generalizing o bytes with
  | nil => exact ⟨o, rfl, by rw [OBits.data_of_holds h, dataBytes, List.flatMap_nil,
      List.append_nil]⟩
  | cons p g ih =>
    have hp := frame_header (hg p List.mem_cons_self)
    have hrest := fun q hq => hg q (List.mem_cons_of_mem p hq)
    have hcons : dataBytes (p::g) = p.bytes.drop 2++dataBytes g := List.flatMap_cons
    have hsize : o.size = bytes.length := by rw [← OBits.data_length, OBits.data_of_holds h]
    have hnext := OBits.writeBuffer_holds (p.bytes.drop 2) h (by
      rw [ofBytes_length]
      omega)
    rw [hcons, List.length_append] at hfit
    have hdrop : (p.bytes.drop 2).length = p.size-2 := by rw [List.length_drop]; rfl
    rw [← ofBytes_append] at hnext
    rcases ih hrest hnext (by
      show (bytes++p.bytes.drop 2).length+(dataBytes g).length ≤ o.iBytes
      rw [List.length_append]
      omega) with ⟨o', hok, hdata⟩
    refine ⟨o', ?_, ?_⟩
    · rw [writeData, if_neg (by omega), if_neg (by omega), hok]
    · rw [hdata, hcons, List.append_assoc]

theorem dataBytes_length (hg : ∀ p ∈ g, Frame p) :
    budget g = 1+2*g.length+(dataBytes g).length := by
  induction g with
  | nil => rfl
  | cons p g ih =>
    have hp := frame_header (hg p List.mem_cons_self)
    have hrest := ih fun q hq => hg q (List.mem_cons_of_mem p hq)
    have hcons : dataBytes (p::g) = p.bytes.drop 2++dataBytes g := List.flatMap_cons
    have hdrop : (p.bytes.drop 2).length = p.size-2 := by rw [List.length_drop]; rfl
    rw [budget] at hrest ⊢
    rw [hcons, List.length_append, List.map_cons, List.sum_cons, List.length_cons]
    omega

/-- The two fields of the header byte. -/
theorem header_fields (b : UInt8) :
    let oHeader := IBits.new (store zeroed 0 [b]) 1
    let iTFI := oHeader.read 2
    let iUnused := iTFI.2.read 1
    iTFI.1 = b.toNat/2^6 ∧ (iUnused.2.read 5).1 = b.toNat%2^5 := by
  have hb := b.toNat_lt
  have hbits : ofBytes [b] = ofNat 2 (b.toNat/2^6)++(ofNat 1 (b.toNat/2^5%2)++
      ofNat 5 (b.toNat%2^5)) := by
    rw [ofBytes_cons, ofBytes_nil, List.append_nil, show 8 = 2+(1+5) by rfl, ofNat_add, ofNat_add,
      ofNat_mod]
    congr 2
    apply ofNat_congr
    omega
  have hstart := IBits.ahead_stored (stored_store zeroed 0 [b]) 1
  rw [hbits] at hstart
  rcases IBits.read_field hstart (by decide) (by omega) with ⟨hval₁, h₁⟩
  rcases IBits.read_field h₁ (by decide) (by omega) with ⟨-, h₂⟩
  rw [← List.append_nil (ofNat 5 _)] at h₂
  rcases IBits.read_field h₂ (by decide) (by omega) with ⟨hval₃, -⟩
  exact ⟨hval₁, hval₃⟩

def payloadBytes (front : MediaPacket) (g : List MediaPacket) : List UInt8 :=
  UInt8.ofNat (8*frequency front+2*position front)::(tocBytes g++dataBytes g)

theorem payload_ok {front : MediaPacket} {iMTU : ℕ} (hfront : Frame front)
    (hg : ∀ p ∈ g, Frame p) (hfit : budget g ≤ iMTU) :
    payload iMTU front g = .ok (payloadBytes front g) := by
  have hbudget := dataBytes_length hg
  have hsize := frame_header hfront
  have hposition : position front < 4 := by
    have hb := (header front).toNat_lt
    rw [position]
    omega
  have hfrequency : frequency front < 32 := Nat.mod_lt _ (by decide)
  rcases header_fields (header front) with ⟨hTFI, hISF⟩
  rcases write_ok (OBits.holds_new iMTU) (frequency front) (show 0 < 5 by decide) (by
    show 0+5 ≤ 8*iMTU
    omega) with ⟨o₁, hok₁, h₁, hbytes₁⟩
  have hbytes₁ : o₁.iBytes = iMTU := hbytes₁
  rcases write_ok h₁ (position front) (show 0 < 2 by decide) (by
    rw [hbytes₁, List.nil_append, ofNat_length]
    omega) with ⟨o₂, hok₂, h₂, hbytes₂⟩
  rcases write_ok h₂ 0 (show 0 < 1 by decide) (by
    rw [hbytes₂, hbytes₁, List.nil_append, List.length_append, ofNat_length, ofNat_length]
    omega) with ⟨o₃, hok₃, h₃, hbytes₃⟩
  have hhead : [] ++ ofNat 5 (frequency front)++ofNat 2 (position front)++ofNat 1 0 =
      ofBytes [UInt8.ofNat (8*frequency front+2*position front)] := by
    rw [ofBytes_cons, ofBytes_nil, List.append_nil, UInt8.toNat_ofNat',
      Nat.mod_eq_of_lt (by omega), show 8 = 5+(2+1) by rfl, ofNat_add, ofNat_add, List.nil_append,
      List.append_assoc]
    congr 1
    · congr 1
      omega
    · congr 1
      · apply ofNat_congr
        omega
      · apply ofNat_congr
        omega
  rw [hhead] at h₃
  rcases writeTOC_ok hg h₃ (by
    rw [hbytes₃, hbytes₂, hbytes₁, ofBytes_length]
    simp only [List.length_cons, List.length_nil]
    omega) with ⟨o₄, hok₄, h₄, hbytes₄⟩
  rw [← ofBytes_append] at h₄
  rcases writeData_ok hg h₄ (by
    rw [hbytes₄, hbytes₃, hbytes₂, hbytes₁, List.length_append, tocBytes_length]
    simp only [List.length_cons, List.length_nil]
    omega) with ⟨o₅, hok₅, hdata⟩
  rw [payload, byteAt_ok (by omega)]
  simp only [bind, Except.bind]
  rw [← header, hISF, hTFI, ← frequency, ← position, hok₁]
  simp only [hok₂, hok₃, hok₄, hok₅, pure, Except.pure]
  rw [hdata, payloadBytes, List.append_assoc, List.singleton_append]

theorem payloadBytes_length (hg : ∀ p ∈ g, Frame p) (front : MediaPacket) :
    (payloadBytes front g).length = budget g := by
  rw [dataBytes_length hg, payloadBytes, List.length_cons, List.length_append, tocBytes_length]
  omega

/-! ## Parsing -/

theorem parseTOC_ok (hne : g ≠ []) (rest : List UInt8) :
    parseTOC (tocBytes g++rest) = some (g.map frameType, rest) := by
  induction g with
  | nil => exact absurd rfl hne
  | cons p g ih =>
    have hp := frameType_lt p
    rw [tocBytes, List.cons_append, List.cons_append, parseTOC, if_neg (by decide)]
    by_cases hlast : g = []
    · rw [if_pos hlast, Nat.zero_add, UInt8.toNat_ofNat', Nat.mod_eq_of_lt (by omega),
        if_pos (by omega), hlast]
      rfl
    · rw [if_neg hlast, UInt8.toNat_ofNat', Nat.mod_eq_of_lt (by omega), if_neg (by omega),
        ih hlast, Option.map_some, Nat.add_sub_cancel_left, List.map_cons]

theorem parseData_ok (hg : ∀ p ∈ g, Frame p) : parseData (g.map frameType) (dataBytes g) =
    some (g.map fun p => (frameType p, p.bytes.drop 2)) := by
  induction g with
  | nil => rfl
  | cons p g ih =>
    have hp := hg p List.mem_cons_self
    have hknown := hp.known
    have hrest := ih fun q hq => hg q (List.mem_cons_of_mem p hq)
    have hcons : dataBytes (p::g) = p.bytes.drop 2++dataBytes g := List.flatMap_cons
    have hindex : frameType p < dSize.length := Nat.lt_succ_of_le hknown
    have hlength : (p.bytes.drop 2).length = dSize[frameType p] := by
      have hsize := hp.size
      rw [List.getD_eq_getElem _ _ hindex] at hsize
      rw [List.length_drop, ← MediaPacket.size, hsize]
      omega
    rw [List.map_cons, List.map_cons, hcons, parseData, List.getElem?_eq_getElem hindex]
    simp only
    rw [if_neg (by rw [List.length_append]; omega), ← hlength, List.drop_left, List.take_left,
      hrest, Option.map_some]

theorem parse_ok {front : MediaPacket} (hne : g ≠ []) (hg : ∀ p ∈ g, Frame p) :
    parse (payloadBytes front g) = some ⟨frequency front, position front,
      g.map fun p => (frameType p, p.bytes.drop 2)⟩ := by
  have hb := (header front).toNat_lt
  have hposition : position front < 4 := by
    rw [position]
    omega
  have hfrequency : frequency front < 32 := Nat.mod_lt _ (by decide)
  have hmod : (8*frequency front+2*position front)%2^8 = 8*frequency front+2*position front :=
    Nat.mod_eq_of_lt (by omega)
  rw [payloadBytes, parse, UInt8.toNat_ofNat', hmod, if_neg (by omega), parseTOC_ok hne, Option.bind_eq_bind, Option.bind_some]
  simp only
  rw [parseData_ok hg]
  simp only [Option.bind_eq_bind, Option.bind_some, pure]
  congr 2
  · omega
  · omega

end

/-! ## Packets -/

/-- The frames `g` wait in the buffer. -/
structure Gathered (iMTU : ℤ) (s : AMR_WBP_Packetizer) (g : List MediaPacket) : Prop where
  mtu : s.iMTU = iMTU
  buffer : s.vBuffer = g
  pack : s.iPack = budget g
  fits : (budget g : ℤ) ≤ iMTU
  frames : ∀ f ∈ g, Frame f
  rate : ∀ f ∈ g, s.iInternalSampleRate = frequency f

section
variable {iMTU : ℤ} {s : AMR_WBP_Packetizer} {g : List MediaPacket} {f : MediaPacket}

theorem frame_size (h : Frame f) : f.size ≤ 82 := by
  have hknown := h.known
  have hall : ∀ t ≤ 47, dSize.getD t 0 ≤ 80 := by decide
  have htable := hall (frameType f) hknown
  rw [h.size]
  omega

theorem gathered_same (h : Gathered iMTU s g) {f' : MediaPacket} (hf : f ∈ g) (hf' : f' ∈ g) :
    frequency f' = frequency f := by
  have hrate := h.rate f hf
  rw [h.rate f' hf'] at hrate
  exact_mod_cast hrate

/-- Packing empties the buffer into one packet, if there is something in it. -/
theorem pack_run (hlow : 130 ≤ iMTU) (hhigh : iMTU < 2^31) (h : Gathered iMTU s g) :
    ∃ t gs ps, pack.run s = .ok () t ∧ Gathered iMTU t [] ∧ gs.flatten = g ∧
      List.Forall₂ (Carries iMTU) gs ps ∧ t.routed = s.routed++ps := by
  cases g with
  | nil =>
    refine ⟨s, [], [], ?_, h, rfl, List.Forall₂.nil, (List.append_nil _).symm⟩
    rw [pack, run_get_bind, h.buffer]
    rfl
  | cons front rest =>
    have hfront := h.frames front List.mem_cons_self
    have hfits := h.fits
    have hmtu : budget (front::rest) ≤ iMTU.toNat := by omega
    have hpayload := payload_ok hfront h.frames hmtu
    have hlength := payloadBytes_length h.frames front
    have hroom : ((uint32 iMTU : ℕ) : ℤ) = iMTU := uint32_of_bounds (by omega) (by omega)
    let pNew : MediaPacket := { (MediaPacket.new .media .audio (uint32 iMTU)).set_metadata front with
      framestart := true, frameend := true }
    let pPacked := pNew.pushed (payloadBytes front (front::rest))
    have hpush : pNew.push_back (payloadBytes front (front::rest)) = .ok pPacked := push_back_ok (by
      show iBufferSpace+0+(payloadBytes front (front::rest)).length < uint32 iMTU+2*iBufferSpace
      rw [iBufferSpace]
      omega)
    refine ⟨(s.send pPacked).cleared, [front::rest],
      [({ pPacked with mux := .RTP } : MediaPacket).setUnit s.iUnit], ?_, ?_, List.append_nil _,
      List.Forall₂.cons ?_ List.Forall₂.nil, rfl⟩
    · rw [pack, run_get_bind, h.buffer]
      simp only
      rw [h.mtu, run_ofExcept_bind hpayload, run_ofExcept_bind hpush]
      rfl
    · refine ⟨h.mtu, rfl, rfl, ?_, by simp, by simp⟩
      show ((1+0 : ℕ) : ℤ) ≤ iMTU
      omega
    · refine ⟨hfront.type, ?_, front, rfl, ?_, ?_⟩
      · show ((([] : List UInt8)++payloadBytes front (front::rest)).length : ℤ) ≤ iMTU
        rw [List.nil_append, hlength]
        exact hfits
      · show parse ([]++payloadBytes front (front::rest)) = _
        rw [List.nil_append]
        exact parse_ok (List.cons_ne_nil _ _) h.frames
      · intro f hf
        exact gathered_same h List.mem_cons_self hf

/-- A frame is stored behind the frames of its frequency that leave room for it. -/
theorem store_gathered (h : Gathered iMTU s g) (hhigh : iMTU < 2^31) (hf : Frame f)
    (hfits : (budget (g++[f]) : ℤ) ≤ iMTU) (hrate : ∀ q ∈ g, frequency q = frequency f) :
    Gathered iMTU (s.store (frequency f) f) (g++[f]) := by
  have hbudget : budget (g++[f]) = budget g+f.size := by simp [budget, Nat.add_assoc]
  constructor
  · exact h.mtu
  · show s.vBuffer++[f] = _
    rw [h.buffer]
  · show uint32 (s.iPack+f.size) = _
    rw [h.pack, hbudget, uint32_add]
    omega
  · exact hfits
  · intro q hq
    rcases List.mem_append.mp hq with hq | hq
    · exact h.frames q hq
    · rw [List.mem_singleton.mp hq]
      exact hf
  · intro q hq
    show ((frequency f : ℕ) : ℤ) = _
    rcases List.mem_append.mp hq with hq | hq
    · rw [hrate q hq]
    · rw [List.mem_singleton.mp hq]

theorem next_rate (h : Frame f) : byteAt f 1 = .ok (header f) ∧
    ((header f &&& 0x1F).toNat : ℤ) = frequency f := by
  have hsize := frame_header h
  refine ⟨byteAt_ok (by omega), ?_⟩
  rw [UInt8.toNat_and, frequency]
  exact_mod_cast Nat.and_two_pow_sub_one_eq_mod (header f).toNat 5

/-- Setting the rate of an empty buffer changes nothing else. -/
theorem gathered_rate (h : Gathered iMTU s g) (iRate : ℤ) (hf : ∀ q ∈ g, iRate = frequency q) :
    Gathered iMTU { s with iInternalSampleRate := iRate } g :=
  ⟨h.mtu, h.buffer, h.pack, h.fits, h.frames, hf⟩

theorem receive_run (hlow : 130 ≤ iMTU) (hhigh : iMTU < 2^31) (h : Gathered iMTU s g)
    (hf : Frame f) : ∃ t g' gs ps, (receive f).run s = .ok () t ∧ Gathered iMTU t g' ∧
      gs.flatten++g' = g++[f] ∧ List.Forall₂ (Carries iMTU) gs ps ∧ t.routed = s.routed++ps := by
  rcases next_rate hf with ⟨hbyte, hnext⟩
  let iRate := if s.iInternalSampleRate < 0 then (frequency f : ℤ) else s.iInternalSampleRate
  let u : AMR_WBP_Packetizer := { s with iInternalSampleRate := iRate }
  have hu : Gathered iMTU u g := by
    apply gathered_rate h
    intro q hq
    have hq' := h.rate q hq
    show (if s.iInternalSampleRate < 0 then (frequency f : ℤ) else s.iInternalSampleRate) = _
    rw [if_neg (by omega), hq']
  have hrun : (receive f).run s = (do
      if (frequency f : ℤ) ≠ iRate then pack
      else if uint32 s.iMTU < uint32 (s.iPack+f.size) then pack
      else pure ()
      modify fun s => s.store (frequency f) f : Packing Unit).run u := by
    rw [receive, if_neg (by rw [hf.codec]; simp), if_neg (by rw [hf.mux]; simp),
      run_ofExcept_bind hbyte]
    simp only [hnext]
    rfl
  rw [hrun]
  have hsize := frame_size hf
  have hsingle : (budget ([]++[f]) : ℤ) ≤ iMTU := by
    rw [budget]
    simp
    omega
  have hpacked : ∃ t g' gs ps, (do
      pack
      modify fun s => s.store (frequency f) f : Packing Unit).run u = .ok () t ∧
      Gathered iMTU t g' ∧ gs.flatten++g' = g++[f] ∧ List.Forall₂ (Carries iMTU) gs ps ∧
      t.routed = s.routed++ps := by
    rcases pack_run hlow hhigh hu with ⟨t, gs, ps, hpack, ht, hgs, hps, hrouted⟩
    refine ⟨t.store (frequency f) f, [f], gs, ps, ?_,
      store_gathered ht hhigh hf hsingle (by simp), by rw [hgs], hps, hrouted⟩
    rw [run_bind_of_ok hpack]
    rfl
  by_cases hsame : (frequency f : ℤ) ≠ iRate
  · rw [if_pos hsame]
    exact hpacked
  · rw [if_neg hsame]
    by_cases hfull : uint32 s.iMTU < uint32 (s.iPack+f.size)
    · rw [if_pos hfull]
      exact hpacked
    · rw [if_neg hfull]
      refine ⟨u.store (frequency f) f, g++[f], [], [], rfl, store_gathered hu hhigh hf ?_ ?_, rfl,
        List.Forall₂.nil, (List.append_nil _).symm⟩
      · have hfits := h.fits
        have hbudget : budget (g++[f]) = budget g+f.size := by simp [budget, Nat.add_assoc]
        rw [h.mtu, h.pack, uint32_add] at hfull
        have hroom : ((uint32 iMTU : ℕ) : ℤ) = iMTU := uint32_of_bounds (by omega) (by omega)
        rw [hbudget]
        push_cast
        omega
      · intro q hq
        have hq' := hu.rate q hq
        have hsame' : (frequency f : ℤ) = iRate := not_not.mp hsame
        have hrate : u.iInternalSampleRate = iRate := rfl
        rw [hrate, ← hsame'] at hq'
        exact_mod_cast hq'.symm

theorem frames_run (hlow : 130 ≤ iMTU) (hhigh : iMTU < 2^31) {fs : List MediaPacket}
    (h : Gathered iMTU s g) (hfs : ∀ f ∈ fs, Frame f) : ∃ t g' gs ps,
      (forM fs receive).run s = .ok () t ∧ Gathered iMTU t g' ∧ gs.flatten++g' = g++fs ∧
      List.Forall₂ (Carries iMTU) gs ps ∧ t.routed = s.routed++ps := by
  induction fs generalizing s g with
  | nil =>
    exact ⟨s, g, [], [], rfl, h, by simp, List.Forall₂.nil, (List.append_nil _).symm⟩
  | cons f fs ih =>
    rcases receive_run hlow hhigh h (hfs f List.mem_cons_self) with
      ⟨t, g', gs, ps, hrun, ht, hgs, hps, hrouted⟩
    rcases ih ht (fun f' hf' => hfs f' (List.mem_cons_of_mem f hf')) with
      ⟨t', g'', gs', ps', hrun', ht', hgs', hps', hrouted'⟩
    refine ⟨t', g'', gs++gs', ps++ps', ?_, ht', ?_, ?_, ?_⟩
    · rw [List.forM_cons, run_bind_of_ok hrun]
      exact hrun'
    · rw [List.flatten_append, List.append_assoc, hgs', ← List.append_assoc, hgs,
        List.append_assoc, List.singleton_append]
    · exact List.rel_append hps hps'
    · rw [hrouted', hrouted, List.append_assoc]

theorem segment_run (hlow : 130 ≤ iMTU) (hhigh : iMTU < 2^31) {seg : Segment}
    (h : Gathered iMTU s []) (hseg : ∀ f ∈ seg.frames, Frame f) : ∃ t ps, (do
      forM seg.frames receive
      receive_reset seg.pEnd : Packing Unit).run s = .ok () t ∧ Gathered iMTU t [] ∧
      Leaves iMTU seg ps ∧ t.routed = s.routed++ps := by
  rcases frames_run hlow hhigh h hseg with ⟨t, g, gs, ps, hrun, ht, hgs, hps, hrouted⟩
  rcases pack_run hlow hhigh ht with ⟨t', gs', ps', hpack, ht', hgs', hps', hrouted'⟩
  refine ⟨t'.send seg.pEnd,
    ps++ps'++[({ seg.pEnd with mux := .RTP } : MediaPacket).setUnit t'.iUnit], ?_, ?_, ?_, ?_⟩
  · rw [run_bind_of_ok hrun, receive_reset, run_bind_of_ok hpack]
    rfl
  · exact ⟨ht'.mtu, ht'.buffer, ht'.pack, ht'.fits, ht'.frames, ht'.rate⟩
  · refine ⟨gs++gs', ps++ps', _, ?_, List.rel_append hps hps', rfl, rfl, rfl⟩
    rw [List.flatten_append, hgs', hgs, List.nil_append]
  · show t'.routed++[_] = _
    rw [hrouted', hrouted, List.append_assoc, List.append_assoc, List.append_assoc]

theorem segments_run (hlow : 130 ≤ iMTU) (hhigh : iMTU < 2^31) {segs : List Segment}
    (h : Gathered iMTU s []) (hsegs : ∀ seg ∈ segs, ∀ f ∈ seg.frames, Frame f) :
    ∃ t pss, (packetize segs).run s = .ok () t ∧ List.Forall₂ (Leaves iMTU) segs pss ∧
      t.routed = s.routed++pss.flatten := by
  induction segs generalizing s with
  | nil => exact ⟨s, [], rfl, List.Forall₂.nil, (List.append_nil _).symm⟩
  | cons seg segs ih =>
    rcases segment_run hlow hhigh h (hsegs seg List.mem_cons_self) with
      ⟨t, ps, hrun, ht, hleaves, hrouted⟩
    rcases ih ht (fun seg' hseg' => hsegs seg' (List.mem_cons_of_mem seg hseg')) with
      ⟨t', pss, hrun', hall, hrouted'⟩
    refine ⟨t', ps::pss, ?_, List.Forall₂.cons hleaves hall, ?_⟩
    · rw [packetize, ← bind_assoc, run_bind_of_ok hrun]
      exact hrun'
    · rw [hrouted', hrouted, List.flatten_cons, List.append_assoc]

end

theorem amr_wbp_well_formed (mtu : ℤ) (segs : List Segment) (hlow : 200 ≤ mtu)
    (hhigh : mtu < 2^31) (hframes : ∀ seg ∈ segs, ∀ f ∈ seg.frames, Frame f) :
    ∃ t pss, (packetize segs).run (AMR_WBP_Packetizer.init mtu) = .ok () t ∧
      List.Forall₂ (Leaves (mtu-20-20-18-12)) segs pss ∧ t.routed = pss.flatten := by
  apply segments_run (s := AMR_WBP_Packetizer.init mtu) (by omega) (by omega) _ hframes
  refine ⟨rfl, rfl, rfl, ?_, by simp, by simp⟩
  show ((1+0 : ℕ) : ℤ) ≤ _
  omega

/-- A frame of comfort noise. -/
def noiseFrame (iHeader : UInt8) : MediaPacket :=
  { (MediaPacket.new .media .audio 7).pushed [9, iHeader, 1, 2, 3, 4, 5] with codec := .awbp }

theorem noiseFrame_type (iHeader : UInt8) : frameType (noiseFrame iHeader) = 9 := by
  show ((9 : UInt8) &&& 0x7F).toNat = 9
  decide

theorem noiseFrame_frame (iHeader : UInt8) : Frame (noiseFrame iHeader) := by
  refine ⟨rfl, rfl, rfl, ?_, ?_⟩
  · rw [noiseFrame_type]
    decide
  · rw [noiseFrame_type]
    rfl

theorem amr_wbp_witness : ∃ t pss,
    (packetize [⟨[noiseFrame 1, noiseFrame 0x41, noiseFrame 2], MediaPacket.new .end .audio 0⟩]).run
      (AMR_WBP_Packetizer.init 200) = .ok () t ∧
      List.Forall₂ (Leaves (200-20-20-18-12))
        [⟨[noiseFrame 1, noiseFrame 0x41, noiseFrame 2], MediaPacket.new .end .audio 0⟩] pss ∧
      t.routed = pss.flatten := by
  apply amr_wbp_well_formed 200 _ (by decide) (by decide)
  intro seg hseg
  obtain rfl := List.mem_singleton.mp hseg
  simp [noiseFrame_frame]

end Sirannon.AMRWBP
