import Sirannon.AVCReader
import Sirannon.AVCSending

/-!
# Dropping the slices that a trace names

The classifier counts the slices of an H.264 stream and picks out those whose
number is in its list. On the wire it finds the slices in the packets, behind
their header; inside the program it goes by the frame type and the numbers that
come with each packet.
-/

set_option autoImplicit false

namespace Sirannon.NALUDrop
open BitString Bits Media StateError AVC

def FrameToChar : FrameType → Char
  | .I | .IDR | .EI | .SI | .BI | .CI => 'I'
  | .B | .EB | .BP | .BB | .CB => 'B'
  | .P | .EP | .SP | .CP => 'P'
  | .SEI | .PPS | .SPS | .ESPS | .E | .no_frame | .other | .AUD | .AUDH => 'H'

/-- `classified` records for each packet whether it was picked out. -/
structure nalu_drop_Classifier where
  bDiscard : Bool
  iRoute : ℤ
  iCurrNalNumber : ℤ
  iSub : ℤ
  iFrame : ℤ
  vDropNALUs : List ℤ
  routed : List MediaPacket
  classified : List Bool

namespace nalu_drop_Classifier

def init (discard : Bool) (xroute : ℤ) (vDropNALUs : List ℤ) : nalu_drop_Classifier where
  bDiscard := discard
  iRoute := xroute
  iCurrNalNumber := 0
  iSub := -1
  iFrame := -1
  vDropNALUs := vDropNALUs
  routed := []
  classified := []

def classify (s : nalu_drop_Classifier) (pPckt : MediaPacket) (bClassify : Bool) :
    nalu_drop_Classifier :=
  let vRouted :=
    if bClassify = true then
      if s.bDiscard = true then [] else [{ pPckt with xroute := pPckt.xroute+s.iRoute }]
    else [pPckt]
  { s with routed := s.routed ++ vRouted, classified := s.classified ++ [bClassify] }

def hasToDrop (s : nalu_drop_Classifier) (nalu : ℤ) : Bool := nalu ∈ s.vDropNALUs

/-- `iCurrNalNumber++` where a slice begins. -/
def counted (s : nalu_drop_Classifier) (bSlice : Bool) : nalu_drop_Classifier :=
  if bSlice = true then { s with iCurrNalNumber := s.iCurrNalNumber+1 } else s

def drops (s : nalu_drop_Classifier) (pPckt : MediaPacket) : nalu_drop_Classifier :=
  s.classify pPckt (s.hasToDrop s.iCurrNalNumber)

/-- The reader moved over the header, and the size of the header. -/
def udpHeader (pPckt : MediaPacket) : ℕ × IBits :=
  let oHeader := ((Media.reader pPckt).read 3).2
  let (bExtension, oHeader) := oHeader.read 1
  let (iSources, oHeader) := oHeader.read 4
  let iHeader := 12+iSources*4
  let oHeader := (oHeader.read 8).2
  let oHeader := (oHeader.read 16).2
  let oHeader := oHeader.seek (iHeader-4)
  if bExtension ≠ 0 then
    let oHeader := oHeader.seek 2
    let (iLength, oHeader) := oHeader.read 16
    (iHeader+iLength*4+4, oHeader.seek (iLength*4))
  else (iHeader, oHeader)

def isSliceType (iType : ℕ) : Bool := 1 ≤ iType ∧ iType ≤ 5

def receive_udpmode (s : nalu_drop_Classifier) (pPckt : MediaPacket) :
    Except SirannonException nalu_drop_Classifier :=
  let (iHeader, oHeader) := udpHeader pPckt
  if iHeader = pPckt.size then .ok (s.classify { pPckt with type := .end } false)
  else
    let (iByte, oHeader) := oHeader.read 8
    let fu_indicator := iByte &&& 0x1f
    if 1 ≤ fu_indicator ∧ fu_indicator ≤ 23 then
      .ok ((s.counted (isSliceType fu_indicator)).drops pPckt)
    else if fu_indicator = 28 then
      let (fu_header, _) := oHeader.read 8
      let nalu_type := fu_header &&& 0x1f
      .ok ((s.counted (isSliceType nalu_type && fu_header &&& 0x80 = 0x80)).drops pPckt)
    else .error (runtimeError "Unsupported NAL unit type (see Table 1 in RFC3984)")

def receive_rtpmode (s : nalu_drop_Classifier) (pPckt : MediaPacket) : nalu_drop_Classifier :=
  if FrameToChar pPckt.frame ≠ 'H' then
    let s :=
      if s.iSub ≠ pPckt.subframenumber ∨ s.iFrame ≠ pPckt.framenumber then
        { s with
          iCurrNalNumber := s.iCurrNalNumber+1
          iSub := pPckt.subframenumber
          iFrame := pPckt.framenumber }
      else s
    s.drops pPckt
  else s.classify pPckt false

end nalu_drop_Classifier

/-! ## Units -/

/-- The type of a NAL unit, behind its start code. -/
def nalType (f : MediaPacket) : ℕ := (dataAt (stripped f) 0 &&& type_mask).toNat

def isSlice (f : MediaPacket) : Bool := nalu_drop_Classifier.isSliceType (nalType f)

def slices (nals : List MediaPacket) : ℕ := nals.countP isSlice

/-- Does the packet belong to a slice with a number in the list, `k` slices being over? -/
def listed (vDropNALUs : List ℤ) : ℕ → List MediaPacket → MediaPacket → Bool
  | _, [], _ => false
  | k, f::nals, p =>
    if numbers p = numbers f then isSlice f && ((k+1 : ℕ) : ℤ) ∈ vDropNALUs
    else listed vDropNALUs (if isSlice f = true then k+1 else k) nals p

/-- A unit as the reader hands it out, its type one of those without extensions. -/
structure BaseUnit (f : MediaPacket) : Prop where
  input : Input f
  type : nalType f ≤ 12
  frame : ∃ iSliceType ≤ 9, f.frame = Reader.H264FrameToXFrame (nalType f) iSliceType

/-- A header of twelve bytes, without sources and extension. -/
structure RTPHeader (h : List UInt8) : Prop where
  length : h.length = 12
  plain : h.getD 0 0 &&& 0x1F = 0

/-- The packet with a header in front. -/
def Transmitted (p q : MediaPacket) : Prop := ∃ h, RTPHeader h ∧ q = p.fronted h

open nalu_drop_Classifier

/-- Both modes pick out the packets of the slices that are listed, and no others. -/
def ModesAgree (mtu : ℤ) (discard : Bool) (xroute : ℤ) (vDropNALUs : List ℤ)
    (nals : List MediaPacket) : Prop :=
  ∃ s, (forM nals AVC.receive).run (AVCPacketizer.init mtu false) = .ok () s ∧
    ∀ rtps, List.Forall₂ Transmitted s.routed rtps → ∃ t,
      rtps.foldlM receive_udpmode (init discard xroute vDropNALUs) = .ok t ∧
      t.classified = s.routed.map (listed vDropNALUs 0 nals) ∧
      (s.routed.foldl receive_rtpmode (init discard xroute vDropNALUs)).classified =
        s.routed.map (listed vDropNALUs 0 nals)

/-- Is the unit an I, P or B slice by its frame type? -/
def isFrame (f : MediaPacket) : Bool := FrameToChar f.frame ≠ 'H'

/-- The units with a frame type, without a first one whose numbers stand for none. -/
def frames (nals : List MediaPacket) : ℕ :=
  match nals.filter isFrame with
  | [] => 0
  | f::fs => if numbers f = (-1, -1) then fs.length else fs.length+1

/-- For a unit that is no frame the number of slices is not listed, and for a frame it is listed
as the number of frames is. -/
def Apart (vDropNALUs : List ℤ) (past : List MediaPacket) (f : MediaPacket) : Prop :=
  if isFrame f = true then
    ((slices (past++[f]) : ℤ) ∈ vDropNALUs ↔ (frames (past++[f]) : ℤ) ∈ vDropNALUs)
  else (slices (past++[f]) : ℤ) ∉ vDropNALUs

def Separate (vDropNALUs : List ℤ) (nals : List MediaPacket) : Prop :=
  ∀ past f rest, nals = past++f::rest → Apart vDropNALUs past f

/-! ## In the payload -/

theorem header_split {h : List UInt8} (hh : RTPHeader h) : ∃ b₀ b₁ b₂ b₃ tail,
    h = b₀::b₁::b₂::b₃::tail ∧ tail.length = 8 ∧ b₀.toNat%2^5 = 0 := by
  have hplain := hh.plain
  have hlength := hh.length
  match h, hlength with
  | b₀::b₁::b₂::b₃::tail, hlength =>
    refine ⟨b₀, b₁, b₂, b₃, tail, rfl, by simpa using hlength, ?_⟩
    have hbits := congrArg UInt8.toNat hplain
    rw [List.getD_cons_zero, UInt8.toNat_and] at hbits
    rw [← Nat.and_two_pow_sub_one_eq_mod]
    exact hbits

theorem udpHeader_skipped {p q : MediaPacket} (hq : Transmitted p q) :
    (udpHeader q).1 = 12 ∧ (udpHeader q).2.Ahead 96 (ofBytes p.bytes) := by
  rcases hq with ⟨h, hh, rfl⟩
  rcases header_split hh with ⟨b₀, b₁, b₂, b₃, tail, rfl, htail, hzero⟩
  have hbytes : (p.fronted (b₀::b₁::b₂::b₃::tail)).bytes = b₀::b₁::b₂::b₃::tail ++ p.bytes := rfl
  have hstart := reader_ahead hbytes
  have hfirst : ofNat 8 b₀.toNat =
      ofNat 3 (b₀.toNat/2^5) ++ (ofNat 1 (b₀.toNat/2^4) ++ ofNat 4 b₀.toNat) := by
    rw [show 8 = 3+5 from rfl, ofNat_add, show 5 = 1+4 from rfl, ofNat_add]
  simp only [ofBytes_cons, hfirst, List.append_assoc] at hstart
  have hversion := IBits.read_masked hstart (by norm_num)
  have hextension := IBits.read_masked hversion.2 (by norm_num)
  have hsources := IBits.read_masked hextension.2 (by norm_num)
  have htype := IBits.read_masked hsources.2 (by norm_num)
  have hnumber := IBits.ahead_read
    (by rw [List.append_assoc]; exact htype.2) (by simp)
  rw [List.length_append, ofNat_length, ofNat_length] at hnumber
  have hseek := IBits.ahead_seek hnumber.2 (n := 8) (by rw [ofBytes_length, htail])
  have hflag : b₀.toNat/2^4%2^1 = 0 := by omega
  have hcount : b₀.toNat%2^4 = 0 := by omega
  rw [hflag] at hextension
  rw [hcount] at hsources
  rw [udpHeader]
  simp only [hextension.1, hsources.1, Nat.zero_mul, Nat.add_zero, ne_eq, not_true_eq_false,
    if_false, true_and]
  exact hseek

theorem byte_fragment (t : UInt8) :
    (FLAG_BEGIN ||| (t &&& type_mask)).toNat &&& 0x1F = (t &&& type_mask).toNat ∧
      (FLAG_BEGIN ||| (t &&& type_mask)).toNat &&& 0x80 = 0x80 ∧
      (0 ||| (t &&& type_mask)).toNat &&& 0x80 = 0 ∧
      (FLAG_END ||| (t &&& type_mask)).toNat &&& 0x80 = 0 ∧
      ((t &&& nri_mask) ||| FLAG_FU).toNat &&& 0x1F = 28 := by
  rcases t with ⟨t⟩
  revert t
  decide

section
variable {s : nalu_drop_Classifier} {p q : MediaPacket} {b c : UInt8} {rest : List UInt8}

theorem udp_ahead (hq : Transmitted p q) (hp : p.bytes = b::rest) :
    (udpHeader q).1 ≠ q.size ∧ ((udpHeader q).2.read 8).1 = b.toNat ∧
      ((udpHeader q).2.read 8).2.Ahead 104 (ofBytes rest) := by
  rcases udpHeader_skipped hq with ⟨hheader, hahead⟩
  rw [hp, ofBytes_cons] at hahead
  refine ⟨?_, IBits.read_field hahead (by norm_num) b.toNat_lt⟩
  rcases hq with ⟨h, hh, rfl⟩
  have hsize : (p.fronted h).size = 12+(rest.length+1) := by
    rw [MediaPacket.size, fronted_bytes, List.length_append, hh.length, hp, List.length_cons]
  omega

/-- A packet that is a NAL unit counts if its type is that of a slice. -/
theorem udp_single (hq : Transmitted p q) (hp : p.bytes = b::rest)
    (htype : 1 ≤ (b &&& type_mask).toNat ∧ (b &&& type_mask).toNat ≤ 23) :
    s.receive_udpmode q =
      .ok ((s.counted (isSliceType (b &&& type_mask).toNat)).drops q) := by
  rcases udp_ahead hq hp with ⟨hsize, hbyte, -⟩
  have hmask : b.toNat &&& 0x1f = (b &&& type_mask).toNat := (UInt8.toNat_and b type_mask).symm
  rw [receive_udpmode]
  simp only [if_neg hsize, hbyte, hmask, if_pos htype]

/-- A fragment counts if it begins a slice. -/
theorem udp_fragment (hq : Transmitted p q) (hp : p.bytes = b::c::rest)
    (hb : b.toNat &&& 0x1F = 28) :
    s.receive_udpmode q = .ok ((s.counted
      (isSliceType (c.toNat &&& 0x1f) && c.toNat &&& 0x80 = 0x80)).drops q) := by
  rcases udp_ahead hq hp with ⟨hsize, hbyte, hahead⟩
  rw [ofBytes_cons] at hahead
  have hnext := (IBits.read_field hahead (by norm_num) c.toNat_lt).1
  rw [receive_udpmode]
  simp only [if_neg hsize, hbyte, hb, hnext]
  rfl

end

/-- The packets received were all picked out, or none, and the counter stands at `k`. -/
structure Marked (s t : nalu_drop_Classifier) (k : ℤ) (n : ℕ) (bClassify : Bool) : Prop where
  number : t.iCurrNalNumber = k
  list : t.vDropNALUs = s.vDropNALUs
  classified : t.classified = s.classified ++ List.replicate n bClassify

section
variable {s t : nalu_drop_Classifier} {p q : MediaPacket} {f g : MediaPacket} {iMTU u : ℤ}
  {ps qs : List MediaPacket} {data chunk : List UInt8}

theorem marked_first {k : ℤ} {n : ℕ} {b : Bool} (h : Marked (s.classify q b) t k n b) :
    Marked s t k (n+1) b where
  number := h.number
  list := h.list
  classified := by
    rw [h.classified, List.replicate_succ]
    exact List.append_assoc _ _ _

theorem counted_number (b : Bool) :
    (s.counted b).iCurrNalNumber = s.iCurrNalNumber+(if b = true then 1 else 0 : ℕ) ∧
      (s.counted b).vDropNALUs = s.vDropNALUs ∧ (s.counted b).classified = s.classified := by
  rw [counted]
  split_ifs
  · exact ⟨rfl, rfl, rfl⟩
  · exact ⟨(Int.add_zero _).symm, rfl, rfl⟩

/-- Fragments behind the first one are treated as that one was. -/
theorem udp_rest {flags : UInt8} (hp : Piece iMTU g flags u p chunk)
    (hflags : (flags ||| (dataAt g 0 &&& type_mask)).toNat &&& 0x80 = 0) (hq : Transmitted p q) :
    s.receive_udpmode q = .ok (s.drops q) := by
  rw [udp_fragment hq hp.bytes (byte_fragment _).2.2.2.2, hflags, Bool.and_comm]
  rfl

theorem udp_tail (h : Tail iMTU g u ps data) (hqs : List.Forall₂ Transmitted ps qs) :
    ∃ t, qs.foldlM receive_udpmode s = .ok t ∧
      Marked s t s.iCurrNalNumber ps.length (s.hasToDrop s.iCurrNalNumber) := by
  induction h generalizing s qs with
  | last hp =>
    cases hqs with
    | cons hq hqs =>
      cases hqs
      rw [List.foldlM_cons, udp_rest hp (byte_fragment _).2.2.2.1 hq]
      exact ⟨_, rfl, ⟨rfl, rfl, rfl⟩⟩
  | more hp hps ih =>
    cases hqs with
    | cons hq hqs =>
      rw [List.foldlM_cons, udp_rest hp (byte_fragment _).2.2.1 hq]
      rcases ih (s := s.drops _) hqs with ⟨t, ht, hmarked⟩
      exact ⟨t, ht, marked_first hmarked⟩

/-- The packets of one unit: a slice counts once, and all of them are treated alike. -/
theorem udp_group (hf : NALUnit g) (h : Group iMTU [g] ps)
    (hqs : List.Forall₂ Transmitted ps qs) {k : ℤ}
    (hk : k = s.iCurrNalNumber+
      (if isSliceType (dataAt g 0 &&& type_mask).toNat = true then 1 else 0 : ℕ)) :
    ∃ t, qs.foldlM receive_udpmode s = .ok t ∧ Marked s t k ps.length (s.hasToDrop k) := by
  have hcounted := counted_number (s := s) (isSliceType (dataAt g 0 &&& type_mask).toNat)
  rw [← hk] at hcounted
  generalize hs' : s.counted (isSliceType (dataAt g 0 &&& type_mask).toNat) = s' at hcounted
  have hdrops : s'.hasToDrop s'.iCurrNalNumber = s.hasToDrop k := by
    rw [hasToDrop, hasToDrop, hcounted.1, hcounted.2.1]
  cases h with
  | single hbytes hfront hnumbers hsmall =>
    cases hqs with
    | cons hq hqs =>
      cases hqs
      rcases List.exists_cons_of_ne_nil hf.nonempty with ⟨b, rest, hg⟩
      have hb : b = dataAt g 0 := by
        rw [dataAt, hg]
        rfl
      have htype := hf.type
      rw [← hb] at htype hs'
      rw [List.foldlM_cons, udp_single hq (hbytes.trans hg) htype, hs']
      refine ⟨_, rfl, ⟨hcounted.1, hcounted.2.1, ?_⟩⟩
      show s'.classified ++ [s'.hasToDrop s'.iCurrNalNumber] = _
      rw [hdrops, hcounted.2.2]
      rfl
  | fragments hp hps hdata =>
    cases hqs with
    | @cons p q ps qs hq hqs =>
      have hbegin := byte_fragment (dataAt g 0)
      rw [List.foldlM_cons, udp_fragment hq hp.bytes hbegin.2.2.2.2, hbegin.1, hbegin.2.1]
      simp only [decide_true, Bool.and_true, hs']
      rcases udp_tail (s := s'.drops q) hps hqs with ⟨t, ht, hmarked⟩
      have hfirst : Marked s' t s'.iCurrNalNumber _ (s'.hasToDrop s'.iCurrNalNumber) :=
        marked_first hmarked
      rw [hdrops, hcounted.1] at hfirst
      refine ⟨t, ht, ⟨hfirst.number, hfirst.list.trans hcounted.2.1, ?_⟩⟩
      rw [hfirst.classified, hcounted.2.2]
      rfl

end

/-! ## In the metadata -/

section
variable {s t : nalu_drop_Classifier} {p q : MediaPacket} {f g : MediaPacket} {iMTU u : ℤ}
  {ps qs : List MediaPacket} {data chunk : List UInt8}

theorem tail_numbers (h : Tail iMTU g u ps data) : ∀ p ∈ ps, numbers p = numbers g := by
  induction h with
  | last hp => simpa using hp.numbers
  | more hp hps ih => exact List.forall_mem_cons.mpr ⟨hp.numbers, ih⟩

theorem group_numbers (h : Group iMTU [g] ps) :
    ps ≠ [] ∧ ∀ p ∈ ps, numbers p = numbers g := by
  cases h with
  | single hbytes hfront hnumbers hsmall => exact ⟨by simp, by simpa using hnumbers⟩
  | fragments hp hps hdata =>
    exact ⟨by simp, List.forall_mem_cons.mpr ⟨hp.numbers, tail_numbers hps⟩⟩

/-- The numbers of the unit that was counted last. -/
def nalu_drop_Classifier.last (s : nalu_drop_Classifier) : ℤ × ℤ := (s.iFrame, s.iSub)

theorem rtp_header (h : ∀ p ∈ ps, isFrame p = false) :
    Marked s (ps.foldl receive_rtpmode s) s.iCurrNalNumber ps.length false ∧
      (ps.foldl receive_rtpmode s).last = s.last := by
  induction ps generalizing s with
  | nil => exact ⟨⟨rfl, rfl, (List.append_nil _).symm⟩, rfl⟩
  | cons p ps ih =>
    have hp : FrameToChar p.frame = 'H' := by simpa [isFrame] using h p List.mem_cons_self
    have hstep : s.receive_rtpmode p = s.classify p false := by
      rw [receive_rtpmode, if_neg (by simpa using hp)]
    rw [List.foldl_cons, hstep]
    rcases ih (s := s.classify p false) (fun q hq => h q (List.mem_cons_of_mem p hq)) with
      ⟨hmarked, hlast⟩
    exact ⟨marked_first hmarked, hlast⟩

theorem rtp_counted (hp : isFrame p = true) (hlast : s.last = numbers p) :
    s.receive_rtpmode p = s.drops p := by
  rw [last, numbers, Prod.mk.injEq] at hlast
  have hframe : FrameToChar p.frame ≠ 'H' := by simpa [isFrame] using hp
  rw [receive_rtpmode, if_pos hframe, if_neg (by rw [hlast.1, hlast.2]; simp)]

theorem rtp_rest (h : ∀ p ∈ ps, isFrame p = true ∧ s.last = numbers p) :
    Marked s (ps.foldl receive_rtpmode s) s.iCurrNalNumber ps.length
        (s.hasToDrop s.iCurrNalNumber) ∧
      (ps.foldl receive_rtpmode s).last = s.last := by
  induction ps generalizing s with
  | nil => exact ⟨⟨rfl, rfl, (List.append_nil _).symm⟩, rfl⟩
  | cons p ps ih =>
    rcases h p List.mem_cons_self with ⟨hp, hlast⟩
    rw [List.foldl_cons, rtp_counted hp hlast]
    rcases ih (s := s.drops p) (fun q hq => h q (List.mem_cons_of_mem p hq)) with
      ⟨hmarked, hlast'⟩
    exact ⟨marked_first hmarked, hlast'⟩

/-- The state in which a unit is counted. -/
def nalu_drop_Classifier.moved (s : nalu_drop_Classifier) (f : MediaPacket) :
    nalu_drop_Classifier :=
  { s with
    iCurrNalNumber := s.iCurrNalNumber+(if s.last = numbers f then 0 else 1 : ℕ)
    iSub := f.subframenumber
    iFrame := f.framenumber }

theorem rtp_first (hp : isFrame p = true) : s.receive_rtpmode p = (s.moved p).drops p := by
  have hframe : FrameToChar p.frame ≠ 'H' := by simpa [isFrame] using hp
  have hdiffer : (s.iSub ≠ p.subframenumber ∨ s.iFrame ≠ p.framenumber) ↔
      ¬ s.last = numbers p := by
    rw [last, numbers, Prod.mk.injEq]
    tauto
  rw [receive_rtpmode, if_pos hframe, moved]
  by_cases hlast : s.last = numbers p
  · rw [if_neg (by rwa [hdiffer, not_not]), if_pos hlast]
    rw [last, numbers, Prod.mk.injEq] at hlast
    rw [← hlast.1, ← hlast.2]
    simp
  · rw [if_pos (hdiffer.mpr hlast), if_neg hlast]
    rfl

/-- The packets of one unit with a frame type: they count once. -/
theorem rtp_group (hf : isFrame f = true) (hps : ps ≠ [])
    (hnumbers : ∀ p ∈ ps, numbers p = numbers f) (hframe : ∀ p ∈ ps, p.frame = f.frame) :
    Marked s (ps.foldl receive_rtpmode s) (s.moved f).iCurrNalNumber ps.length
        (s.hasToDrop (s.moved f).iCurrNalNumber) ∧
      (ps.foldl receive_rtpmode s).last = numbers f := by
  have hframes (p : MediaPacket) (hp : p ∈ ps) : isFrame p = true := by
    rw [isFrame, hframe p hp]
    exact hf
  rcases List.exists_cons_of_ne_nil hps with ⟨p, rest, rfl⟩
  have hp := hnumbers p List.mem_cons_self
  have hmoved : s.moved p = s.moved f := by
    rw [moved, hp]
    rw [numbers, numbers, Prod.mk.injEq] at hp
    rw [hp.1, hp.2]
    rfl
  rw [List.foldl_cons, rtp_first (hframes p List.mem_cons_self), hmoved]
  have hrest := rtp_rest (s := (s.moved f).drops p) fun q hq =>
    ⟨hframes q (List.mem_cons_of_mem p hq), (hnumbers q (List.mem_cons_of_mem p hq)).symm⟩
  have hfirst : Marked (s.moved f) _ _ _ _ := marked_first hrest.1
  exact ⟨⟨hfirst.number, hfirst.list, hfirst.classified⟩, hrest.2⟩

end

/-! ## Counting units -/

section
variable {past rest : List MediaPacket} {f g p : MediaPacket} {L : List ℤ}

theorem slices_snoc (past : List MediaPacket) (f : MediaPacket) :
    slices (past++[f]) = slices past+(if isSlice f = true then 1 else 0) := by
  rw [slices, List.countP_append, List.countP_singleton]
  rfl

/-- The numbers of the last frame. -/
def lastFrame (nals : List MediaPacket) : ℤ × ℤ :=
  (nals.filter isFrame).getLast?.elim (-1, -1) numbers

theorem frames_header (h : isFrame f = false) :
    frames (past++[f]) = frames past ∧ lastFrame (past++[f]) = lastFrame past := by
  have hfilter : (past++[f]).filter isFrame = past.filter isFrame := by simp [h]
  rw [frames, frames, lastFrame, lastFrame, hfilter]
  exact ⟨rfl, rfl⟩

theorem frames_frame (h : isFrame f = true) (hnew : ∀ g ∈ past, numbers g ≠ numbers f) :
    frames (past++[f]) = frames past+(if lastFrame past = numbers f then 0 else 1) ∧
      lastFrame (past++[f]) = numbers f := by
  have hfilter : (past++[f]).filter isFrame = past.filter isFrame ++ [f] := by simp [h]
  have hmem : ∀ g ∈ past.filter isFrame, numbers g ≠ numbers f :=
    fun g hg => hnew g (List.mem_filter.mp hg).1
  rw [frames, frames, lastFrame, lastFrame, hfilter, List.getLast?_append_of_ne_nil _ (by simp)]
  refine ⟨?_, rfl⟩
  cases hpast : past.filter isFrame with
  | nil =>
    by_cases hnone : numbers f = (-1, -1)
    · simp [hnone]
    · have hnone' : ¬ (-1, -1) = numbers f := fun h => hnone h.symm
      simp [hnone, hnone']
  | cons g gs =>
    rw [hpast] at hmem
    have hlast : ¬ (g::gs).getLast?.elim (-1, -1) numbers = numbers f := by
      rw [List.getLast?_eq_some_getLast (List.cons_ne_nil g gs)]
      exact hmem _ (List.getLast_mem _)
    rw [if_neg hlast]
    simp only [List.cons_append, List.length_append, List.length_singleton]
    split_ifs <;> rfl

theorem listed_at (k : ℕ) (hp : numbers p = numbers f)
    (hnew : ∀ g ∈ past, numbers g ≠ numbers f) :
    listed L k (past++f::rest) p =
      (isSlice f && decide (((k+slices (past++[f]) : ℕ) : ℤ) ∈ L)) := by
  induction past generalizing k with
  | nil =>
    rw [List.nil_append, listed, if_pos hp]
    cases hslice : isSlice f <;> simp [slices, hslice]
  | cons g past ih =>
    have hg : ¬ numbers p = numbers g := by
      rw [hp]
      exact fun h => hnew g List.mem_cons_self h.symm
    rw [List.cons_append, listed, if_neg hg,
      ih _ fun g' hg' => hnew g' (List.mem_cons_of_mem g hg')]
    have hcount : k+slices (g::(past++[f])) =
        (if isSlice g = true then k+1 else k)+slices (past++[f]) := by
      rw [slices, slices, List.countP_cons]
      split_ifs <;> omega
    rw [List.cons_append, hcount]

theorem frame_type : ∀ iType ≤ 12, ∀ iSliceType ≤ 9,
    FrameToChar (Reader.H264FrameToXFrame iType iSliceType) ≠ 'H' →
      isSliceType iType = true := by
  decide

theorem frame_slice (hf : BaseUnit f) (h : isFrame f = true) : isSlice f = true := by
  rcases hf.frame with ⟨iSliceType, hle, hframe⟩
  rw [isFrame, hframe, decide_eq_true_eq] at h
  exact frame_type _ hf.type _ hle h

/-- Both modes are right about a unit exactly when it is apart. -/
theorem right_iff (hf : BaseUnit f) (past : List MediaPacket) :
    (decide ((slices (past++[f]) : ℤ) ∈ L) =
        (isSlice f && decide ((slices (past++[f]) : ℤ) ∈ L)) ∧
      (isFrame f && decide ((frames (past++[f]) : ℤ) ∈ L)) =
        (isSlice f && decide ((slices (past++[f]) : ℤ) ∈ L))) ↔ Apart L past f := by
  rw [Apart]
  by_cases hframe : isFrame f = true
  · rw [if_pos hframe, hframe, frame_slice hf hframe]
    simp only [Bool.true_and, true_and, decide_eq_decide]
    exact Iff.comm
  · rw [if_neg hframe, Bool.eq_false_iff.mpr hframe, Bool.false_and]
    by_cases hlisted : (slices (past++[f]) : ℤ) ∈ L
    · simp only [hlisted, decide_true, Bool.and_true, not_true_eq_false, iff_false]
      rintro ⟨h₁, h₂⟩
      rw [← h₁] at h₂
      cases h₂
    · simp [hlisted]

end

/-! ## Both modes -/

/-- The packets of a unit. -/
def Sent (iMTU : ℤ) (f : MediaPacket) (ps : List MediaPacket) : Prop :=
  Group iMTU [stripped f] ps ∧ ∀ p ∈ ps, p.frame = f.frame

/-- Every unit from here on is apart. -/
def SeparateFrom (L : List ℤ) : List MediaPacket → List MediaPacket → Prop
  | _, [] => True
  | past, f::rest => Apart L past f ∧ SeparateFrom L (past++[f]) rest

theorem separateFrom_iff (L : List ℤ) (past nals : List MediaPacket) :
    SeparateFrom L past nals ↔
      ∀ a f rest, nals = a++f::rest → Apart L (past++a) f := by
  induction nals generalizing past with
  | nil => simp [SeparateFrom]
  | cons g nals ih =>
    rw [SeparateFrom, ih]
    constructor
    · rintro ⟨hg, hrest⟩ a f rest hsplit
      cases a with
      | nil =>
        obtain ⟨rfl, rfl⟩ := List.cons.inj hsplit
        rwa [List.append_nil]
      | cons g' a =>
        obtain ⟨rfl, hnals⟩ := List.cons.inj hsplit
        have h := hrest a f rest hnals
        rwa [List.append_assoc] at h
    · intro h
      refine ⟨?_, ?_⟩
      · have hfirst := h [] g nals rfl
        rwa [List.append_nil] at hfirst
      · rintro a f rest rfl
        rw [List.append_assoc]
        exact h (g::a) f rest rfl

/-- The classifiers of both modes behind the packets of some units. -/
structure Standing (L : List ℤ) (past : List MediaPacket) (udp rtp : nalu_drop_Classifier) :
    Prop where
  slices : udp.iCurrNalNumber = slices past
  frames : rtp.iCurrNalNumber = frames past
  last : rtp.last = lastFrame past
  udpList : udp.vDropNALUs = L
  rtpList : rtp.vDropNALUs = L

section
variable {L : List ℤ} {iMTU : ℤ} {past rest nals : List MediaPacket} {f : MediaPacket}
  {ps qs : List MediaPacket} {udp rtp : nalu_drop_Classifier}

/-- One unit in both modes. -/
theorem modes_unit (h : Standing L past udp rtp) (hf : BaseUnit f)
    (hnew : ∀ g ∈ past, numbers g ≠ numbers f) (hsent : Sent iMTU f ps)
    (hqs : List.Forall₂ Transmitted ps qs) :
    ∃ t, qs.foldlM receive_udpmode udp = .ok t ∧
      Standing L (past++[f]) t (ps.foldl receive_rtpmode rtp) ∧
      t.classified = udp.classified ++
        List.replicate ps.length (decide ((NALUDrop.slices (past++[f]) : ℤ) ∈ L)) ∧
      (ps.foldl receive_rtpmode rtp).classified = rtp.classified ++ List.replicate ps.length
        (isFrame f && decide ((NALUDrop.frames (past++[f]) : ℤ) ∈ L)) := by
  have hk : ((NALUDrop.slices (past++[f]) : ℕ) : ℤ) = udp.iCurrNalNumber+
      (if isSliceType (dataAt (stripped f) 0 &&& type_mask).toNat = true then 1 else 0 : ℕ) := by
    rw [h.slices, slices_snoc, Nat.cast_add]
    rfl
  rcases udp_group hf.input.unit hsent.1 hqs hk with ⟨t, ht, hmarked⟩
  rw [hasToDrop, h.udpList] at hmarked
  rcases group_numbers hsent.1 with ⟨hne, hnumbers⟩
  refine ⟨t, ht, ?_⟩
  by_cases hframe : isFrame f = true
  · rcases frames_frame hframe hnew with ⟨hframes, hlast⟩
    rcases rtp_group (s := rtp) hframe hne hnumbers hsent.2 with ⟨hmarked', hlast'⟩
    have hmoved : (rtp.moved f).iCurrNalNumber = NALUDrop.frames (past++[f]) := by
      rw [moved, hframes, ← h.last, Nat.cast_add, ← h.frames]
    rw [hasToDrop, h.rtpList, hmoved] at hmarked'
    refine ⟨⟨hmarked.number, hmarked'.number, hlast'.trans hlast.symm,
      hmarked.list.trans h.udpList, hmarked'.list.trans h.rtpList⟩, hmarked.classified, ?_⟩
    rw [hframe, Bool.true_and]
    exact hmarked'.classified
  · have hheader : isFrame f = false := Bool.eq_false_iff.mpr hframe
    rcases frames_header hheader with ⟨hframes, hlast⟩
    have hall (p : MediaPacket) (hp : p ∈ ps) : isFrame p = false := by
      rw [isFrame, hsent.2 p hp]
      exact hheader
    rcases rtp_header (s := rtp) hall with ⟨hmarked', hlast'⟩
    refine ⟨⟨hmarked.number, ?_, ?_, hmarked.list.trans h.udpList,
      hmarked'.list.trans h.rtpList⟩, hmarked.classified, ?_⟩
    · rw [hmarked'.number, h.frames, hframes]
    · rw [hlast', h.last, hlast]
    · rw [hheader, Bool.false_and]
      exact hmarked'.classified

theorem transmitted_append {more : List MediaPacket}
    (h : List.Forall₂ Transmitted (ps++more) qs) : ∃ qs₁ qs₂, qs = qs₁++qs₂ ∧
      List.Forall₂ Transmitted ps qs₁ ∧ List.Forall₂ Transmitted more qs₂ := by
  induction ps generalizing qs with
  | nil => exact ⟨[], qs, rfl, List.Forall₂.nil, h⟩
  | cons p ps ih =>
    cases h with
    | @cons _ q _ qs hq hqs =>
      rcases ih hqs with ⟨qs₁, qs₂, rfl, h₁, h₂⟩
      exact ⟨q::qs₁, qs₂, rfl, List.Forall₂.cons hq h₁, h₂⟩

/-- The packets of the first unit have one answer, those behind it have theirs. -/
theorem answers_iff {b : Bool} {answers : List Bool} {w : MediaPacket → Bool} {v : Bool}
    {more : List MediaPacket} (hne : ps ≠ []) (hw : ∀ p ∈ ps, w p = v) :
    List.replicate ps.length b ++ answers = (ps++more).map w ↔ b = v ∧ answers = more.map w := by
  have hmap : ps.map w = List.replicate ps.length v := by
    rw [List.map_congr_left hw, List.map_const']
  have hpos : 0 < ps.length := List.length_pos_of_ne_nil hne
  rw [List.map_append, hmap]
  constructor
  · intro h
    rcases List.append_inj h (by simp) with ⟨hfirst, hrest⟩
    refine ⟨?_, hrest⟩
    have hmem : b ∈ List.replicate ps.length v := by
      rw [← hfirst]
      exact List.mem_replicate.mpr ⟨by omega, rfl⟩
    exact (List.mem_replicate.mp hmem).2
  · rintro ⟨rfl, rfl⟩
    rfl

/-- All units in both modes. -/
theorem modes_run {groups : List (List MediaPacket)} (h : Standing L past udp rtp)
    (hnals : nals = past++rest) (hunits : ∀ f ∈ nals, BaseUnit f)
    (hnodup : (nals.map numbers).Nodup) (hgroups : List.Forall₂ (Sent iMTU) rest groups)
    (hqs : List.Forall₂ Transmitted groups.flatten qs) :
    ∃ t a b, qs.foldlM receive_udpmode udp = .ok t ∧ t.classified = udp.classified ++ a ∧
      (groups.flatten.foldl receive_rtpmode rtp).classified = rtp.classified ++ b ∧
      (a = groups.flatten.map (listed L 0 nals) ∧ b = groups.flatten.map (listed L 0 nals) ↔
        SeparateFrom L past rest) := by
  induction hgroups generalizing past qs udp rtp with
  | nil =>
    cases hqs
    exact ⟨udp, [], [], rfl, by simp, by simp, by simp [SeparateFrom]⟩
  | @cons f ps rest groups hsent hgroups ih =>
    rw [List.flatten_cons] at hqs ⊢
    have hf : BaseUnit f := hunits f (by rw [hnals]; simp)
    have hnew : ∀ g ∈ past, numbers g ≠ numbers f := by
      intro g hg
      rw [hnals, List.map_append, List.map_cons] at hnodup
      exact (List.nodup_append.mp hnodup).2.2 _ (List.mem_map_of_mem hg) _ List.mem_cons_self
    rcases transmitted_append hqs with ⟨qs₁, qs₂, rfl, hqs₁, hqs₂⟩
    rcases modes_unit h hf hnew hsent hqs₁ with ⟨t, ht, hstanding, hudp, hrtp⟩
    rcases ih hstanding (by rw [hnals, List.append_assoc]; rfl) hqs₂ with
      ⟨t', a, b, ht', hudp', hrtp', hiff⟩
    rcases group_numbers hsent.1 with ⟨hne, hnumbers⟩
    have hlisted (p : MediaPacket) (hp : p ∈ ps) : listed L 0 nals p =
        (isSlice f && decide ((slices (past++[f]) : ℤ) ∈ L)) := by
      have hp' : numbers p = numbers f := hnumbers p hp
      rw [hnals, listed_at 0 hp' hnew, Nat.zero_add]
    rw [hudp, List.append_assoc] at hudp'
    rw [hrtp, List.append_assoc, ← List.foldl_append] at hrtp'
    refine ⟨t', _, _, ?_, hudp', hrtp', ?_⟩
    · rw [List.foldlM_append, ht]
      exact ht'
    · rw [answers_iff hne hlisted, answers_iff hne hlisted, SeparateFrom, ← hiff,
        ← right_iff hf past]
      tauto

end

/-! ## The packets of the packetizer -/

theorem receive_sent {f : MediaPacket} {s : AVCPacketizer} (hf : Input f)
    (hplain : s.bAggregate = false) (hMTU : 3 ≤ s.iMTU) (hint : s.iMTU < 2^31) :
    ∃ ps, (AVC.receive f).run s = .ok () (s.sent ps) ∧ Sent s.iMTU f ps := by
  have hpop : f.pop_front (H264_is_start_code f.bytes) = .ok (stripped f) :=
    pop_front_ok (start_code_le f.bytes)
  rw [AVC.receive, if_neg (by rw [hf.codec]; simp), if_neg (by rw [hf.mux]; simp),
    run_ofExcept_bind hpop, run_get_bind, if_pos hplain]
  rcases pack_FU_run (stripped f) s hMTU hint with ⟨ps, hrun, hgroup, hframes⟩
  exact ⟨ps, hrun, hgroup, hframes⟩

theorem packets_sent {nals : List MediaPacket} (hnals : ∀ f ∈ nals, Input f)
    (s : AVCPacketizer) (hplain : s.bAggregate = false) (hMTU : 3 ≤ s.iMTU)
    (hint : s.iMTU < 2^31) :
    ∃ groups, (forM nals AVC.receive).run s = .ok () (s.sent groups.flatten) ∧
      List.Forall₂ (Sent s.iMTU) nals groups := by
  induction nals generalizing s with
  | nil =>
    refine ⟨[], ?_, List.Forall₂.nil⟩
    rw [List.flatten_nil, AVCPacketizer.sent, Packetization.sent_nil]
    rfl
  | cons f nals ih =>
    rcases receive_sent (hnals f List.mem_cons_self) hplain hMTU hint with ⟨ps, hrun, hsent⟩
    rcases ih (fun g hg => hnals g (List.mem_cons_of_mem f hg)) (s.sent ps) hplain hMTU hint with
      ⟨groups, hrest, hgroups⟩
    refine ⟨ps::groups, ?_, List.Forall₂.cons hsent hgroups⟩
    rw [List.forM_cons, run_bind_of_ok hrun, hrest, avc_sent_sent, List.flatten_cons]

theorem standing_init (discard : Bool) (xroute : ℤ) (L : List ℤ) :
    Standing L [] (init discard xroute L) (init discard xroute L) := ⟨rfl, rfl, rfl, rfl, rfl⟩

/-- Some header can be put in front of every packet. -/
theorem transmitted_exists (ps : List MediaPacket) : ∃ qs, List.Forall₂ Transmitted ps qs := by
  have hh : RTPHeader [0x80, 96, 0, 0, 0, 0, 0, 0, 0, 0, 0, 0] := ⟨rfl, rfl⟩
  induction ps with
  | nil => exact ⟨[], List.Forall₂.nil⟩
  | cons p ps ih =>
    rcases ih with ⟨qs, hqs⟩
    exact ⟨_, List.Forall₂.cons ⟨_, hh, rfl⟩ hqs⟩

/-- Both modes pick out the packets of the listed slices exactly when the units are apart. -/
theorem nalu_drop_iff {mtu : ℤ} (discard : Bool) (xroute : ℤ) (vDropNALUs : List ℤ)
    {nals : List MediaPacket} (hMTU : 3 ≤ (AVCPacketizer.init mtu false).iMTU)
    (hint : mtu < 2^31) (hunits : ∀ f ∈ nals, BaseUnit f)
    (hnumbers : (nals.map numbers).Nodup) :
    ModesAgree mtu discard xroute vDropNALUs nals ↔ Separate vDropNALUs nals := by
  have hint' : (AVCPacketizer.init mtu false).iMTU < 2^31 := by
    show mtu-20-20-18-12 < 2^31
    omega
  rcases packets_sent (fun f hf => (hunits f hf).input) (AVCPacketizer.init mtu false) rfl hMTU
    hint' with ⟨groups, hrun, hgroups⟩
  have hrouted : ((AVCPacketizer.init mtu false).sent groups.flatten).routed = groups.flatten :=
    rfl
  have hmodes {qs : List MediaPacket} (hqs : List.Forall₂ Transmitted groups.flatten qs) :=
    modes_run (standing_init discard xroute vDropNALUs) (List.nil_append nals).symm hunits hnumbers
      hgroups hqs
  rw [Separate, show (∀ past f rest, nals = past++f::rest → Apart vDropNALUs past f) ↔
    SeparateFrom vDropNALUs [] nals from (separateFrom_iff vDropNALUs [] nals).symm]
  constructor
  · rintro ⟨s, hs, hall⟩
    rw [hrun] at hs
    obtain rfl := (EStateM.Result.ok.inj hs).2
    rw [hrouted] at hall
    rcases transmitted_exists groups.flatten with ⟨qs, hqs⟩
    rcases hall qs hqs with ⟨t, ht, hudp, hrtp⟩
    rcases hmodes hqs with ⟨t', a, b, ht', hudp', hrtp', hiff⟩
    rw [ht] at ht'
    obtain rfl := Except.ok.inj ht'
    exact hiff.mp ⟨hudp'.symm.trans hudp, hrtp'.symm.trans hrtp⟩
  · intro hseparate
    refine ⟨_, hrun, ?_⟩
    rw [hrouted]
    intro qs hqs
    rcases hmodes hqs with ⟨t, a, b, ht, hudp, hrtp, hiff⟩
    rcases hiff.mpr hseparate with ⟨ha, hb⟩
    exact ⟨t, ht, hudp.trans ha, hrtp.trans hb⟩

/-- A NAL unit of two bytes behind a long start code. -/
def shortUnit (header : UInt8) (frame : FrameType) (framenumber subframenumber : ℤ) :
    MediaPacket :=
  { MediaPacket.new .media .video 6 with
    codec := .avc
    frame := frame
    framenumber := framenumber
    subframenumber := subframenumber
    bytes := [0, 0, 0, 1, header, 0x88] }

theorem shortUnit_base {header : UInt8} {frame : FrameType} (framenumber subframenumber : ℤ)
    (hlow : 1 ≤ (header &&& type_mask).toNat) (hhigh : (header &&& type_mask).toNat ≤ 12)
    (hframe : frame = Reader.H264FrameToXFrame (header &&& type_mask).toNat 2) :
    BaseUnit (shortUnit header frame framenumber subframenumber) where
  input :=
    { codec := by
        show CodecType.avc.isIn familyH264 = true
        decide
      mux := rfl
      unit :=
        { nonempty := by simp [stripped, shortUnit, H264_is_start_code]
          type := ⟨hlow, hhigh.trans (by norm_num)⟩
          size := by
            show (2 : ℕ) < 2^32
            norm_num
          room := by
            show 4 ≤ iBufferSpace+4
            omega } }
  type := hhigh
  frame := ⟨2, by norm_num, hframe⟩

theorem nalu_drop_witness :
    ModesAgree 1500 false 1 [1] [shortUnit 0x06 .SEI 0 0, shortUnit 0x65 .IDR 0 1] ↔
      Separate [1] [shortUnit 0x06 .SEI 0 0, shortUnit 0x65 .IDR 0 1] := by
  apply nalu_drop_iff
  · decide
  · norm_num
  · intro f hf
    simp only [List.mem_cons, List.not_mem_nil, or_false] at hf
    rcases hf with rfl | rfl
    · exact shortUnit_base 0 0 (by decide) (by decide) rfl
    · exact shortUnit_base 0 1 (by decide) (by decide) rfl
  · decide

/-- A slice is dropped, and in the payload mode the parameter set behind it as well. -/
theorem nalu_drop_takes_header : ∃ slice sps : MediaPacket,
    BaseUnit slice ∧ BaseUnit sps ∧ ([slice, sps].map numbers).Nodup ∧
      ¬ ModesAgree 1500 false 1 [1] [slice, sps] := by
  refine ⟨shortUnit 0x65 .IDR 0 0, shortUnit 0x67 .SPS 1 0,
    shortUnit_base 0 0 (by decide) (by decide) rfl,
    shortUnit_base 1 0 (by decide) (by decide) rfl, by decide, ?_⟩
  rintro ⟨s, hs, hall⟩
  obtain rfl := (EStateM.Result.ok.inj hs).2
  rcases hall _ (List.Forall₂.cons ⟨[0x80, 96, 0, 0, 0, 0, 0, 0, 0, 0, 0, 0], ⟨rfl, rfl⟩, rfl⟩
    (List.Forall₂.cons ⟨[0x80, 96, 0, 1, 0, 0, 0, 0, 0, 0, 0, 0], ⟨rfl, rfl⟩, rfl⟩
      List.Forall₂.nil)) with ⟨t, ht, hudp, -⟩
  obtain rfl := Except.ok.inj ht
  revert hudp
  decide

end Sirannon.NALUDrop
