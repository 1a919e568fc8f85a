import Sirannon.StartCodes
import Sirannon.VideoExtraRecord

/-!
# NAL units behind their lengths

A stream with start codes becomes one packet, in which every NAL unit stands
behind its length. Parameter sets are put aside; their record is made when the
next unit is written. The packet is made for the size of the stream, and a short
start code is one byte shorter than a length.
-/

set_option autoImplicit false

namespace Sirannon.MP4Video
open ByteMemory Bits BitString Media MachineInt H264 VideoExtra

def isParameterSet (iType : ℕ) : Bool :=
  iType ∈ [NAL_UNIT_TYPE_SPS, NAL_UNIT_TYPE_SPS_EXT, NAL_UNIT_TYPE_SPS_SVC, NAL_UNIT_TYPE_PPS]

/-- The units that are left out. -/
structure Skips where
  bSkipSEI : Bool
  bSkipAUD : Bool

def Skips.drops (o : Skips) (iType : ℕ) : Bool :=
  (o.bSkipSEI && iType = NAL_UNIT_TYPE_SEI) || (o.bSkipAUD && iType = NAL_UNIT_TYPE_ACCESS_UNIT_DELIM)

def clearParameterSets (s : MP4MediaConverter) : MP4MediaConverter := { s with vSPS := [], vPPS := [] }

def addParameterSet (s : MP4MediaConverter) (iType : ℕ) (pParam : MediaPacket) : MP4MediaConverter :=
  if iType = NAL_UNIT_TYPE_PPS then { s with vPPS := s.vPPS ++ [pParam] }
  else { s with vSPS := s.vSPS ++ [pParam] }

/-- The converter on its way through a stream, with the extra data of the descriptor. -/
structure Conversion extends MP4MediaConverter where
  bExtract : Bool
  extra_data : Bytes
  pPckt : MediaPacket

/-! ## From start codes to lengths -/

/-- The length is written behind the data before room is asked for. -/
def writeUnit (m : Memory) (iNAL iHeader : ℕ) (pPckt : MediaPacket) :
    Except SirannonException MediaPacket := do
  let oHeader ← (OBits.new 4).write 32 (uint32 ((iNAL : ℤ)-iHeader))
  if pPckt.max_size < pPckt.iFront+pPckt.size+4 then .error (undefinedBehaviour "length behind the packet")
  else do
    let pPckt ← pPckt.push_back oHeader.data
    if iNAL < iHeader then .error (undefinedBehaviour "memcpy of a negative size")
    else pPckt.push_back (load m iHeader (iNAL-iHeader))

def Conversion.param (c : Conversion) (iType : ℕ) (pParam : MediaPacket) : Conversion :=
  let s := if c.bExtract then c.toMP4MediaConverter else clearParameterSets c.toMP4MediaConverter
  { c with toMP4MediaConverter := addParameterSet s iType pParam, bExtract := true }

def Conversion.extract (behind : Memory) (c : Conversion) : Except SirannonException Conversion :=
  if c.bExtract then do
    let r ← c.toMP4MediaConverter.ANNEXB2AVCC behind
    pure { c with toMP4MediaConverter := r.2, extra_data := r.1.getD c.extra_data, bExtract := false }
  else pure c

def Conversion.next (behind : Memory) (o : Skips) (m : Memory) (iNAL : ℕ) (c : Conversion) :
    Except SirannonException Conversion :=
  let iType := H264_NAL_type m
  let iHeader := H264_is_start_code m
  if isParameterSet iType then do
    let pParam ← (MediaPacket.new .media .video iNAL).push_back (load m 0 iNAL)
    pure (c.param iType pParam)
  else if o.drops iType then pure c
  else do
    let pPckt ← writeUnit m iNAL iHeader c.pPckt
    Conversion.extract behind { c with pPckt := pPckt }

/-- Every turn gets ahead, so that there are not more turns than bytes. -/
def Conversion.turns (behind : Memory) (o : Skips) : ℕ → Memory → ℕ → Conversion →
    Except SirannonException Conversion
  | 0, _, _, c => .ok c
  | fuel+1, m, iSize, c =>
    if iSize = 0 then .ok c
    else do
      let iNAL := AnnexB.H264_find_NAL m iSize
      let c ← c.next behind o m iNAL
      turns behind o fuel (shift m iNAL) (iSize-iNAL) c

def Conversion.start (s : MP4MediaConverter) (extra_data : Bytes) (iSize : ℕ) : Conversion where
  toMP4MediaConverter := clearParameterSets s
  bExtract := false
  extra_data := extra_data
  pPckt := { MediaPacket.new .media .video iSize with mux := .MOV }

def convertMP4Video (behind : Memory) (o : Skips) (s : MP4MediaConverter) (pBuffer : Memory) (iSize : ℕ)
    (extra_data : Bytes) : Except SirannonException Conversion :=
  Conversion.turns behind o iSize pBuffer iSize (Conversion.start s extra_data iSize)

/-! ## Streams -/

/-- A NAL unit behind a start code, of three bytes or of four. -/
structure CodedUnit where
  bShort : Bool
  nal : Bytes
  nonempty : nal ≠ []
  clean : ¬AnnexB.pattern <:+: nal

def startCode (bShort : Bool) : Bytes := if bShort then [0, 0, 1] else [0, 0, 0, 1]

def annexB (units : List CodedUnit) : Bytes := units.flatMap fun u => startCode u.bShort ++ u.nal

def nalType (nal : Bytes) : ℕ := (nal.headD 0).toNat%2^5

def Skips.keeps (o : Skips) (iType : ℕ) : Bool := !isParameterSet iType && !o.drops iType

/-- The units that are neither parameter sets nor left out. -/
def Skips.kept (o : Skips) (nals : List Bytes) : List Bytes := nals.filter fun u => o.keeps (nalType u)

/-- A big-endian number. -/
def lengthField (n : ℕ) : Bytes :=
  [UInt8.ofNat (n/2^24), UInt8.ofNat (n/2^16), UInt8.ofNat (n/2^8), UInt8.ofNat n]

def withLengths (nals : List Bytes) : Bytes := nals.flatMap fun u => lengthField u.length ++ u

/-- The scanner takes a last zero for a part of the start code behind it. -/
def trimmed (u : CodedUnit) : List CodedUnit → Bytes
  | [] => u.nal
  | v::_ => if v.bShort ∧ u.nal.getLast? = some 0 then u.nal.dropLast else u.nal

/-- The units as the scanner finds them. -/
def scanned : List CodedUnit → List Bytes
  | [] => []
  | u::us => trimmed u us::scanned us

/-! ## Scanning -/

variable {m : Memory} {s : Bytes} {b₁ b₂ b₃ : UInt8} {u v : CodedUnit} {us : List CodedUnit}
  {o : Skips} {room : ℕ}

/-- In front of a start code there is none. -/
theorem firstCode_before {w : Bytes} (hclean : ¬AnnexB.pattern <:+: b₂::b₃::w) (t : Bytes) :
    AnnexB.firstCode b₁ b₂ b₃ (w ++ 0::0::1::t) =
      some (w.length+3, if (b₃::w).getLast? = some 0 then 4 else 3) := by
  induction w generalizing b₁ b₂ b₃ with
  | nil => simp [AnnexB.firstCode]
  | cons b w ih =>
    have hno : ¬ (b₂ = 0 ∧ b₃ = 0 ∧ b = 1) := by
      rintro ⟨rfl, rfl, rfl⟩
      exact hclean ⟨[], w, rfl⟩
    have hrest : ¬AnnexB.pattern <:+: b₃::b::w := fun h => hclean (List.infix_cons h)
    rw [List.cons_append, AnnexB.firstCode, if_neg hno, ih hrest]
    simp [List.getLast?_cons_cons]

/-- Without the pattern there is no start code. -/
theorem firstCode_clean {w : Bytes} (hclean : ¬AnnexB.pattern <:+: b₂::b₃::w) :
    AnnexB.firstCode b₁ b₂ b₃ w = none := by
  induction w generalizing b₁ b₂ b₃ with
  | nil => rfl
  | cons b w ih =>
    have hno : ¬ (b₂ = 0 ∧ b₃ = 0 ∧ b = 1) := by
      rintro ⟨rfl, rfl, rfl⟩
      exact hclean ⟨[], w, rfl⟩
    rw [AnnexB.firstCode, if_neg hno, ih fun h => hclean (List.infix_cons h)]
    rfl

theorem clean_ones {w : Bytes} (h : ¬AnnexB.pattern <:+: w) : ¬AnnexB.pattern <:+: 0xFF::0xFF::w := by
  intro hin
  rcases List.infix_cons_iff.mp hin with ⟨t, ht⟩ | hin
  · exact absurd (List.cons.inj ht).1 (by decide)
  · rcases List.infix_cons_iff.mp hin with ⟨t, ht⟩ | hin
    · exact absurd (List.cons.inj ht).1 (by decide)
    · exact h hin

/-- A zero behind a unit completes no start code. -/
theorem clean_zero {w : Bytes} (h : ¬AnnexB.pattern <:+: w) : ¬AnnexB.pattern <:+: w ++ [0] := by
  rintro ⟨x, y, hxy⟩
  rcases List.eq_nil_or_concat y with rfl | ⟨y, b, rfl⟩
  · rw [List.append_nil] at hxy
    have hlast := congrArg List.getLast? hxy
    simp [AnnexB.pattern] at hlast
  · rw [List.concat_eq_append, ← List.append_assoc] at hxy
    exact h ⟨x, y, (List.append_inj' hxy rfl).1⟩

/-- What is left of a stream: the code of the next unit may have got one byte longer. -/
def Left (s : Bytes) : List CodedUnit → Prop
  | [] => s = []
  | u::us => ∃ c, (c = [0, 0, 1] ∨ c = [0, 0, 0, 1]) ∧ s = c ++ (u.nal ++ annexB us)

theorem left_all (us : List CodedUnit) : Left (annexB us) us := by
  cases us with
  | nil => rfl
  | cons u us =>
    refine ⟨startCode u.bShort, ?_, ?_⟩
    · rw [startCode]
      split_ifs
      · exact Or.inl rfl
      · exact Or.inr rfl
    · rw [annexB, List.flatMap_cons, List.append_assoc]
      rfl

theorem annexB_cons (v : CodedUnit) (us : List CodedUnit) :
    annexB (v::us) = (if v.bShort then [] else [0]) ++ 0::0::1::(v.nal ++ annexB us) := by
  rw [annexB, List.flatMap_cons, startCode]
  cases v.bShort <;> rfl

theorem code_standing {c t : Bytes} (hc : c = [0, 0, 1] ∨ c = [0, 0, 0, 1]) :
    AnnexB.code (c ++ t) = c.length := by
  rcases hc with rfl | rfl
  · rfl
  · rfl

/-- The zero in front of a short code belongs to it. -/
theorem trimmed_front (u v : CodedUnit) (us : List CodedUnit) : ∃ c, (c = [0, 0, 1] ∨ c = [0, 0, 0, 1]) ∧
    (if (0xFF::(u.nal ++ if v.bShort then [] else [0])).getLast? = some 0 then 4 else 3) = c.length ∧
      u.nal ++ annexB (v::us) = trimmed u (v::us) ++ (c ++ (v.nal ++ annexB us)) := by
  obtain ⟨w, b, hw⟩ : ∃ w b, u.nal = w ++ [b] := by
    rcases List.eq_nil_or_concat u.nal with hnil | ⟨w, b, hw⟩
    · exact absurd hnil u.nonempty
    · exact ⟨w, b, by rw [hw, List.concat_eq_append]⟩
  rw [annexB_cons, trimmed]
  cases hshort : v.bShort with
  | true =>
    by_cases hb : b = 0
    · refine ⟨[0, 0, 0, 1], Or.inr rfl, ?_, ?_⟩
      · simp [hw, hb, List.getLast?_cons]
      · simp [hw, hb]
    · refine ⟨[0, 0, 1], Or.inl rfl, ?_, ?_⟩
      · simp [hw, hb, List.getLast?_cons]
      · simp [hw, hb]
  | false =>
    refine ⟨[0, 0, 0, 1], Or.inr rfl, ?_, ?_⟩
    · simp [List.getLast?_cons]
    · simp

/-- The scanner finds a unit and what is left behind it. -/
theorem unit_scanned {c : Bytes} (hc : c = [0, 0, 1] ∨ c = [0, 0, 0, 1])
    (hs : s = c ++ (u.nal ++ annexB us)) :
    AnnexB.unitLength s = (c ++ trimmed u us).length ∧ s.take (AnnexB.unitLength s) = c ++ trimmed u us ∧
      Left (s.drop (AnnexB.unitLength s)) us := by
  have hcode : AnnexB.code s = c.length := by
    rw [hs]
    exact code_standing hc
  have hdrop : s.drop (AnnexB.code s) = u.nal ++ annexB us := by
    rw [hcode, hs, List.drop_left]
  have hones := clean_ones u.clean
  cases us with
  | nil =>
    have hwhole : s = c ++ u.nal := by rw [hs, annexB, List.flatMap_nil, List.append_nil]
    have hnone : AnnexB.behindCode s = none := by
      rw [AnnexB.behindCode, hdrop, annexB, List.flatMap_nil, List.append_nil]
      exact firstCode_clean hones
    have hlength := (AnnexB.unit_last hnone).1
    refine ⟨?_, ?_, ?_⟩
    · rw [hlength, hwhole, trimmed]
    · rw [hlength, List.take_length, hwhole, trimmed]
    · rw [hlength, List.drop_length]
      rfl
  | cons v us =>
    obtain ⟨c', hc', hcount, hfront⟩ := trimmed_front u v us
    have hclean : ¬AnnexB.pattern <:+: 0xFF::0xFF::(u.nal ++ if v.bShort then [] else [0]) := by
      apply clean_ones
      split_ifs
      · rw [List.append_nil]
        exact u.clean
      · exact clean_zero u.clean
    have hfound : AnnexB.behindCode s =
        some ((u.nal ++ if v.bShort then [] else [0]).length+3, c'.length) := by
      rw [AnnexB.behindCode, hdrop, annexB_cons, ← List.append_assoc, firstCode_before hclean, hcount]
    have hsum := congrArg List.length hfront
    rw [annexB_cons, ← List.append_assoc] at hsum
    simp only [List.length_append, List.length_cons] at hsum
    have hlength : AnnexB.unitLength s = (c ++ trimmed u (v::us)).length := by
      rw [AnnexB.unitLength, hfound, hcode]
      simp only [List.length_append]
      omega
    have hsplit : s = (c ++ trimmed u (v::us)) ++ (c' ++ (v.nal ++ annexB us)) := by
      rw [hs, hfront, List.append_assoc]
    refine ⟨hlength, ?_, ?_⟩
    · rw [hlength, hsplit, List.take_left]
    · rw [hlength, hsplit, List.drop_left]
      exact ⟨c', hc', rfl⟩

/-! ## Types -/

theorem nal_cons (u : CodedUnit) : ∃ b rest, u.nal = b::rest := by
  cases h : u.nal with
  | nil => exact absurd h u.nonempty
  | cons b rest => exact ⟨b, rest, rfl⟩

theorem trimmed_type (u : CodedUnit) (us : List CodedUnit) : nalType (trimmed u us) = nalType u.nal := by
  cases us with
  | nil => rfl
  | cons v us =>
    rw [trimmed]
    split_ifs with hzero
    · obtain ⟨b, rest, hu⟩ := nal_cons u
      rw [hu] at hzero ⊢
      cases rest with
      | nil =>
        obtain rfl : b = 0 := by simpa using hzero.2
        rfl
      | cons b' rest => rfl
    · rfl

/-- The type is read behind the code. -/
theorem type_standing {c t : Bytes} (hc : c = [0, 0, 1] ∨ c = [0, 0, 0, 1])
    (hm : Stored m 0 (c ++ (u.nal ++ t))) :
    H264_is_start_code m = c.length ∧ H264_NAL_type m = nalType u.nal := by
  have hcode : H264_is_start_code m = c.length := by
    have hpos : AnnexB.code (c ++ (u.nal ++ t)) = c.length := code_standing hc
    rw [AnnexB.code_stored hm (by rcases hc with rfl | rfl <;> rw [hpos] <;> decide), hpos]
  obtain ⟨b, rest, hu⟩ := nal_cons u
  rw [stored_append, Nat.zero_add, hu, List.cons_append, stored_cons] at hm
  refine ⟨hcode, ?_⟩
  rw [H264_NAL_type, hcode, hm.2.1, hu, nalType]
  rfl


/-! ## Lengths -/

theorem lengthField_bits (n : ℕ) : ofBytes (lengthField n) = ofNat 32 n := by
  have hbyte : ∀ k, ofNat 8 (UInt8.ofNat k).toNat = ofNat 8 k := fun k => by
    rw [UInt8.toNat_ofNat']
    exact ofNat_mod 8 k
  simp only [lengthField, ofBytes_cons, ofBytes_nil, hbyte, List.append_nil]
  rw [show (32 : ℕ) = 8+24 by rfl, ofNat_add 8 24, show (24 : ℕ) = 8+16 by rfl, ofNat_add 8 16,
    show (16 : ℕ) = 8+8 by rfl, ofNat_add 8 8]

theorem withLengths_cons (w : Bytes) (ws : List Bytes) :
    withLengths (w::ws) = lengthField w.length ++ (w ++ withLengths ws) := by
  rw [withLengths, List.flatMap_cons, List.append_assoc]
  rfl

theorem length_written (n : ℕ) : ∃ oHeader, (OBits.new 4).write 32 n = .ok oHeader ∧
    oHeader.data = lengthField n := by
  have hnew : ∃ o, (OBits.new 4).writes [(32, n)] = .ok o ∧ ofBytes o.data = fieldBits [(32, n)] ∧
      o.data.length = 4 := OBits.writes_new [(32, n)] rfl le_rfl (by simp)
  obtain ⟨o', hrun, hbits, -⟩ := hnew
  obtain ⟨oHeader, hwrite, hlast⟩ := bind_ok.1 hrun
  cases hlast
  refine ⟨_, hwrite, ?_⟩
  rw [← pack_ofBytes (OBits.data _), hbits, ← pack_ofBytes (lengthField n), lengthField_bits]
  simp [fieldBits]

/-- A packet that was made for `n` bytes. -/
structure MadeFor (n : ℕ) (p : MediaPacket) : Prop where
  iFront : p.iFront = iBufferSpace
  max_size : p.max_size = n+2*iBufferSpace

theorem MadeFor.pushed {n : ℕ} {p : MediaPacket} (h : MadeFor n p) (buffer : Bytes) :
    MadeFor n (p.pushed buffer) := ⟨h.iFront, h.max_size⟩

theorem MadeFor.push_back {n : ℕ} {p : MediaPacket} (h : MadeFor n p) (buffer : Bytes) :
    p.push_back buffer = if p.size+buffer.length < n+iBufferSpace then .ok (p.pushed buffer)
      else .error (outOfBoundsError "MediaPacket overflow") := by
  rw [MediaPacket.push_back, h.iFront, h.max_size]
  by_cases hroom : p.size+buffer.length < n+iBufferSpace
  · rw [if_pos hroom, if_neg (by omega)]
  · rw [if_neg hroom, if_pos (by omega)]

theorem pushed_size (p : MediaPacket) (buffer : Bytes) :
    (p.pushed buffer).size = p.size+buffer.length := by
  rw [MediaPacket.size, pushed_bytes, List.length_append, MediaPacket.size]

/-- A length and its unit are written when both fit. -/
theorem writeUnit_outcome {n iNAL iHeader : ℕ} {p : MediaPacket} {w : Bytes} (h : MadeFor n p)
    (hnal : iNAL = iHeader+w.length) (hload : load m iHeader w.length = w) (hlength : w.length < 2^32) :
    if p.size+(4+w.length) < n+iBufferSpace then
      writeUnit m iNAL iHeader p = .ok ((p.pushed (lengthField w.length)).pushed w)
    else ∃ e, writeUnit m iNAL iHeader p = .error e := by
  have hvalue : uint32 ((iNAL : ℤ)-iHeader) = w.length := by
    have hcast := uint32_of_bounds (x := (iNAL : ℤ)-iHeader) (by omega) (by omega)
    omega
  obtain ⟨oHeader, hwrite, hdata⟩ := length_written w.length
  have hfour : oHeader.data.length = 4 := by
    rw [hdata]
    rfl
  have hback : ¬iNAL < iHeader := by omega
  have hmax := h.max_size
  have hfront := h.iFront
  rw [writeUnit, hvalue, hwrite]
  simp only [bind, Except.bind, if_neg hback]
  rw [h.push_back, hfour]
  by_cases hundefined : p.max_size < p.iFront+p.size+4
  · rw [if_neg (by omega), if_pos hundefined]
    exact ⟨_, rfl⟩
  · rw [if_neg hundefined]
    by_cases hfirst : p.size+4 < n+iBufferSpace
    · simp only [if_pos hfirst]
      rw [(h.pushed _).push_back, pushed_size, hfour, hnal, Nat.add_sub_cancel_left, hload, hdata,
        ← Nat.add_assoc]
      split_ifs
      · rfl
      · exact ⟨_, rfl⟩
    · simp only [if_neg hfirst]
      rw [if_neg (by omega)]
      exact ⟨_, rfl⟩

/-! ## Parameter sets put aside -/

/-- The parameter sets a unit is about to make a record of. -/
structure Aside where
  spss : List Bytes
  ppss : List Bytes

def Aside.add (a : Aside) (nal : Bytes) : Aside :=
  if nalType nal = NAL_UNIT_TYPE_PPS then { a with ppss := a.ppss ++ [nal] }
  else { a with spss := a.spss ++ [nal] }

/-- There is room for a record of them, if there will be one. -/
def Aside.Fits (room : ℕ) (a : Aside) : Prop :=
  a.spss ≠ [] → a.ppss ≠ [] → recordSize a.spss a.ppss ≤ room

/-- In front of each unit that is written there is room for the record. -/
def RecordsFit (o : Skips) (room : ℕ) : Option Aside → List Bytes → Prop
  | _, [] => True
  | pending, w::ws =>
    if isParameterSet (nalType w) then RecordsFit o room (some ((pending.getD ⟨[], []⟩).add w)) ws
    else if o.drops (nalType w) then RecordsFit o room pending ws
    else (∀ a ∈ pending, a.Fits room) ∧ RecordsFit o room none ws

/-- What the converter has put aside. -/
structure PutAside (room : ℕ) (pending : Option Aside) (c : Conversion) : Prop where
  room : c.oVideoExtra.iBytes = room
  bExtract : c.bExtract = pending.isSome
  vSPS : ∀ a ∈ pending, List.Forall₂ Parameter c.vSPS a.spss
  vPPS : ∀ a ∈ pending, List.Forall₂ Parameter c.vPPS a.ppss

theorem put_aside {pending : Option Aside} {c : Conversion} (h : PutAside room pending c) {p : MediaPacket}
    {w : Bytes} (hp : Parameter p w) :
    PutAside room (some ((pending.getD ⟨[], []⟩).add w)) (c.param (nalType w) p) := by
  have hone : List.Forall₂ Parameter [p] [w] := List.Forall₂.cons hp List.Forall₂.nil
  have hextract := h.bExtract
  have hbefore : ∃ s, (if c.bExtract then c.toMP4MediaConverter
      else clearParameterSets c.toMP4MediaConverter) = s ∧ s.oVideoExtra = c.oVideoExtra ∧
      List.Forall₂ Parameter s.vSPS (pending.getD ⟨[], []⟩).spss ∧
      List.Forall₂ Parameter s.vPPS (pending.getD ⟨[], []⟩).ppss := by
    cases pending with
    | none =>
      rw [hextract]
      exact ⟨_, rfl, rfl, List.Forall₂.nil, List.Forall₂.nil⟩
    | some a =>
      rw [hextract]
      exact ⟨_, rfl, rfl, h.vSPS a rfl, h.vPPS a rfl⟩
  obtain ⟨s, hs, hroom, hsps, hpps⟩ := hbefore
  have hparam : c.param (nalType w) p =
      { c with toMP4MediaConverter := addParameterSet s (nalType w) p, bExtract := true } := by
    rw [Conversion.param, hs]
  rw [hparam, addParameterSet, Aside.add]
  by_cases hkind : nalType w = NAL_UNIT_TYPE_PPS
  · rw [if_pos hkind, if_pos hkind]
    constructor
    · exact (congrArg OBuffer.iBytes hroom).trans h.room
    · rfl
    · rintro a ⟨⟩
      exact hsps
    · rintro a ⟨⟩
      exact List.rel_append hpps hone
  · rw [if_neg hkind, if_neg hkind]
    constructor
    · exact (congrArg OBuffer.iBytes hroom).trans h.room
    · rfl
    · rintro a ⟨⟩
      exact List.rel_append hsps hone
    · rintro a ⟨⟩
      exact hpps

/-- Without parameter sets of both kinds nothing is made. -/
theorem annexb2avcc_none (behind : Memory) {s : MP4MediaConverter} (h : s.vSPS = [] ∨ s.vPPS = []) :
    s.ANNEXB2AVCC behind = .ok (none, s) := by
  rw [MP4MediaConverter.ANNEXB2AVCC]
  split
  · rename_i hS hP
    rcases h with h | h
    · rw [h] at hS
      cases hS
    · rw [h] at hP
      cases hP
  · rfl

theorem forall_nil {v : List MediaPacket} {ws : List Bytes} (h : List.Forall₂ Parameter v ws) :
    ws = [] ↔ v = [] := by
  rw [← List.length_eq_zero_iff, ← List.length_eq_zero_iff, h.length_eq]

theorem annexb2avcc_outcome (behind : Memory) {s : MP4MediaConverter} {a : Aside}
    (hroom : s.oVideoExtra.iBytes = room) (hsps : List.Forall₂ Parameter s.vSPS a.spss)
    (hpps : List.Forall₂ Parameter s.vPPS a.ppss) :
    (a.Fits room → ∃ r, s.ANNEXB2AVCC behind = .ok r ∧ r.2.oVideoExtra.iBytes = room) ∧
      (¬a.Fits room → ∃ e, s.ANNEXB2AVCC behind = .error e) := by
  by_cases hmissing : s.vSPS = [] ∨ s.vPPS = []
  · rw [annexb2avcc_none behind hmissing]
    refine ⟨fun _ => ⟨_, rfl, hroom⟩, fun hnot => (hnot ?_).elim⟩
    intro hS hP
    rcases hmissing with h | h
    · exact absurd ((forall_nil hsps).mpr h) hS
    · exact absurd ((forall_nil hpps).mpr h) hP
  · rw [not_or] at hmissing
    obtain ⟨pSPS, v, hvSPS⟩ := List.exists_cons_of_ne_nil hmissing.1
    obtain ⟨pPPS, w, hvPPS⟩ := List.exists_cons_of_ne_nil hmissing.2
    have hbuilt := annexb2avcc_fits behind hvSPS hvPPS hsps hpps
    have hfits : a.Fits room ↔ recordSize a.spss a.ppss ≤ s.oVideoExtra.iBytes := by
      rw [Aside.Fits, hroom]
      exact ⟨fun h => h (fun hnil => hmissing.1 ((forall_nil hsps).mp hnil))
        fun hnil => hmissing.2 ((forall_nil hpps).mp hnil), fun h _ _ => h⟩
    rw [Bits.Fits] at hbuilt
    rw [hfits]
    split_ifs at hbuilt with hfit
    · obtain ⟨r, hr, -, hbytes⟩ := hbuilt
      exact ⟨fun _ => ⟨r, hr, hbytes.trans hroom⟩, fun hnot => absurd hfit hnot⟩
    · exact ⟨fun h => absurd h hfit, fun _ => hbuilt⟩

theorem extract_outcome (behind : Memory) {pending : Option Aside} {c : Conversion}
    (h : PutAside room pending c) :
    ((∀ a ∈ pending, a.Fits room) →
      ∃ c', c.extract behind = .ok c' ∧ PutAside room none c' ∧ c'.pPckt = c.pPckt) ∧
      ((¬∀ a ∈ pending, a.Fits room) → ∃ e, c.extract behind = .error e) := by
  have hextract := h.bExtract
  cases pending with
  | none =>
    rw [Conversion.extract, hextract]
    exact ⟨fun _ => ⟨c, rfl, h, rfl⟩, fun hnot => (hnot (by simp)).elim⟩
  | some a =>
    obtain ⟨hok, herror⟩ := annexb2avcc_outcome behind h.room (h.vSPS a rfl) (h.vPPS a rfl)
    have hmem : (∀ b ∈ some a, Aside.Fits room b) ↔ a.Fits room := by simp
    rw [Conversion.extract, hextract, hmem]
    constructor
    · intro hfits
      obtain ⟨r, hr, hroom⟩ := hok hfits
      rw [hr]
      exact ⟨_, rfl, ⟨hroom, rfl, by simp, by simp⟩, rfl⟩
    · intro hnot
      obtain ⟨e, he⟩ := herror hnot
      rw [he]
      exact ⟨e, rfl⟩

/-! ## A whole stream -/

/-- A computation succeeds on a condition. -/
def Succeeds {α : Type} (condition : Prop) (r : Except SirannonException α) (Q : α → Prop) : Prop :=
  (condition → ∃ a, r = .ok a ∧ Q a) ∧ (¬condition → ∃ e, r = .error e)

/-- A parameter set with its code. -/
theorem parameter_pushed {c w : Bytes} (hc : c = [0, 0, 1] ∨ c = [0, 0, 0, 1])
    (hkind : isParameterSet (nalType w) = true) : ∃ p,
      (MediaPacket.new .media .video (c ++ w).length).push_back (c ++ w) = .ok p ∧ Parameter p w := by
  refine ⟨_, new_push_back .media .video _ (c ++ w) le_rfl, ⟨c, rfl, Or.inr hc⟩, ?_⟩
  cases w with
  | nil => exact absurd hkind (by decide)
  | cons b w =>
    refine ⟨b, w, rfl, ?_⟩
    rintro rfl
    rw [show nalType (0::w) = 0 from rfl] at hkind
    exact absurd hkind (by decide)

theorem kept_cons (o : Skips) (w : Bytes) (ws : List Bytes) :
    o.kept (w::ws) = if o.keeps (nalType w) then w::o.kept ws else o.kept ws := by
  rw [Skips.kept, List.filter_cons, ← Skips.kept]

theorem kept_append (o : Skips) (ws xs : List Bytes) : o.kept (ws ++ xs) = o.kept ws ++ o.kept xs :=
  List.filter_append ..

theorem withLengths_append (ws xs : List Bytes) :
    withLengths (ws ++ xs) = withLengths ws ++ withLengths xs := List.flatMap_append

theorem succeeds_bind {α β : Type} {A B : Prop} {r : Except SirannonException α} {Q : α → Prop}
    {k : α → Except SirannonException β} {R : β → Prop} (h : Succeeds A r Q)
    (hk : ∀ a, Q a → Succeeds B (k a) R) : Succeeds (A ∧ B) (r >>= k) R := by
  constructor
  · rintro ⟨hA, hB⟩
    obtain ⟨a, ha, hQ⟩ := h.1 hA
    rw [ha]
    exact (hk a hQ).1 hB
  · intro hnot
    by_cases hA : A
    · obtain ⟨a, ha, hQ⟩ := h.1 hA
      rw [ha]
      exact (hk a hQ).2 fun hB => hnot ⟨hA, hB⟩
    · obtain ⟨e, he⟩ := h.2 hA
      rw [he]
      exact ⟨e, rfl⟩

/-- There is room for the units that are written and for the records. -/
def Writable (o : Skips) (room n iSize : ℕ) (pending : Option Aside) (ws : List Bytes) : Prop :=
  iSize+(withLengths (o.kept ws)).length < n+iBufferSpace ∧ RecordsFit o room pending ws

/-- What is put aside after a unit. -/
def asideAfter (o : Skips) (pending : Option Aside) (w : Bytes) : Option Aside :=
  if isParameterSet (nalType w) then some ((pending.getD ⟨[], []⟩).add w)
  else if o.drops (nalType w) then pending
  else none

theorem keeps_iff (o : Skips) (iType : ℕ) :
    o.keeps iType = true ↔ ¬isParameterSet iType = true ∧ ¬o.drops iType = true := by
  simp [Skips.keeps]

theorem recordsFit_cons (o : Skips) (room : ℕ) (pending : Option Aside) (w : Bytes) (ws : List Bytes) :
    RecordsFit o room pending (w::ws) ↔
      RecordsFit o room pending [w] ∧ RecordsFit o room (asideAfter o pending w) ws := by
  rw [asideAfter]
  simp only [RecordsFit]
  split_ifs <;> simp

theorem writable_cons (o : Skips) (room n iSize : ℕ) (pending : Option Aside) (w : Bytes) (ws : List Bytes) :
    Writable o room n iSize pending (w::ws) ↔ Writable o room n iSize pending [w] ∧
      Writable o room n (iSize+(withLengths (o.kept [w])).length) (asideAfter o pending w) ws := by
  have hlengths : (withLengths (o.kept (w::ws))).length =
      (withLengths (o.kept [w])).length+(withLengths (o.kept ws)).length := by
    rw [← List.length_append, ← withLengths_append, ← kept_append, List.singleton_append]
  rw [Writable, Writable, Writable, recordsFit_cons, hlengths]
  constructor
  · rintro ⟨hroom, hone, hrest⟩
    exact ⟨⟨by omega, hone⟩, by omega, hrest⟩
  · rintro ⟨⟨-, hone⟩, hroom, hrest⟩
    exact ⟨by omega, hone, hrest⟩

/-- One unit. -/
theorem next_outcome (behind : Memory) {n : ℕ} {c : Conversion} {pending : Option Aside} {h w : Bytes}
    (hh : h = [0, 0, 1] ∨ h = [0, 0, 0, 1]) (hcode : H264_is_start_code m = h.length)
    (htype : H264_NAL_type m = nalType w) (hload : load m 0 (h ++ w).length = h ++ w)
    (hlength : w.length < 2^32) (hmade : MadeFor n c.pPckt) (haside : PutAside room pending c)
    (hsize : c.pPckt.size < n+iBufferSpace) :
    Succeeds (Writable o room n c.pPckt.size pending [w]) (c.next behind o m (h ++ w).length) fun c' =>
      MadeFor n c'.pPckt ∧ PutAside room (asideAfter o pending w) c' ∧ c'.pPckt.size < n+iBufferSpace ∧
        c'.pPckt.bytes = c.pPckt.bytes ++ withLengths (o.kept [w]) := by
  have hkept := kept_cons o w []
  have hbehind : load m h.length w.length = w := by
    have hall := hload
    rw [List.length_append, load_add, Nat.zero_add] at hall
    exact (List.append_inj hall (load_length m 0 h.length)).2
  rw [Conversion.next, htype, hcode, hload, Writable, asideAfter]
  simp only [RecordsFit]
  by_cases hset : isParameterSet (nalType w) = true
  · have hno : ¬o.keeps (nalType w) = true := fun hkeep => ((keeps_iff o _).mp hkeep).1 hset
    obtain ⟨p, hp, hparam⟩ := parameter_pushed hh hset
    rw [if_neg hno] at hkept
    rw [if_pos hset, if_pos hset, if_pos hset, hkept, hp]
    refine ⟨fun _ => ⟨_, rfl, hmade, put_aside haside hparam, hsize, ?_⟩,
      fun hnot => (hnot ⟨?_, trivial⟩).elim⟩
    · simp [Skips.kept, withLengths, Conversion.param]
    · simpa [Skips.kept, withLengths] using hsize
  · rw [if_neg hset, if_neg hset, if_neg hset]
    by_cases hdrop : o.drops (nalType w) = true
    · have hno : ¬o.keeps (nalType w) = true := fun hkeep => ((keeps_iff o _).mp hkeep).2 hdrop
      rw [if_neg hno] at hkept
      rw [if_pos hdrop, if_pos hdrop, if_pos hdrop, hkept]
      refine ⟨fun _ => ⟨_, rfl, hmade, haside, hsize, ?_⟩, fun hnot => (hnot ⟨?_, trivial⟩).elim⟩
      · simp [Skips.kept, withLengths]
      · simpa [Skips.kept, withLengths] using hsize
    · rw [if_pos ((keeps_iff o _).mpr ⟨hset, hdrop⟩)] at hkept
      rw [if_neg hdrop, if_neg hdrop, if_neg hdrop, hkept, and_true]
      have hlengths : (withLengths (w::o.kept [])).length = 4+w.length := by
        simp [Skips.kept, withLengths, lengthField]
        omega
      rw [hlengths]
      have hsum : (h ++ w).length = h.length+w.length := List.length_append
      have hwrite := writeUnit_outcome (m := m) hmade hsum hbehind hlength
      have hwritten : Succeeds (c.pPckt.size+(4+w.length) < n+iBufferSpace)
          (writeUnit m (h ++ w).length h.length c.pPckt) fun p =>
            p = (c.pPckt.pushed (lengthField w.length)).pushed w ∧ p.size < n+iBufferSpace := by
        split_ifs at hwrite with hroom
        · refine ⟨fun _ => ⟨_, hwrite, rfl, ?_⟩, fun hnot => absurd hroom hnot⟩
          rw [pushed_size, pushed_size]
          show c.pPckt.size+4+w.length < _
          omega
        · exact ⟨fun h => absurd h hroom, fun _ => hwrite⟩
      apply succeeds_bind hwritten
      · rintro p ⟨rfl, hsmall⟩
        have haside' : PutAside room pending
            { c with pPckt := (c.pPckt.pushed (lengthField w.length)).pushed w } :=
          ⟨haside.room, haside.bExtract, haside.vSPS, haside.vPPS⟩
        obtain ⟨hok, herror⟩ := extract_outcome behind haside'
        refine ⟨fun hfits => ?_, herror⟩
        obtain ⟨c', hc', hnone, hpacket⟩ := hok hfits
        refine ⟨c', hc', ?_, hnone, ?_, ?_⟩
        · rw [hpacket]
          exact (hmade.pushed _).pushed _
        · rw [hpacket]
          exact hsmall
        · rw [hpacket]
          simp [Skips.kept, withLengths]

theorem turns_outcome (behind : Memory) {n fuel : ℕ} {c : Conversion} {pending : Option Aside}
    (hm : Stored m 0 s) (hleft : Left s us) (hfuel : s.length ≤ fuel) (hlength : s.length < 2^32)
    (hmade : MadeFor n c.pPckt) (haside : PutAside room pending c) (hsize : c.pPckt.size < n+iBufferSpace) :
    Succeeds (Writable o room n c.pPckt.size pending (scanned us))
      (c.turns behind o fuel m s.length) fun c' => c'.pPckt.bytes = c.pPckt.bytes ++ withLengths (o.kept (scanned us)) := by
  induction us generalizing m s fuel c pending with
  | nil =>
    obtain rfl : s = [] := hleft
    have hdone : c.turns behind o fuel m 0 = .ok c := by
      cases fuel with
      | zero => rfl
      | succ fuel => rfl
    refine ⟨fun _ => ⟨c, hdone, ?_⟩, fun hnot => (hnot ⟨hsize, trivial⟩).elim⟩
    simp [scanned, Skips.kept, withLengths]
  | cons u us ih =>
    obtain ⟨h, hh, hs⟩ := hleft
    obtain ⟨hunit, htake, hrest⟩ := unit_scanned hh hs
    obtain ⟨hcode, htype⟩ := type_standing hh (hs ▸ hm)
    have hpos : 0 < AnnexB.code s := by
      rw [hs, code_standing hh]
      rcases hh with rfl | rfl <;> decide
    have hfind := AnnexB.find_whole hm hpos
    have hbounds := AnnexB.unit_bounds hpos
    have hsplit := hm
    rw [← List.take_append_drop (AnnexB.unitLength s) s, stored_append, List.length_take,
      Nat.min_eq_left hbounds.2.1, Nat.zero_add] at hsplit
    have hnext : Stored (shift m (AnnexB.unitLength s)) 0 (s.drop (AnnexB.unitLength s)) :=
      stored_shift.mpr hsplit.2
    have hload : load m 0 (AnnexB.unitLength s) = h ++ trimmed u us := by
      have htaken := hsplit.1
      rw [Stored, List.length_take, Nat.min_eq_left hbounds.2.1] at htaken
      rw [htaken, htake]
    have hdropped : (s.drop (AnnexB.unitLength s)).length = s.length-AnnexB.unitLength s :=
      List.length_drop
    cases fuel with
    | zero => omega
    | succ fuel =>
      rw [Conversion.turns, if_neg (by omega), hfind]
      dsimp only
      have hless : (s.drop (AnnexB.unitLength s)).length ≤ fuel := by omega
      have hshorter : (s.drop (AnnexB.unitLength s)).length < 2^32 := by omega
      rw [← hdropped, scanned, writable_cons]
      rw [hunit] at hload hnext hrest hless hshorter ⊢
      have hshort := congrArg List.length hs
      simp only [List.length_append] at hshort hunit
      apply succeeds_bind (next_outcome behind hh hcode (htype.trans (trimmed_type u us).symm) hload
        (by omega) hmade haside hsize)
      rintro c' ⟨hmade', haside', hsmall, hbytes⟩
      have hsize' : c'.pPckt.size = c.pPckt.size+(withLengths (o.kept [trimmed u us])).length := by
        rw [MediaPacket.size, hbytes, List.length_append, MediaPacket.size]
      have hend := ih hnext hrest hless hshorter hmade' haside' hsmall
      rw [hsize'] at hend
      have hwhole : c.pPckt.bytes ++ withLengths (o.kept (trimmed u us::scanned us)) =
          c'.pPckt.bytes ++ withLengths (o.kept (scanned us)) := by
        rw [hbytes, List.append_assoc, ← withLengths_append, ← kept_append, List.singleton_append]
      rw [hwhole]
      exact hend

/-! ## The result -/

variable {units : List CodedUnit}

theorem convertMP4Video_outcome (behind : Memory) (o : Skips) (s : MP4MediaConverter) (extra_data : Bytes)
    (hm : Stored m 0 (annexB units)) (hlength : (annexB units).length < 2^32) :
    Succeeds (Writable o s.oVideoExtra.iBytes (annexB units).length 0 none (scanned units))
      (convertMP4Video behind o s m (annexB units).length extra_data) fun c =>
        c.pPckt.bytes = withLengths (o.kept (scanned units)) :=
  turns_outcome (c := Conversion.start s extra_data (annexB units).length) behind hm (left_all units) le_rfl
    hlength ⟨rfl, rfl⟩ ⟨rfl, rfl, by simp, by simp⟩
    (Nat.lt_of_lt_of_le (show 0 < iBufferSpace by decide) (Nat.le_add_left _ _))

/-- No unit that is written ends with a zero in front of a short start code. -/
def Separate (o : Skips) : List CodedUnit → Prop
  | u::v::us => (o.keeps (nalType u.nal) → v.bShort → u.nal.getLast? ≠ some 0) ∧ Separate o (v::us)
  | _ => True

theorem trimmed_length (u : CodedUnit) (us : List CodedUnit) :
    trimmed u us = u.nal ∨ (trimmed u us).length < u.nal.length := by
  cases us with
  | nil => exact Or.inl rfl
  | cons v us =>
    rw [trimmed]
    split_ifs
    · right
      rw [List.length_dropLast]
      have hpos := List.length_pos_iff.mpr u.nonempty
      omega
    · exact Or.inl rfl

theorem trimmed_whole (u v : CodedUnit) (us : List CodedUnit) :
    trimmed u (v::us) = u.nal ↔ (v.bShort → u.nal.getLast? ≠ some 0) := by
  rw [trimmed]
  split_ifs with hzero
  · constructor
    · intro hsame
      have hpos := List.length_pos_iff.mpr u.nonempty
      have hlength := congrArg List.length hsame
      rw [List.length_dropLast] at hlength
      omega
    · exact fun h => absurd hzero.2 (h hzero.1)
  · exact ⟨fun _ hshort hlast => hzero ⟨hshort, hlast⟩, fun _ => rfl⟩

theorem separate_cons (o : Skips) (u : CodedUnit) (us : List CodedUnit) :
    Separate o (u::us) ↔ (o.keeps (nalType u.nal) → trimmed u us = u.nal) ∧ Separate o us := by
  cases us with
  | nil => simp [Separate, trimmed]
  | cons v us => rw [Separate, trimmed_whole]

/-- The scanner shortens units, and does not lengthen any. -/
theorem scanned_kept (o : Skips) (us : List CodedUnit) :
    (Separate o us → o.kept (scanned us) = o.kept (us.map CodedUnit.nal)) ∧
      (¬Separate o us → (withLengths (o.kept (scanned us))).length <
        (withLengths (o.kept (us.map CodedUnit.nal))).length) := by
  induction us with
  | nil => exact ⟨fun _ => rfl, fun hnot => (hnot trivial).elim⟩
  | cons u us ih =>
    have hle : (withLengths (o.kept (scanned us))).length ≤
        (withLengths (o.kept (us.map CodedUnit.nal))).length := by
      by_cases hsep : Separate o us
      · rw [ih.1 hsep]
      · exact le_of_lt (ih.2 hsep)
    rw [separate_cons, scanned, List.map_cons, kept_cons, kept_cons, trimmed_type]
    split_ifs with hkeep
    · rw [withLengths_cons, withLengths_cons]
      simp only [List.length_append]
      have hfour : ∀ n, (lengthField n).length = 4 := fun n => rfl
      rw [hfour, hfour]
      constructor
      · rintro ⟨hwhole, hsep⟩
        rw [hwhole hkeep, ih.1 hsep]
      · intro hnot
        rcases trimmed_length u us with hwhole | hshort
        · have hrest := ih.2 fun hsep => hnot ⟨fun _ => hwhole, hsep⟩
          rw [hwhole]
          omega
        · omega
    · constructor
      · rintro ⟨-, hsep⟩
        exact ih.1 hsep
      · exact fun hnot => ih.2 fun hsep => hnot ⟨fun h => absurd h hkeep, hsep⟩

theorem scanned_lengths (o : Skips) (us : List CodedUnit) :
    withLengths (o.kept (scanned us)) = withLengths (o.kept (us.map CodedUnit.nal)) ↔ Separate o us := by
  constructor
  · intro hsame
    by_contra hnot
    have hless := (scanned_kept o us).2 hnot
    rw [hsame] at hless
    exact absurd hless (Nat.lt_irrefl _)
  · intro hsep
    rw [(scanned_kept o us).1 hsep]

end Sirannon.MP4Video
