import Sirannon.AMRPacketizer

/-!
# AMR payloads

The bits of a payload are those of the table of contents and those of all
frames, one after the other, and a payload can be written exactly when they
fit in a packet.
-/

set_option autoImplicit false

namespace Sirannon.AMR
open MachineInt BitString Bits Media Packetization StateError

/-! ## Frames -/

def speechBits (p : MediaPacket) : ℕ := ((mFrameTypeToSizeBits p.codec)[frameType p]?).getD 0

def speech (p : MediaPacket) : List Bool := ((ofBytes p.bytes).drop 8).take (speechBits p)

/-- A frame in the storage format: 0, the type and 100 in one byte, the bits, zeros. -/
structure Frame (codec : CodecType) (p : MediaPacket) : Prop where
  type : p.type = .media
  mux : p.mux = .ES
  known : frameType p < if codec = .anb then 8 else 9
  header : p.bytes.head? = some (UInt8.ofNat (8*frameType p+4))
  size : p.size = 1+(speechBits p+7)/8
  padding : ∀ b ∈ (ofBytes p.bytes).drop (8+speechBits p), b = false
  codec : p.codec = codec

section
variable {codec : CodecType} {p : MediaPacket}

theorem frame_type_lt (h : Frame codec p) : frameType p < 9 := by
  have hknown := h.known
  split at hknown <;> omega

theorem frame_size (h : Frame codec p) : (mFrameTypeToSizeBits codec)[frameType p]? =
    some (speechBits p) := by
  have hlt := frame_type_lt h
  have hlength : (mFrameTypeToSizeBits codec).length = 9 := by
    rw [mFrameTypeToSizeBits]
    split <;> rfl
  rw [speechBits, h.codec, List.getElem?_eq_getElem (by omega), Option.getD_some]

theorem frame_sizeBits (h : Frame codec p) :
    frameSizeBits codec (frameType p) = .ok (speechBits p) := by
  rw [frameSizeBits, frame_size h]

/-- The data behind the first byte. -/
theorem frame_form (h : Frame codec p) : ∃ data, p.bytes = UInt8.ofNat (8*frameType p+4)::data ∧
    ofBytes data = speech p ++ ofNat ((8-speechBits p%8)%8) 0 ∧
    (speech p).length = speechBits p := by
  have hsize := h.size
  have hheader := h.header
  cases hbytes : p.bytes with
  | nil =>
    rw [hbytes] at hheader
    cases hheader
  | cons b data =>
    rw [hbytes, List.head?_cons, Option.some.injEq] at hheader
    have hdrop : (ofBytes p.bytes).drop 8 = ofBytes data := by
      rw [hbytes, ofBytes_cons]
      exact List.drop_left' (ofNat_length 8 _)
    rw [MediaPacket.size, hbytes, List.length_cons] at hsize
    have hlength : (ofBytes data).length = speechBits p+(8-speechBits p%8)%8 := by
      rw [ofBytes_length]
      omega
    have hpadding : (ofBytes data).drop (speechBits p) = ofNat ((8-speechBits p%8)%8) 0 := by
      rw [ofNat_zero, List.eq_replicate_iff, List.length_drop, hlength]
      refine ⟨by omega, fun b hb => h.padding b ?_⟩
      rwa [← List.drop_drop, hdrop]
    refine ⟨data, by rw [hheader], ?_, ?_⟩
    · rw [speech, hdrop, ← hpadding, List.take_append_drop]
    · rw [speech, hdrop, List.length_take, hlength]
      omega

theorem frame_encodedBits (h : Frame codec p) : encodedBits p = .ok (speechBits p) := by
  rcases frame_form h with ⟨data, hbytes, -⟩
  rw [encodedBits, if_neg (by rw [hbytes]; simp), h.codec, frame_sizeBits h]

/-- The bits of a whole frame. -/
theorem frame_bits (h : Frame codec p) : ofBytes p.bytes =
    ofNat 1 0 ++ (ofNat 4 (frameType p) ++ (ofNat 3 4 ++
      (speech p ++ ofNat ((8-speechBits p%8)%8) 0))) := by
  rcases frame_form h with ⟨data, hbytes, hdata, -⟩
  have hlt := frame_type_lt h
  have hhead : ofNat 8 (8*frameType p+4) =
      ofNat 1 0 ++ (ofNat 4 (frameType p) ++ ofNat 3 4) := by
    rw [show 8 = 1+(4+3) by rfl, ofNat_add, ofNat_add]
    congr 1
    · apply ofNat_congr
      omega
    · congr 1
      · congr 1
        omega
      · apply ofNat_congr
        omega
  rw [hbytes, ofBytes_cons, hdata, UInt8.toNat_ofNat', Nat.mod_eq_of_lt (by omega), hhead]
  simp only [List.append_assoc]

theorem reader_upcoming (p : MediaPacket) : (reader p).Upcoming (ofBytes p.bytes) := by
  have hahead := reader_ahead (show p.bytes = p.bytes ++ [] by simp)
  rw [ofBytes_nil, List.append_nil] at hahead
  refine ⟨by rw [hahead.2.1]; exact hahead, ?_⟩
  rw [hahead.2.1, ofBytes_length]
  show 0+8*p.bytes.length ≤ 8*p.bytes.length
  omega

theorem frame_upcoming (h : Frame codec p) :
    ((reader p).seek 1).Upcoming (speech p ++ ofNat ((8-speechBits p%8)%8) 0) := by
  have hup := reader_upcoming p
  rw [frame_bits h, ← List.append_assoc, ← List.append_assoc, List.append_assoc (ofNat 1 0)] at hup
  exact IBits.upcoming_seek hup (by simp)

end

/-! ## Bits of a payload -/

def tocBits : List MediaPacket → List Bool
  | [] => []
  | p::rest => ofNat 1 (if rest = [] then 0 else 1) ++
      (ofNat 4 (frameType p) ++ (ofNat 1 1 ++ tocBits rest))

def dataBits (ps : List MediaPacket) : List Bool := ps.flatMap speech

/-- What `iPack` counts. -/
def budget (ps : List MediaPacket) : ℕ := 4+(ps.map fun p => 6+speechBits p).sum

theorem tocBits_length (ps : List MediaPacket) : (tocBits ps).length = 6*ps.length := by
  induction ps with
  | nil => rfl
  | cons p ps ih =>
    simp only [tocBits, List.length_append, ofNat_length, ih, List.length_cons]
    omega

theorem budget_snoc (ps : List MediaPacket) (p : MediaPacket) :
    budget (ps ++ [p]) = budget ps+(6+speechBits p) := by
  simp [budget, Nat.add_assoc]

theorem budget_pos (ps : List MediaPacket) : 4 ≤ budget ps := Nat.le_add_right _ _

theorem budget_single (p : MediaPacket) : budget [p] = 10+speechBits p := by
  rw [budget, List.map_singleton, List.sum_singleton]
  omega

section
variable {codec : CodecType}

theorem budget_length {ps : List MediaPacket} (h : ∀ p ∈ ps, Frame codec p) :
    budget ps = 4+6*ps.length+(dataBits ps).length := by
  induction ps with
  | nil => rfl
  | cons p ps ih =>
    have hrest := ih fun q hq => h q (List.mem_cons_of_mem p hq)
    rcases frame_form (h p List.mem_cons_self) with ⟨-, -, -, hlength⟩
    rw [budget] at hrest ⊢
    rw [dataBits, List.flatMap_cons, List.length_append, hlength, List.map_cons, List.sum_cons,
      List.length_cons, ← dataBits]
    omega

theorem writeTOC_fits (ps : List MediaPacket) {o : OBits} {bs : List Bool} (h : o.Holds bs)
    (hroom : bs.length ≤ 8*o.iBytes) :
    Fits (bs.length+6*ps.length) (8*o.iBytes) (writeTOC o ps)
      fun o' => o'.Holds (bs ++ tocBits ps) ∧ o'.iBytes = o.iBytes := by
  induction ps generalizing o bs with
  | nil => exact fits_ok hroom ⟨by rwa [tocBits, List.append_nil], rfl⟩
  | cons p ps ih =>
    have hlength : (p::ps).length = ps.length+1 := rfl
    refine fits_bind (OBits.write_fits h _ Nat.one_pos) (by omega) ?_
    rintro o₁ - ⟨h₁, hbytes₁⟩
    rw [← hbytes₁]
    refine fits_bind (OBits.write_fits h₁ _ (by decide)) (by
      rw [List.length_append, ofNat_length]
      omega) ?_
    rintro o₂ - ⟨h₂, hbytes₂⟩
    rw [← hbytes₂]
    refine fits_bind (OBits.write_fits h₂ _ Nat.one_pos) (by
      simp only [List.length_append, ofNat_length]
      omega) ?_
    rintro o₃ hroom₃ ⟨h₃, hbytes₃⟩
    rw [← hbytes₃] at hroom₃ ⊢
    simp only [List.length_append, ofNat_length] at hroom₃
    have hrest := ih h₃ (by simpa only [List.length_append, ofNat_length] using hroom₃)
    simp only [List.length_append, ofNat_length] at hrest
    rw [hlength, show bs.length+6*(ps.length+1) = bs.length+1+4+1+6*ps.length by omega]
    apply fits_imp hrest
    rintro o' ⟨ho, hbytes⟩
    refine ⟨?_, hbytes⟩
    simpa only [tocBits, List.append_assoc] using ho

/-- Bits are copied as they are, whatever their alignment on both sides. -/
theorem copyBits_fits (fuel : ℕ) {xs ys bs : List Bool} {b : IBits} {o : OBits}
    (hb : b.Upcoming (xs ++ ys)) (h : o.Holds bs) (hroom : bs.length ≤ 8*o.iBytes)
    (hfuel : xs.length ≤ fuel) :
    Fits (bs.length+xs.length) (8*o.iBytes) (copyBits fuel xs.length b o)
      fun r => r.1.Upcoming ys ∧ r.2.Holds (bs ++ xs) ∧ r.2.iBytes = o.iBytes := by
  induction fuel generalizing xs b o bs with
  | zero =>
    obtain rfl : xs = [] := List.length_eq_zero_iff.mp (by omega)
    exact fits_ok hroom ⟨hb, by rwa [List.append_nil], rfl⟩
  | succ fuel ih =>
    rw [copyBits]
    by_cases hnil : xs.length = 0
    · rw [if_pos hnil]
      obtain rfl := List.length_eq_zero_iff.mp hnil
      exact fits_ok hroom ⟨hb, by rwa [List.append_nil], rfl⟩
    rw [if_neg hnil]
    have htake : (xs.take 32).length = min 32 xs.length := List.length_take
    have hdrop : (xs.drop 32).length = xs.length-min 32 xs.length := by
      rw [List.length_drop]
      omega
    rw [← List.take_append_drop 32 xs, List.append_assoc] at hb
    rcases IBits.upcoming_reads hb (by omega) with ⟨b', hread, hb'⟩
    rw [htake] at hread
    simp only [hread, bind, Except.bind]
    have hwrite := OBits.write_fits h (value (xs.take 32)) (show 0 < min 32 xs.length by omega)
    refine fits_bind hwrite (by omega) ?_
    rintro o₁ hroom₁ ⟨h₁, hbytes₁⟩
    rw [← htake, ofNat_value] at h₁
    rw [← hbytes₁] at hroom₁ ⊢
    have hrest := ih hb' h₁ (by
      rw [List.length_append]
      omega) (by omega)
    rw [hdrop, List.length_append] at hrest
    rw [show bs.length+xs.length = bs.length+(xs.take 32).length+(xs.length-min 32 xs.length) by
      omega]
    apply fits_imp hrest
    rintro r ⟨hup, ho, hbytes⟩
    refine ⟨hup, ?_, hbytes⟩
    rwa [List.append_assoc, List.take_append_drop] at ho

theorem writeData_fits {ps : List MediaPacket} (hps : ∀ p ∈ ps, Frame codec p) {o : OBits}
    {bs : List Bool} (h : o.Holds bs) (hroom : bs.length ≤ 8*o.iBytes) :
    Fits (bs.length+(dataBits ps).length) (8*o.iBytes) (writeData o ps)
      fun o' => o'.Holds (bs ++ dataBits ps) ∧ o'.iBytes = o.iBytes := by
  induction ps generalizing o bs with
  | nil => exact fits_ok hroom ⟨by simpa [dataBits] using h, rfl⟩
  | cons p ps ih =>
    have hp := hps p List.mem_cons_self
    rcases frame_form hp with ⟨-, -, -, hlength⟩
    have hcopy := copyBits_fits (speech p).length (frame_upcoming hp) h hroom le_rfl
    have hcons : dataBits (p::ps) = speech p ++ dataBits ps := by
      rw [dataBits, List.flatMap_cons, ← dataBits]
    rw [writeData, frame_encodedBits hp, ← hlength, hcons, List.length_append, ← Nat.add_assoc]
    simp only [bind, Except.bind]
    refine fits_bind hcopy (by omega) ?_
    rintro copied hroom₁ ⟨-, h₁, hbytes₁⟩
    rw [← hbytes₁] at hroom₁ ⊢
    have hrest := ih (fun q hq => hps q (List.mem_cons_of_mem p hq)) h₁ (by
      rwa [List.length_append])
    rw [List.length_append] at hrest
    apply fits_imp hrest
    rintro o' ⟨ho, hbytes⟩
    refine ⟨?_, hbytes⟩
    rwa [List.append_assoc] at ho

/-- The bits in front of the padding. -/
def payloadBits (ps : List MediaPacket) : List Bool := ofNat 4 0xF ++ (tocBits ps ++ dataBits ps)

theorem payload_fits {ps : List MediaPacket} (hps : ∀ p ∈ ps, Frame codec p) (iMTU : ℕ) :
    Fits (budget ps) (8*iMTU) (payload iMTU ps) fun bytes =>
      (∃ pad, ofBytes bytes = payloadBits ps ++ pad) ∧ bytes.length ≤ iMTU := by
  have hnew := OBits.write_fits (OBits.holds_new iMTU) 0xF (show 0 < 4 by decide)
  rw [budget_length hps]
  refine fits_bind hnew (by
    rw [List.length_nil]
    omega) ?_
  rintro o₁ hroom₁ ⟨h₁, hbytes₁⟩
  have hbytes₁ : o₁.iBytes = iMTU := hbytes₁
  have hroom₁ : 0+4 ≤ 8*iMTU := hroom₁
  rw [List.nil_append] at h₁
  have htoc := writeTOC_fits ps h₁ (by
    rw [ofNat_length]
    omega)
  rw [ofNat_length, hbytes₁] at htoc
  refine fits_bind htoc (by omega) ?_
  rintro o₂ hroom₂ ⟨h₂, hbytes₂⟩
  have hlength₂ : (ofNat 4 0xF ++ tocBits ps).length = 4+6*ps.length := by
    rw [List.length_append, ofNat_length, tocBits_length]
  have hdata := writeData_fits hps h₂ (by omega)
  rw [hlength₂, hbytes₂] at hdata
  refine fits_bind hdata le_rfl ?_
  rintro o₃ hroom₃ ⟨h₃, hbytes₃⟩
  rw [List.append_assoc] at h₃
  have hlength₃ : (payloadBits ps).length = 4+6*ps.length+(dataBits ps).length := by
    rw [payloadBits, ← List.append_assoc, List.length_append, hlength₂]
  rcases OBits.pad_holds h₃ 0xFF (by
    rw [← payloadBits, hlength₃, hbytes₃]
    exact hroom₃) with ⟨o₄, hpad, h₄, -⟩
  rw [← payloadBits] at h₄
  have hwhole : ((payloadBits ps) ++ ofNat ((8-(payloadBits ps).length%8)%8) 0xFF).length =
      8*(((payloadBits ps).length+7)/8) := by
    rw [List.length_append, ofNat_length]
    omega
  rcases OBits.data_bits h₄ hwhole with ⟨hbits, hsize⟩
  rw [hpad]
  exact fits_ok hroom₃ ⟨⟨_, hbits⟩, by rw [hsize]; omega⟩

end

/-! ## Packets -/

/-- What a packet tells about the frames it was made of. -/
structure Carries (codec : CodecType) (front : MediaPacket) (g : List MediaPacket)
    (p : MediaPacket) : Prop where
  type : p.type = .media
  numbers : numbers p = numbers front
  bits : ∃ pad, ofBytes p.bytes = payloadBits g ++ pad
  codec : p.codec = codec

section
variable {codec : CodecType} {s : AMRPacketizer} {front : MediaPacket} {rest : List MediaPacket}

theorem pack_run (hint : s.iMTU < 2^31) (hs : s.vBuffer = front::rest)
    (hall : ∀ f ∈ front::rest, Frame codec f) (hfit : (budget (front::rest) : ℤ) ≤ 8*s.iMTU) :
    ∃ p, pack.run s = .ok () (s.routePacked p) ∧ Carries codec front (front::rest) p ∧
      (p.size : ℤ) ≤ s.iMTU ∧ p.dts = front.dts := by
  have hpos := budget_pos (front::rest)
  have hpayload := payload_fits hall s.iMTU.toNat
  rw [Fits, if_pos (by omega)] at hpayload
  rcases hpayload with ⟨bytes, hbytes, hbits, hsize⟩
  have hroom : ((uint32 s.iMTU : ℕ) : ℤ) = s.iMTU := uint32_of_bounds (by omega) (by omega)
  have hfront := hall front List.mem_cons_self
  refine ⟨(packed ((MediaPacket.new .media .audio (uint32 s.iMTU)).set_metadata front)).pushed
    bytes, ?_, ⟨hfront.type, rfl, ?_, hfront.codec⟩, ?_, rfl⟩
  · rw [pack, run_get_bind, hs]
    simp only
    rw [run_ofExcept_bind hbytes, run_ofExcept_bind (push_back_ok (by
      show iBufferSpace+0+bytes.length < uint32 s.iMTU+2*iBufferSpace
      rw [iBufferSpace]
      omega))]
    rfl
  · exact hbits
  · show ((([] : List UInt8) ++ bytes).length : ℤ) ≤ s.iMTU
    rw [List.nil_append]
    omega

theorem pack_error (hs : s.vBuffer = front::rest)
    (hall : ∀ f ∈ front::rest, Frame codec f) (hfit : 8*s.iMTU < budget (front::rest)) :
    ∃ e, pack.run s = .error e s := by
  have hpos := budget_pos (front::rest)
  have hpayload := payload_fits hall s.iMTU.toNat
  rw [Fits, if_neg (by omega)] at hpayload
  rcases hpayload with ⟨e, he⟩
  refine ⟨e, ?_⟩
  rw [pack, run_get_bind, hs]
  simp only
  rw [run_ofExcept_error he]

end

end Sirannon.AMR
