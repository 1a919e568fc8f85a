import Sirannon.AMRSending

/-!
# AMR unpacking

The cursor of the table and the cursor of the bits move through a payload side
by side, and each entry with its bits gives back the bytes of one frame.
-/

set_option autoImplicit false

namespace Sirannon.AMR
open MachineInt BitString Bits Media Packetization StateError

/-! ## Cursors -/

theorem entry_bits (t : ℕ) : ofNat 4 t ++ ofNat 1 1 = ofNat 5 (2*t+1) := by
  rw [show 5 = 4+1 by rfl, ofNat_add]
  congr 1
  · congr 1
    omega
  · apply ofNat_congr
    omega

/-- An entry of the table is read as a bit and five bits. -/
theorem upcoming_entry {b : IBits} {iCont t : ℕ} {bs : List Bool} (hcont : iCont < 2) (ht : t < 16)
    (h : b.Upcoming (ofNat 1 iCont ++ (ofNat 4 t ++ (ofNat 1 1 ++ bs)))) :
    ∃ b₁ b₂, b.readWithin 1 = .ok (iCont, b₁) ∧ b₁.readWithin 5 = .ok (2*t+1, b₂) ∧
      b₂.Upcoming bs := by
  rw [← List.append_assoc (ofNat 4 t), entry_bits] at h
  rcases IBits.upcoming_field h (by decide) hcont with ⟨b₁, hread₁, h₁⟩
  rcases IBits.upcoming_field h₁ (by decide) (by omega) with ⟨b₂, hread₂, h₂⟩
  exact ⟨b₁, b₂, hread₁, hread₂, h₂⟩

section
variable {codec : CodecType}

theorem skipTOC_run {ps : List MediaPacket} (hps : ∀ p ∈ ps, Frame codec p) (hne : ps ≠ [])
    {fuel : ℕ} (hfuel : ps.length ≤ fuel) {b : IBits} {bs : List Bool}
    (h : b.Upcoming (tocBits ps ++ bs)) :
    ∃ b', skipTOC fuel b = .ok b' ∧ b'.Upcoming bs := by
  induction ps generalizing fuel b with
  | nil => exact absurd rfl hne
  | cons p ps ih =>
    cases fuel with
    | zero => cases hfuel
    | succ fuel =>
      have hp := frame_type_lt (hps p List.mem_cons_self)
      rw [tocBits] at h
      simp only [List.append_assoc] at h
      rcases upcoming_entry (by split <;> decide) (by omega) h with
        ⟨b₁, b₂, hread₁, hread₂, h₂⟩
      rw [skipTOC, hread₁]
      simp only [bind, Except.bind, hread₂]
      by_cases hlast : ps = []
      · subst hlast
        exact ⟨b₂, rfl, h₂⟩
      · simp only [if_neg hlast, Nat.one_ne_zero, if_false]
        exact ih (fun q hq => hps q (List.mem_cons_of_mem p hq)) hlast
          (Nat.le_of_succ_le_succ hfuel) h₂

/-! ## Frames -/

theorem unpackFrame_run {p : MediaPacket} (hp : Frame codec p) {b : IBits} {bs : List Bool}
    (h : b.Upcoming (speech p ++ bs)) :
    ∃ b', unpackFrame (frameType p) (speechBits p) b = .ok (b', p.bytes) ∧ b'.Upcoming bs := by
  rcases frame_form hp with ⟨-, -, -, hlength⟩
  have hroom : 8+speechBits p ≤ 8*(speechBits p/8+2) := by omega
  have hwrite₁ := OBits.write_fits (OBits.holds_new (speechBits p/8+2)) 0 Nat.one_pos
  have hnew : (OBits.new (speechBits p/8+2)).iBytes = speechBits p/8+2 := rfl
  rw [List.nil_append, List.length_nil, hnew, Fits, if_pos (by omega)] at hwrite₁
  rcases hwrite₁ with ⟨o₁, hok₁, h₁, hbytes₁⟩
  have hwrite₂ := OBits.write_fits h₁ (frameType p) (show 0 < 4 by decide)
  rw [ofNat_length, hbytes₁, Fits, if_pos (by omega)] at hwrite₂
  rcases hwrite₂ with ⟨o₂, hok₂, h₂, hbytes₂⟩
  have hwrite₃ := OBits.write_fits h₂ 4 (show 0 < 3 by decide)
  rw [List.length_append, ofNat_length, ofNat_length, hbytes₂, Fits, if_pos (by omega)] at hwrite₃
  rcases hwrite₃ with ⟨o₃, hok₃, h₃, hbytes₃⟩
  have hheader : (ofNat 1 0 ++ ofNat 4 (frameType p) ++ ofNat 3 4).length = 8 := by
    simp only [List.length_append, ofNat_length]
  have hcopy := copyBits_fits (speech p).length h h₃ (by omega) le_rfl
  rw [hheader, hlength, hbytes₃, Fits, if_pos hroom] at hcopy
  rcases hcopy with ⟨⟨b', o₄⟩, hok₄, hb', h₄, hbytes₄⟩
  rcases OBits.pad_holds h₄ 0 (by
    rw [List.length_append, hheader, hlength, hbytes₄]
    exact hroom) with ⟨o₅, hok₅, h₅, -⟩
  have hmod : (8-(8+speechBits p)%8)%8 = (8-speechBits p%8)%8 := by omega
  rw [List.length_append, hheader, hlength, hmod] at h₅
  have hbits : ofNat 1 0 ++ ofNat 4 (frameType p) ++ ofNat 3 4 ++ speech p ++
      ofNat ((8-speechBits p%8)%8) 0 = ofBytes p.bytes := by
    rw [frame_bits hp]
    simp only [List.append_assoc]
  rw [hbits] at h₅
  refine ⟨b', ?_, hb'⟩
  rw [unpackFrame, hok₁]
  simp only [bind, Except.bind, hok₂, hok₃, hok₄, hok₅, pure, Except.pure]
  rw [OBits.data_of_holds h₅]

/-- The state after some frames have been put out. -/
structure Unpacked (s : AMRUnpacketizer) (fs : List MediaPacket) (t : AMRUnpacketizer) : Prop where
  buffer : t.vBuffer = s.vBuffer
  routed : ∃ outs, t.routed = s.routed ++ outs ∧
    outs.map MediaPacket.bytes = fs.map MediaPacket.bytes

theorem unpacked_cons {s t : AMRUnpacketizer} {p q : MediaPacket} {ps : List MediaPacket}
    (hbytes : q.bytes = p.bytes) (h : Unpacked (s.emit q) ps t) : Unpacked s (p::ps) t := by
  rcases h.routed with ⟨outs, hrouted, hmap⟩
  refine ⟨h.buffer, q.setUnit s.iUnit::outs, ?_, ?_⟩
  · rw [hrouted, Unpacketizer.emit, List.append_assoc]
    rfl
  · rw [List.map_cons, List.map_cons, hmap, setUnit_bytes, hbytes]

theorem frameLoop_run {pPckt : MediaPacket} (hcodec : pPckt.codec = codec) {ps : List MediaPacket}
    (hps : ∀ p ∈ ps, Frame codec p) (hne : ps ≠ []) {fuel : ℕ} (hfuel : ps.length ≤ fuel)
    {oHeader oPayload : IBits} {xs ys : List Bool} (hh : oHeader.Upcoming (tocBits ps ++ xs))
    (hd : oPayload.Upcoming (dataBits ps ++ ys)) (s : AMRUnpacketizer) :
    ∃ t, (frameLoop pPckt fuel oHeader oPayload).run s = .ok () t ∧ Unpacked s ps t := by
  induction ps generalizing fuel oHeader oPayload s with
  | nil => exact absurd rfl hne
  | cons p ps ih =>
    cases fuel with
    | zero => cases hfuel
    | succ fuel =>
      have hp := hps p List.mem_cons_self
      have hlt := frame_type_lt hp
      rw [tocBits] at hh
      simp only [List.append_assoc] at hh
      rcases upcoming_entry (by split <;> decide) (by omega) hh with
        ⟨b₁, b₂, hread₁, hread₂, h₂⟩
      rw [dataBits, List.flatMap_cons, List.append_assoc] at hd
      rcases unpackFrame_run hp hd with ⟨b', hframe, hb'⟩
      have htype : (2*frameType p+1) >>> 1 = frameType p := by
        rw [Nat.shiftRight_eq_div_pow]
        omega
      have hsize : frameSizeBits pPckt.codec ((2*frameType p+1) >>> 1) = .ok (speechBits p) := by
        rw [hcodec, htype, frame_sizeBits hp]
      have hbytes := hp.size
      rw [MediaPacket.size] at hbytes
      have hroom : ((MediaPacket.new .media .audio (speechBits p/8+2)).set_metadata pPckt).iFront +
          ((MediaPacket.new .media .audio (speechBits p/8+2)).set_metadata pPckt).size +
          p.bytes.length <
          ((MediaPacket.new .media .audio (speechBits p/8+2)).set_metadata pPckt).max_size := by
        show iBufferSpace+0+p.bytes.length < speechBits p/8+2+2*iBufferSpace
        rw [iBufferSpace]
        omega
      have hpush := push_back_ok hroom
      rw [frameLoop, run_ofExcept_bind hread₁, run_ofExcept_bind hread₂, run_ofExcept_bind hsize]
      simp only [htype]
      rw [run_ofExcept_bind hframe, run_ofExcept_bind hpush, run_modify_bind]
      by_cases hlast : ps = []
      · subst hlast
        exact ⟨_, rfl, unpacked_cons (by rfl) ⟨rfl, [], (List.append_nil _).symm, rfl⟩⟩
      · simp only [if_neg hlast, Nat.one_ne_zero, if_false]
        rcases ih (fun q hq => hps q (List.mem_cons_of_mem p hq)) hlast
          (Nat.le_of_succ_le_succ hfuel) h₂ hb' _ with ⟨t, hrun, hout⟩
        exact ⟨t, hrun, unpacked_cons (by rfl) hout⟩

end

/-! ## Payloads -/

section
variable {codec : CodecType} {front p : MediaPacket} {g : List MediaPacket}

theorem carries_length (h : Carries codec front g p) : 4+6*g.length ≤ 8*p.size := by
  rcases h.bits with ⟨pad, hbits⟩
  have hlength := congrArg List.length hbits
  rw [payloadBits, ofBytes_length] at hlength
  simp only [List.length_append, ofNat_length, tocBits_length] at hlength
  rw [MediaPacket.size]
  omega

theorem carries_upcoming (h : Carries codec front g p) : ∃ b pad,
    (reader p).readWithin 4 = .ok (0xF, b) ∧ b.Upcoming (tocBits g ++ (dataBits g ++ pad)) := by
  rcases h.bits with ⟨pad, hbits⟩
  have hup := reader_upcoming p
  rw [hbits, payloadBits] at hup
  simp only [List.append_assoc] at hup
  rcases IBits.upcoming_field hup (by decide) (by decide) with ⟨b, hread, hb⟩
  exact ⟨b, pad, hread, hb⟩

theorem unpack_run (hcodec : codec = .anb ∨ codec = .awb) (h : Carries codec front g p)
    (hg : ∀ f ∈ g, Frame codec f) (hne : g ≠ []) {s : AMRUnpacketizer} (hs : s.vBuffer = [p]) :
    ∃ t, unpack.run s = .ok () t ∧ Unpacked { s with vBuffer := [] } g t := by
  have hlength := carries_length h
  rcases carries_upcoming h with ⟨b, pad, hread, hb⟩
  rcases skipTOC_run hg hne (show g.length ≤ 8*p.size by omega) hb with ⟨b', hskip, hb'⟩
  rcases frameLoop_run h.codec hg hne (show g.length ≤ 8*p.size by omega) hb hb' s with
    ⟨t, hrun, hbuffer, hrouted⟩
  refine ⟨{ t with vBuffer := [] }, ?_, rfl, hrouted⟩
  have hknown : ¬ (p.codec ≠ .anb ∧ p.codec ≠ .awb) := by
    rw [h.codec]
    tauto
  rw [unpack, run_get_bind, hs]
  simp only [if_neg hknown]
  rw [run_ofExcept_bind hread, run_ofExcept_bind hskip, run_ofExcept_bind hread,
    run_bind_of_ok hrun]
  rfl

/-- Two payloads that count as one frame are never unpacked. -/
theorem unpack_fragmented {s : AMRUnpacketizer} (hs : 2 ≤ s.vBuffer.length) :
    ∃ e, unpack.run s = .error e s := by
  rw [unpack, run_get_bind]
  match hbuffer : s.vBuffer, hs with
  | _::_::_, _ => exact ⟨_, rfl⟩

end

end Sirannon.AMR
