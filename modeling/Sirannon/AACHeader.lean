import Sirannon.MachineInt
import Sirannon.MediaPacket

/-!
# AAC frames with headers

In a file an AAC frame comes without a header, and what is to be known of the
stream stands in a record of two bytes. In a transport stream each frame has a
header of its own. The converter goes from one to the other and back, and
rebuilds the record from the first header.
-/

set_option autoImplicit false

namespace Sirannon.AAC
open ByteMemory BitString Bits MachineInt Media

/-! ## Sample rates, profiles and channels -/

/-- What is not listed of the sixteen entries is zero. -/
def dTrans : List ℤ := [96000, 88200, 64000, 48000, 44100, 32000, 24000, 22050, 16000, 12000, 11025,
  8000, 7350]

def mp4aSampleRate (iIdx : ℕ) : ℤ := dTrans.getD iIdx 0

def mp4aSampleRateIdx (iSampleRate : ℤ) : ℕ :=
  if 92017 ≤ iSampleRate then 0
  else if 75132 ≤ iSampleRate then 1
  else if 55426 ≤ iSampleRate then 2
  else if 46009 ≤ iSampleRate then 3
  else if 37566 ≤ iSampleRate then 4
  else if 27713 ≤ iSampleRate then 5
  else if 23004 ≤ iSampleRate then 6
  else if 18783 ≤ iSampleRate then 7
  else if 13856 ≤ iSampleRate then 8
  else if 11502 ≤ iSampleRate then 9
  else if 9391 ≤ iSampleRate then 10
  else 11

def mp4aProfile (iIdx : ℕ) : ℤ := iIdx+1

def mp4aProfileIdx (iProfile : ℤ) : ℤ := iProfile-1

def outsideTable : SirannonException := undefinedBehaviour "index behind the table of channels"

def mp4aChannels (iIdx : ℕ) : Except SirannonException ℤ :=
  match ([0, 1, 2, 3, 4, 5, 6, 8] : List ℤ)[iIdx]? with
  | none => .error outsideTable
  | some iChannels => .ok iChannels

def mp4aChannelsIdx (iChannels : ℤ) : Except SirannonException ℕ :=
  if iChannels < 0 then .error outsideTable
  else
    match ([0, 1, 2, 3, 4, 5, 6, 7, 7] : List ℕ)[iChannels.toNat]? with
    | none => .error outsideTable
    | some iIdx => .ok iIdx

/-! ## The converter -/

/-- The fields of a descriptor that concern AAC. -/
structure AudioDescriptor where
  profile : ℤ
  channels : ℤ
  samplerate : ℤ
  framesize : ℤ
  bitrate : ℤ
  extra_data : List UInt8
  deriving DecidableEq, Repr

structure MP4MediaConverter where
  iUnit : ℤ
  oAudioHeader : IBits
  iAudioHeaderVersion : ℤ

def MP4MediaConverter.init : MP4MediaConverter where
  iUnit := 0
  oAudioHeader := .new (fun _ => 0) 4096
  iAudioHeaderVersion := -1

/-- The fields of the header, with their widths. -/
def adts (iProfileIdx iSampleIdx iChannelIdx iSize : ℕ) : List (ℕ × ℕ) :=
  [(12, 0xFFF), (1, 0), (2, 0), (1, 1), (2, iProfileIdx), (4, iSampleIdx), (1, 0), (3, iChannelIdx),
    (1, 0), (1, 0), (1, 0), (1, 0), (13, iSize), (11, 0x7FF), (2, 0)]

/-- What the conversions do for video is left open. -/
structure VideoConversions where
  convertES : MP4MediaConverter → MediaPacket →
    Except SirannonException (MP4MediaConverter × List MediaPacket)
  convertMP4 : MP4MediaConverter → AudioDescriptor → MediaPacket →
    Except SirannonException (MP4MediaConverter × AudioDescriptor × Option MediaPacket)

namespace MP4MediaConverter

/-- Seven bytes are added in front, and the header is written over them. -/
def convertES (video : VideoConversions) (pDesc : AudioDescriptor) (s : MP4MediaConverter)
    (pPckt : MediaPacket) : Except SirannonException (MP4MediaConverter × List MediaPacket) := do
  if pPckt.mux ≠ .MOV then throw (typeError "MP4Converter: Packet is not in MP4 format")
  if pPckt.codec = .avc ∨ pPckt.codec = .svc then video.convertES s pPckt
  else if pPckt.codec = .mp4a then
    let pPckt ← pPckt.push_front (List.replicate 7 0)
    let pPckt := { pPckt with mux := .ES, unitnumber := s.iUnit }
    let iChannelIdx ← mp4aChannelsIdx pDesc.channels
    let oHeader ← (OBits.new 7).writes (adts (uint32 (mp4aProfileIdx pDesc.profile))
      (mp4aSampleRateIdx pDesc.samplerate) iChannelIdx pPckt.size)
    let pPckt := { pPckt with bytes := oHeader.data ++ pPckt.bytes.drop 7 }
    return ({ s with iUnit := s.iUnit+1 }, [pPckt])
  else throw (typeError "MP4Converter: Invalid codec for convertES")

/-- The header that is kept is read from its start, and all of the descriptor is set. -/
def ADTS2ESDS (oAudioHeader : IBits) :
    Except SirannonException (IBits × AudioDescriptor) :=
  let (iSync, oAudioHeader) := oAudioHeader.clear.read 12
  if iSync ≠ 0xFFF then .error (runtimeError "MP4Converteror: no AAC sync in audio header")
  else do
    let oAudioHeader := (oAudioHeader.read 4).2
    let (iProfileIdx, oAudioHeader) := oAudioHeader.read 2
    let (iSampleIdx, oAudioHeader) := oAudioHeader.read 4
    let oAudioHeader := (oAudioHeader.read 1).2
    let (iChannelIdx, oAudioHeader) := oAudioHeader.read 3
    let oAudioHeader := (oAudioHeader.read 4).2
    let (iSize, oAudioHeader) := oAudioHeader.read 13
    let oAudioHeader := (oAudioHeader.read 11).2
    let (iSamples, oAudioHeader) := oAudioHeader.read 2
    let channels ← mp4aChannels iChannelIdx
    let samplerate := mp4aSampleRate iSampleIdx
    let framesize := ((iSamples+1)*1024 : ℕ)
    let oAudioExtra ← (OBits.new 32).writes
      [(5, uint32 (mp4aProfile iProfileIdx)), (4, iSampleIdx), (4, iChannelIdx), (3, 0)]
    return (oAudioHeader, {
      profile := mp4aProfile iProfileIdx
      channels := channels
      samplerate := samplerate
      framesize := framesize
      bitrate := (int32 (iSize*8*samplerate)).tdiv framesize
      extra_data := oAudioExtra.data })

def ESDS2META (pAudioDesc : AudioDescriptor) : Except SirannonException AudioDescriptor :=
  if pAudioDesc.extra_data.length < 2 then
    .error (runtimeError
      s!"MP4Converter: AAC extra data too short: ({pAudioDesc.extra_data.length}) < 2")
  else do
    let oExtra := IBits.new (store (fun _ => 0) 0 pAudioDesc.extra_data)
      pAudioDesc.extra_data.length
    let (profile, oExtra) := oExtra.read 5
    let (iSampleIdx, oExtra) := oExtra.read 4
    let (iChannelIdx, _) := oExtra.read 4
    let channels ← mp4aChannels iChannelIdx
    return { pAudioDesc with
      profile := profile, samplerate := mp4aSampleRate iSampleIdx, channels := channels }

/-- The first seven bytes are kept if nothing has been read of a header. -/
def stored (oAudioHeader : IBits) (pPckt : MediaPacket) : IBits :=
  if oAudioHeader.v = 0 then
    { oAudioHeader with buf := store oAudioHeader.buf 0 (pPckt.bytes.take 7) }
  else oAudioHeader

/-- The descriptor is rebuilt as long as the number of the last header is negative. -/
def copyHeader (s : MP4MediaConverter) (pDesc : AudioDescriptor) (framenumber : ℤ) :
    Except SirannonException (MP4MediaConverter × AudioDescriptor) :=
  if s.iAudioHeaderVersion < 0 then do
    let (oAudioHeader, pDesc) ← ADTS2ESDS s.oAudioHeader
    return ({ s with oAudioHeader := oAudioHeader, iAudioHeaderVersion := framenumber }, pDesc)
  else .ok (s, pDesc)

def convertMP4 (video : VideoConversions) (s : MP4MediaConverter) (pDesc : AudioDescriptor)
    (pPckt : MediaPacket) :
    Except SirannonException (MP4MediaConverter × AudioDescriptor × Option MediaPacket) := do
  if pPckt.mux ≠ .ES then throw (typeError "MP4Converter: Packet is not in ES format")
  let pPckt := { pPckt with mux := .MOV }
  if pPckt.codec = .avc ∨ pPckt.codec = .svc then video.convertMP4 s pDesc pPckt
  else if pPckt.codec = .mp4a then
    let (s, pDesc) ← copyHeader { s with oAudioHeader := stored s.oAudioHeader pPckt } pDesc
      pPckt.framenumber
    let pPckt ← pPckt.pop_front 7
    return (s, pDesc, some pPckt)
  else throw (typeError "MP4Converter: invalid codec")

end MP4MediaConverter

/-! ## There and back -/

open MP4MediaConverter

/-- One frame after the other, the packets being collected. -/
def convertAllES (video : VideoConversions) (pDesc : AudioDescriptor) :
    MP4MediaConverter → List MediaPacket →
      Except SirannonException (MP4MediaConverter × List MediaPacket)
  | s, [] => .ok (s, [])
  | s, f::fs => do
    let (s, ps) ← convertES video pDesc s f
    let (s, qs) ← convertAllES video pDesc s fs
    return (s, ps ++ qs)

def convertAllMP4 (video : VideoConversions) :
    MP4MediaConverter → AudioDescriptor → List MediaPacket →
      Except SirannonException (MP4MediaConverter × AudioDescriptor × List MediaPacket)
  | s, pDesc, [] => .ok (s, pDesc, [])
  | s, pDesc, f::fs => do
    let (s, pDesc, pMerged) ← convertMP4 video s pDesc f
    let (s, pDesc, qs) ← convertAllMP4 video s pDesc fs
    return (s, pDesc, pMerged.toList ++ qs)

/-- A frame as a file holds it, in a packet with room in front. -/
structure RawFrame (f : MediaPacket) : Prop where
  codec : f.codec = .mp4a
  mux : f.mux = .MOV
  nonempty : 1 ≤ f.size
  small : f.size ≤ 8184
  room : 7 ≤ f.iFront

structure Describes (pDesc : AudioDescriptor) : Prop where
  profile : 1 ≤ pDesc.profile ∧ pDesc.profile ≤ 4
  samplerate : pDesc.samplerate ∈ dTrans
  channels : pDesc.channels ∈ ([1, 2, 3, 4, 5, 6, 8] : List ℤ)

/-- The length in the header, behind thirty bits. -/
def headerLength (p : MediaPacket) : ℕ := value (((ofBytes p.bytes).drop 30).take 13)

def SameSound (d e : AudioDescriptor) : Prop :=
  d.profile = e.profile ∧ d.samplerate = e.samplerate ∧ d.channels = e.channels

/-- The frames come back, and with them the descriptor, `iFirst` being the size of the first. -/
def ComesBack (video : VideoConversions) (pDesc pOther : AudioDescriptor)
    (frames : List MediaPacket) (iFirst : ℕ) : Prop :=
  ∃ s headed, convertAllES video pDesc .init frames = .ok (s, headed) ∧
    List.Forall₂ (fun p f => p.size = f.size+7 ∧ headerLength p = f.size+7) headed frames ∧
    ∃ t pBack back, convertAllMP4 video .init pOther headed = .ok (t, pBack, back) ∧
      back.map MediaPacket.bytes = frames.map MediaPacket.bytes ∧
      SameSound pBack pDesc ∧ pBack.framesize = 1024 ∧
      pBack.bitrate = 8*(iFirst+7)*pDesc.samplerate/1024 ∧
      ∃ pMeta, ESDS2META pBack = .ok pMeta ∧ SameSound pMeta pDesc

/-! ## The tables -/

/-- The places of the profile and the channels in their fields. -/
structure Indexed (pDesc : AudioDescriptor) (iProfileIdx iChannelIdx : ℕ) : Prop where
  profile : uint32 (mp4aProfileIdx pDesc.profile) = iProfileIdx
  profileBack : mp4aProfile iProfileIdx = pDesc.profile
  profileSmall : iProfileIdx < 2^2
  channels : mp4aChannelsIdx pDesc.channels = .ok iChannelIdx
  channelsBack : mp4aChannels iChannelIdx = .ok pDesc.channels
  channelsSmall : iChannelIdx < 2^3

section
variable {pDesc : AudioDescriptor}

theorem described_indices (h : Describes pDesc) : ∃ ip ic, Indexed pDesc ip ic := by
  have hchannels : ∃ ic, mp4aChannelsIdx pDesc.channels = .ok ic ∧
      mp4aChannels ic = .ok pDesc.channels ∧ ic < 2^3 := by
    have hmem := h.channels
    simp only [List.mem_cons, List.not_mem_nil, or_false] at hmem
    rcases hmem with heq | heq | heq | heq | heq | heq | heq
    · exact ⟨1, by rw [heq]; rfl, by rw [heq]; rfl, by decide⟩
    · exact ⟨2, by rw [heq]; rfl, by rw [heq]; rfl, by decide⟩
    · exact ⟨3, by rw [heq]; rfl, by rw [heq]; rfl, by decide⟩
    · exact ⟨4, by rw [heq]; rfl, by rw [heq]; rfl, by decide⟩
    · exact ⟨5, by rw [heq]; rfl, by rw [heq]; rfl, by decide⟩
    · exact ⟨6, by rw [heq]; rfl, by rw [heq]; rfl, by decide⟩
    · exact ⟨7, by rw [heq]; rfl, by rw [heq]; rfl, by decide⟩
  rcases hchannels with ⟨ic, hidx, hback, hsmall⟩
  have hprofile := h.profile
  have hcast : mp4aProfileIdx pDesc.profile = ((pDesc.profile-1).toNat : ℕ) := by
    rw [mp4aProfileIdx]
    omega
  refine ⟨(pDesc.profile-1).toNat, ic, ?_, ?_, ?_, hidx, hback, hsmall⟩
  · rw [hcast, uint32_of_range]
    omega
  · rw [mp4aProfile]
    omega
  · omega

/-- The thresholds lead to the entry of a sample rate, but the lowest one has none of its own. -/
theorem rate_back (h : Describes pDesc) :
    mp4aSampleRateIdx pDesc.samplerate < 2^4 ∧
      (mp4aSampleRate (mp4aSampleRateIdx pDesc.samplerate) = pDesc.samplerate ↔
        pDesc.samplerate ≠ 7350) ∧ 7350 ≤ pDesc.samplerate ∧ pDesc.samplerate ≤ 96000 := by
  have hmem := h.samplerate
  simp only [dTrans, List.mem_cons, List.not_mem_nil, or_false] at hmem
  rcases hmem with heq | heq | heq | heq | heq | heq | heq | heq | heq | heq | heq | heq | heq
  all_goals
    rw [heq]
    decide

/-! ## The header -/

theorem header_written (ip ir ic n : ℕ) :
    ∃ o, (OBits.new 7).writes (adts ip ir ic n) = .ok o ∧
      ofBytes o.data = fieldBits (adts ip ir ic n) ∧ o.data.length = 7 := by
  have hsum : ((adts ip ir ic n).map Prod.fst).sum = 8*7 := by simp [adts]
  exact OBits.writes_new (adts ip ir ic n) hsum le_rfl (by simp [adts])

theorem adts_bits (ip ir ic n : ℕ) : fieldBits (adts ip ir ic n) =
    ofNat 12 0xFFF ++ (ofNat 4 1 ++ (ofNat 2 ip ++ (ofNat 4 ir ++ (ofNat 1 0 ++ (ofNat 3 ic ++
      (ofNat 4 0 ++ (ofNat 13 n ++ (ofNat 11 0x7FF ++ ofNat 2 0)))))))) := by
  have hversion : ∀ r, ofNat 1 0 ++ (ofNat 2 0 ++ (ofNat 1 1 ++ r)) = ofNat 4 1 ++ r := fun r => rfl
  have hflags : ∀ r, ofNat 1 0 ++ (ofNat 1 0 ++ (ofNat 1 0 ++ (ofNat 1 0 ++ r))) =
      ofNat 4 0 ++ r := fun r => rfl
  simp only [fieldBits, adts, List.flatMap_cons, List.flatMap_nil, List.append_nil]
  rw [hversion, hflags]

/-- A packet with a header in front of the frame. -/
structure Headed (fields : List (ℕ × ℕ)) (f p : MediaPacket) : Prop where
  bytes : ∃ h, p.bytes = h ++ f.bytes ∧ h.length = 7 ∧ ofBytes h = fieldBits fields
  mux : p.mux = .ES
  codec : p.codec = .mp4a

theorem headed_length {ip ir ic : ℕ} {f p : MediaPacket} (hf : f.size ≤ 8184)
    (h : Headed (adts ip ir ic (f.size+7)) f p) :
    p.size = f.size+7 ∧ headerLength p = f.size+7 := by
  rcases h.bytes with ⟨header, hbytes, hlength, hbits⟩
  constructor
  · rw [MediaPacket.size, hbytes, List.length_append, hlength, Nat.add_comm]
    rfl
  · rw [headerLength, hbytes, ofBytes_append, hbits, adts_bits]
    have hfront : (ofNat 12 0xFFF ++ (ofNat 4 1 ++ (ofNat 2 ip ++ (ofNat 4 ir ++ (ofNat 1 0 ++
        (ofNat 3 ic ++ ofNat 4 0)))))).length = 30 := by simp
    have hsplit : ∀ r, (ofNat 12 0xFFF ++ (ofNat 4 1 ++ (ofNat 2 ip ++ (ofNat 4 ir ++ (ofNat 1 0 ++
        (ofNat 3 ic ++ (ofNat 4 0 ++ r))))))).drop 30 = r := by
      intro r
      rw [← hfront]
      simp only [← List.append_assoc]
      exact List.drop_left
    simp only [List.append_assoc]
    rw [hsplit]
    have hfield : ∀ r, (ofNat 13 (f.size+7) ++ r).take 13 = ofNat 13 (f.size+7) := by
      intro r
      exact List.take_left' (ofNat_length ..)
    rw [hfield, value_ofNat, Nat.mod_eq_of_lt (by omega)]

end

/-! ## There -/

section
variable {video : VideoConversions} {pDesc : AudioDescriptor} {ip ic : ℕ} {f : MediaPacket}
  {frames : List MediaPacket}

theorem convertES_headed (video : VideoConversions) (hidx : Indexed pDesc ip ic) (hf : RawFrame f)
    (s : MP4MediaConverter) : ∃ p, convertES video pDesc s f =
        .ok ({ s with iUnit := s.iUnit+1 }, [p]) ∧
      Headed (adts ip (mp4aSampleRateIdx pDesc.samplerate) ic (f.size+7)) f p := by
  have hmux : ¬f.mux ≠ .MOV := not_not.mpr hf.mux
  have hvideo : ¬(f.codec = .avc ∨ f.codec = .svc) := by
    rw [hf.codec]
    decide
  have hroom : (List.replicate 7 (0 : UInt8)).length ≤ f.iFront := by
    rw [List.length_replicate]
    exact hf.room
  have hsize : (f.fronted (List.replicate 7 0)).size = f.size+7 := by
    rw [MediaPacket.size, fronted_bytes, List.length_append, List.length_replicate, Nat.add_comm]
    rfl
  rcases header_written ip (mp4aSampleRateIdx pDesc.samplerate) ic (f.size+7) with
    ⟨o, ho, hbits, hlength⟩
  rw [← hsize] at ho
  refine ⟨{ f.fronted (List.replicate 7 0) with
    mux := .ES, unitnumber := s.iUnit, bytes := o.data ++ f.bytes }, ?_,
    ⟨⟨o.data, rfl, hlength, hbits⟩, rfl, hf.codec⟩⟩
  have ho' : (OBits.new 7).writes (adts ip (mp4aSampleRateIdx pDesc.samplerate) ic
      ({ f.fronted (List.replicate 7 0) with mux := .ES, unitnumber := s.iUnit } :
        MediaPacket).size) = .ok o := ho
  rw [convertES, if_neg hmux, if_neg hvideo, if_pos hf.codec]
  simp only [bind, Except.bind, pure, Except.pure, push_front_ok hroom, hidx.channels,
    hidx.profile]
  rw [ho']
  rfl

theorem convertAllES_headed (video : VideoConversions) (hidx : Indexed pDesc ip ic)
    (hframes : ∀ f ∈ frames, RawFrame f) (s : MP4MediaConverter) :
    ∃ t headed, convertAllES video pDesc s frames = .ok (t, headed) ∧
      List.Forall₂ (fun p f => Headed (adts ip (mp4aSampleRateIdx pDesc.samplerate) ic
        (f.size+7)) f p ∧ f.size ≤ 8184) headed frames := by
  induction frames generalizing s with
  | nil => exact ⟨s, [], rfl, .nil⟩
  | cons f frames ih =>
    rcases convertES_headed video hidx (hframes f List.mem_cons_self) s with ⟨p, hp, hheaded⟩
    rcases ih (fun g hg => hframes g (List.mem_cons_of_mem f hg)) { s with iUnit := s.iUnit+1 } with
      ⟨t, headed, ht, hrest⟩
    refine ⟨t, p::headed, ?_, .cons ⟨hheaded, (hframes f List.mem_cons_self).small⟩ hrest⟩
    rw [convertAllES, hp]
    simp only [bind, Except.bind, pure, Except.pure, ht]
    rfl

end

/-! ## And back -/

/-- The descriptor that is rebuilt from a header with these fields. -/
def rebuilt (ip ir : ℕ) (channels : ℤ) (n : ℕ) (extra : List UInt8) : AudioDescriptor where
  profile := mp4aProfile ip
  channels := channels
  samplerate := mp4aSampleRate ir
  framesize := 1024
  bitrate := (int32 (n*8*mp4aSampleRate ir)).tdiv 1024
  extra_data := extra

section
variable {b : IBits} {ip ir ic n : ℕ} {channels : ℤ} {o : OBits}

theorem adts_read (h : b.clear.Ahead 0 (fieldBits (adts ip ir ic n))) (hip : ip < 2^2)
    (hir : ir < 2^4) (hic : ic < 2^3) (hn : n < 2^13) (hchannels : mp4aChannels ic = .ok channels)
    (ho : (OBits.new 32).writes [(5, uint32 (mp4aProfile ip)), (4, ir), (4, ic), (3, 0)] = .ok o) :
    ∃ b', ADTS2ESDS b = .ok (b', rebuilt ip ir channels n o.data) ∧ b'.v = 7 ∧ b'.buf = b.buf := by
  rw [adts_bits] at h
  have hsync := IBits.read_field h (by decide) (by decide)
  have hversion := IBits.read_field hsync.2 (by decide) (by decide)
  have hprofile := IBits.read_field hversion.2 (by decide) hip
  have hrate := IBits.read_field hprofile.2 (by decide) hir
  have hprivate := IBits.read_field hrate.2 (by decide) (by decide)
  have hchannel := IBits.read_field hprivate.2 (by decide) hic
  have hflags := IBits.read_field hchannel.2 (by decide) (by decide)
  have hlength := IBits.read_field hflags.2 (by decide) hn
  have hfullness := IBits.read_field hlength.2 (by decide) (by decide)
  have hend := hfullness.2
  rw [← List.append_nil (ofNat 2 0)] at hend
  have hlast := IBits.read_field hend (by decide) (by decide)
  rw [ADTS2ESDS]
  simp only [hsync.1, ne_eq, not_true_eq_false, if_false, hprofile.1, hrate.1, hchannel.1,
    hlength.1, hlast.1, hchannels, ho, bind, Except.bind, pure, Except.pure]
  refine ⟨_, rfl, ?_, ?_⟩
  · have hplace : IBits.Ahead _ (8*7) [] := hlast.2
    exact (IBits.ahead_aligned hplace).2
  · simp only [IBits.read_buf]
    rfl

theorem meta_read {extra : List UInt8} (hip : ip < 2^2) (hir : ir < 2^4) (hic : ic < 2^3)
    (hchannels : mp4aChannels ic = .ok channels)
    (hextra : ofBytes extra = fieldBits [(5, uint32 (mp4aProfile ip)), (4, ir), (4, ic), (3, 0)])
    (hlength : extra.length = 2) :
    ESDS2META (rebuilt ip ir channels n extra) = .ok (rebuilt ip ir channels n extra) := by
  have hlong : ¬(rebuilt ip ir channels n extra).extra_data.length < 2 := by
    show ¬extra.length < 2
    omega
  have hprofile : uint32 (mp4aProfile ip) = ip+1 := by
    rw [mp4aProfile]
    exact_mod_cast uint32_of_range (ip+1) (by omega)
  have hahead := IBits.ahead_stored (stored_store (fun _ => 0) 0 extra) extra.length
  have hbits : ofBytes extra =
      ofNat 5 (ip+1) ++ (ofNat 4 ir ++ (ofNat 4 ic ++ (ofNat 3 0 ++ []))) := by
    rw [hextra, hprofile]
    rfl
  rw [hbits] at hahead
  have hfirst := IBits.read_field hahead (by decide) (by omega)
  have hrate := IBits.read_field hfirst.2 (by decide) hir
  have hchannel := IBits.read_field hrate.2 (by decide) (by omega)
  rw [ESDS2META, if_neg hlong]
  simp only [rebuilt, hfirst.1, hrate.1, hchannel.1, hchannels, bind, Except.bind, pure,
    Except.pure]
  rfl

end

theorem extra_written (ip ir ic : ℕ) :
    ∃ o, (OBits.new 32).writes [(5, uint32 (mp4aProfile ip)), (4, ir), (4, ic), (3, 0)] = .ok o ∧
      ofBytes o.data = fieldBits [(5, uint32 (mp4aProfile ip)), (4, ir), (4, ic), (3, 0)] ∧
      o.data.length = 2 :=
  OBits.writes_new [(5, uint32 (mp4aProfile ip)), (4, ir), (4, ic), (3, 0)] rfl (by decide)
    (by simp)

/-- A header has been read, and is still in the memory. -/
structure Kept (s : MP4MediaConverter) (fields : List (ℕ × ℕ)) : Prop where
  read : s.oAudioHeader.v ≠ 0
  header : s.oAudioHeader.clear.Ahead 0 (fieldBits fields)

section
variable {video : VideoConversions} {s : MP4MediaConverter} {pDesc : AudioDescriptor}
  {ip ir ic n : ℕ} {channels : ℤ} {o : OBits} {f p : MediaPacket} {fields : List (ℕ × ℕ)}
  {frames headed : List MediaPacket}

theorem ahead_same {b b' : IBits} {bs : List Bool} (h : b.clear.Ahead 0 bs)
    (hbuf : b'.buf = b.buf) : b'.clear.Ahead 0 bs := by
  refine ⟨IBits.loaded_clear b', IBits.pos_clear b', ?_⟩
  have hbits := h.2.2
  rw [IBits.clear] at hbits ⊢
  rw [hbuf]
  exact hbits

theorem stored_first (hp : Headed fields f p) {b : IBits} (hb : b.v = 0) :
    (stored b p).clear.Ahead 0 (fieldBits fields) := by
  rcases hp.bytes with ⟨h, hbytes, hlength, hbits⟩
  have htake : p.bytes.take 7 = h := by
    rw [hbytes]
    exact List.take_left' hlength
  rw [stored, if_pos hb, htake, ← hbits]
  have hstart : b.clear.Ahead (8*0) [] := IBits.ahead_clear b
  exact IBits.ahead_store hstart h

theorem stored_later (hs : Kept s fields) (p : MediaPacket) :
    stored s.oAudioHeader p = s.oAudioHeader := if_neg hs.read

/-- The header in the memory gives the descriptor, or has given it before. -/
theorem copyHeader_kept (hheader : s.oAudioHeader.clear.Ahead 0 (fieldBits (adts ip ir ic n)))
    (hip : ip < 2^2) (hir : ir < 2^4) (hic : ic < 2^3) (hn : n < 2^13)
    (hchannels : mp4aChannels ic = .ok channels)
    (ho : (OBits.new 32).writes [(5, uint32 (mp4aProfile ip)), (4, ir), (4, ic), (3, 0)] = .ok o)
    (hold : s.iAudioHeaderVersion < 0 ∨
      s.oAudioHeader.v ≠ 0 ∧ pDesc = rebuilt ip ir channels n o.data) (framenumber : ℤ) :
    ∃ t, copyHeader s pDesc framenumber = .ok (t, rebuilt ip ir channels n o.data) ∧
      Kept t (adts ip ir ic n) := by
  rw [copyHeader]
  by_cases hversion : s.iAudioHeaderVersion < 0
  · rcases adts_read hheader hip hir hic hn hchannels ho with ⟨b, hb, hv, hbuf⟩
    rw [if_pos hversion, hb]
    refine ⟨{ s with oAudioHeader := b, iAudioHeaderVersion := framenumber }, rfl, ?_, ?_⟩
    · show b.v ≠ 0
      omega
    · exact ahead_same hheader hbuf
  · rcases hold.resolve_left hversion with ⟨hv, rfl⟩
    rw [if_neg hversion]
    exact ⟨s, rfl, hv, hheader⟩

theorem convertMP4_headed (video : VideoConversions) (pDesc : AudioDescriptor)
    (hp : Headed fields f p)
    (hheader : (stored s.oAudioHeader p).clear.Ahead 0 (fieldBits (adts ip ir ic n)))
    (hip : ip < 2^2) (hir : ir < 2^4) (hic : ic < 2^3) (hn : n < 2^13)
    (hchannels : mp4aChannels ic = .ok channels)
    (ho : (OBits.new 32).writes [(5, uint32 (mp4aProfile ip)), (4, ir), (4, ic), (3, 0)] = .ok o)
    (hold : s.iAudioHeaderVersion < 0 ∨ Kept s (adts ip ir ic n) ∧
      pDesc = rebuilt ip ir channels n o.data) :
    ∃ t q, convertMP4 video s pDesc p = .ok (t, rebuilt ip ir channels n o.data, some q) ∧
      q.bytes = f.bytes ∧ Kept t (adts ip ir ic n) := by
  have hmux : ¬p.mux ≠ .ES := not_not.mpr hp.mux
  have hvideo : ¬(p.codec = .avc ∨ p.codec = .svc) := by
    rw [hp.codec]
    decide
  have hold' : s.iAudioHeaderVersion < 0 ∨ (stored s.oAudioHeader p).v ≠ 0 ∧
      pDesc = rebuilt ip ir channels n o.data := by
    rcases hold with hneg | ⟨hkept, hdesc⟩
    · exact Or.inl hneg
    · rw [stored_later hkept]
      exact Or.inr ⟨hkept.read, hdesc⟩
  rcases copyHeader_kept (s := { s with oAudioHeader := stored s.oAudioHeader p }) hheader hip hir
    hic hn hchannels ho hold' p.framenumber with ⟨t, ht, hkept⟩
  rcases hp.bytes with ⟨h, hbytes, hlength, -⟩
  have hpop : 7 ≤ ({ p with mux := .MOV } : MediaPacket).size := by
    show 7 ≤ p.bytes.length
    rw [hbytes, List.length_append, hlength]
    exact Nat.le_add_right _ _
  refine ⟨t, ({ p with mux := .MOV } : MediaPacket).popped 7, ?_, ?_, hkept⟩
  · rw [convertMP4, if_neg hmux, if_neg hvideo, if_pos hp.codec]
    simp only [bind, Except.bind, pure, Except.pure]
    have ht' : copyHeader { s with oAudioHeader := stored s.oAudioHeader { p with mux := .MOV } }
        pDesc ({ p with mux := .MOV } : MediaPacket).framenumber =
        .ok (t, rebuilt ip ir channels n o.data) := ht
    rw [ht']
    dsimp only
    rw [pop_front_ok hpop]
  · rw [popped_bytes]
    show p.bytes.drop 7 = _
    rw [hbytes]
    exact List.drop_left' hlength

/-- The packets behind the first one. -/
theorem convertAllMP4_kept (video : VideoConversions)
    (hheaded : List.Forall₂ (fun p f => ∃ fields, Headed fields f p) headed frames)
    (hip : ip < 2^2) (hir : ir < 2^4) (hic : ic < 2^3) (hn : n < 2^13)
    (hchannels : mp4aChannels ic = .ok channels)
    (ho : (OBits.new 32).writes [(5, uint32 (mp4aProfile ip)), (4, ir), (4, ic), (3, 0)] = .ok o)
    (hs : Kept s (adts ip ir ic n)) :
    ∃ t back, convertAllMP4 video s (rebuilt ip ir channels n o.data) headed =
        .ok (t, rebuilt ip ir channels n o.data, back) ∧
      back.map MediaPacket.bytes = frames.map MediaPacket.bytes := by
  induction hheaded generalizing s with
  | nil => exact ⟨s, [], rfl, rfl⟩
  | cons hp hrest ih =>
    rcases hp with ⟨fields, hp⟩
    have hheader := hs.header
    rw [← stored_later hs _] at hheader
    rcases convertMP4_headed video _ hp hheader hip hir hic hn hchannels ho (Or.inr ⟨hs, rfl⟩) with
      ⟨t, q, hq, hbytes, ht⟩
    rcases ih ht with ⟨u, back, hu, hback⟩
    refine ⟨u, q::back, ?_, ?_⟩
    · rw [convertAllMP4, hq]
      simp only [bind, Except.bind, pure, Except.pure, hu]
      rfl
    · rw [List.map_cons, List.map_cons, hbytes, hback]

/-- All frames come back, with the descriptor that the first header gives. -/
theorem conversion_run (video : VideoConversions) (h : Describes pDesc) (hidx : Indexed pDesc ip ic)
    (hframes : ∀ g ∈ f::frames, RawFrame g) (pOther : AudioDescriptor) :
    ∃ s headed, convertAllES video pDesc .init (f::frames) = .ok (s, headed) ∧
      List.Forall₂ (fun p g => p.size = g.size+7 ∧ headerLength p = g.size+7) headed (f::frames) ∧
      ∃ t extra back, convertAllMP4 video .init pOther headed = .ok (t, rebuilt ip
          (mp4aSampleRateIdx pDesc.samplerate) pDesc.channels (f.size+7) extra, back) ∧
        back.map MediaPacket.bytes = (f::frames).map MediaPacket.bytes ∧
        ESDS2META (rebuilt ip (mp4aSampleRateIdx pDesc.samplerate) pDesc.channels (f.size+7)
            extra) =
          .ok (rebuilt ip (mp4aSampleRateIdx pDesc.samplerate) pDesc.channels (f.size+7)
            extra) := by
  have hrate := (rate_back h).1
  have hsmall := (hframes f List.mem_cons_self).small
  have hn : f.size+7 < 2^13 := by omega
  rcases convertAllES_headed video hidx hframes .init with ⟨s, headed, hs, hheaded⟩
  rcases extra_written ip (mp4aSampleRateIdx pDesc.samplerate) ic with ⟨o, ho, hbits, hlength⟩
  refine ⟨s, headed, hs, hheaded.imp fun p g hpg => headed_length hpg.2 hpg.1, ?_⟩
  cases hheaded with
  | cons hp hrest =>
    rename_i p headed
    have hheader := stored_first hp.1 (b := MP4MediaConverter.init.oAudioHeader) rfl
    have hneg : MP4MediaConverter.init.iAudioHeaderVersion < 0 := by decide
    rcases convertMP4_headed video pOther hp.1 hheader hidx.profileSmall
      hrate hidx.channelsSmall hn hidx.channelsBack ho (Or.inl hneg) with ⟨t, q, hq, hbytes, ht⟩
    have hothers : List.Forall₂ (fun p g => ∃ fields, Headed fields g p) headed frames :=
      hrest.imp fun p g hpg => ⟨_, hpg.1⟩
    rcases convertAllMP4_kept video hothers hidx.profileSmall hrate
      hidx.channelsSmall hn hidx.channelsBack ho ht with ⟨u, back, hu, hback⟩
    refine ⟨u, o.data, q::back, ?_, ?_, ?_⟩
    · rw [convertAllMP4, hq]
      simp only [bind, Except.bind, pure, Except.pure, hu]
      rfl
    · rw [List.map_cons, List.map_cons, hbytes, hback]
    · exact meta_read hidx.profileSmall hrate hidx.channelsSmall hidx.channelsBack hbits hlength

/-- The product is kept in 32 bits. -/
theorem bitrate_fits {x : ℤ} (hx : 0 ≤ x ∧ x < 2^33) :
    (int32 x).tdiv 1024 = x/1024 ↔ x < 2^31 := by
  constructor
  · intro h
    by_contra hbig
    have hwrap : int32 x = x-2^32 ∨ int32 x = x-2^33 := by
      rw [int32, Int.bmod_def]
      norm_num
      omega
    have hupper : (int32 x).tdiv 1024 < 2^21 := by
      have hle : int32 x ≤ 2^31-1 := by
        have hhigh := int32_high x
        omega
      have hmono := Int.tdiv_le_tdiv (c := 1024) (by decide) hle
      exact hmono.trans_lt (by decide)
    omega
  · intro hfits
    rw [int32_of_range x (by omega) hfits, Int.tdiv_eq_ediv_of_nonneg hx.1]

theorem product_bounds (h : Describes pDesc) (hf : RawFrame f) :
    0 ≤ 8*((f.size : ℤ)+7)*pDesc.samplerate ∧ 8*((f.size : ℤ)+7)*pDesc.samplerate < 2^33 := by
  rcases rate_back h with ⟨-, -, hlow, hhigh⟩
  have hsmall := hf.small
  have hsize : 8*((f.size : ℤ)+7) ≤ 65528 := by omega
  constructor
  · positivity
  · calc 8*((f.size : ℤ)+7)*pDesc.samplerate
        ≤ 65528*96000 := mul_le_mul hsize hhigh (by omega) (by decide)
      _ < 2^33 := by norm_num

/-- With the sample rate the bitrate comes back if the product fits. -/
theorem bitrate_back (h : Describes pDesc) (hf : RawFrame f) {r : ℤ} (hr : r = pDesc.samplerate) :
    (int32 ((f.size+7 : ℕ)*8*r)).tdiv 1024 = 8*(f.size+7)*pDesc.samplerate/1024 ↔
      8*(f.size+7)*pDesc.samplerate < 2^31 := by
  have hproduct : ((f.size+7 : ℕ) : ℤ)*8*r = 8*((f.size : ℤ)+7)*pDesc.samplerate := by
    rw [hr]
    push_cast
    ring
  rw [hproduct]
  exact bitrate_fits (product_bounds h hf)

theorem comes_back_forced (h : Describes pDesc) (hframes : ∀ g ∈ f::frames, RawFrame g)
    {pOther : AudioDescriptor} (hback : ComesBack video pDesc pOther (f::frames) f.size) :
    pDesc.samplerate ≠ 7350 ∧ 8*(f.size+7)*pDesc.samplerate < 2^31 := by
  rcases described_indices h with ⟨ip, ic, hidx⟩
  rcases conversion_run video h hidx hframes pOther with
    ⟨s, headed, hs, -, t, extra, back, ht, -, -⟩
  rcases hback with ⟨s', headed', hs', -, t', pBack, back', ht', -, hsound, -, hbit, -⟩
  obtain ⟨rfl, rfl⟩ := Prod.mk.inj (Except.ok.inj (hs.symm.trans hs'))
  have hsame := Prod.mk.inj (Except.ok.inj (ht.symm.trans ht'))
  obtain rfl := (Prod.mk.inj hsame.2).1
  have hr := hsound.2.1
  exact ⟨(rate_back h).2.1.mp hr, (bitrate_back h (hframes f List.mem_cons_self) hr).mp hbit⟩

theorem comes_back_iff (video : VideoConversions) (pDesc pOther : AudioDescriptor)
    (f : MediaPacket) (frames : List MediaPacket) (hdesc : Describes pDesc)
    (hframes : ∀ g ∈ f::frames, RawFrame g) :
    ComesBack video pDesc pOther (f::frames) f.size ↔
      pDesc.samplerate ≠ 7350 ∧ 8*(f.size+7)*pDesc.samplerate < 2^31 := by
  constructor
  · exact comes_back_forced hdesc hframes
  · rintro ⟨hnot, hfits⟩
    rcases described_indices hdesc with ⟨ip, ic, hidx⟩
    rcases conversion_run video hdesc hidx hframes pOther with
      ⟨s, headed, hs, hlengths, t, extra, back, ht, hbytes, hmeta⟩
    have hr := (rate_back hdesc).2.1.mpr hnot
    have hsound : SameSound (rebuilt ip (mp4aSampleRateIdx pDesc.samplerate) pDesc.channels
        (f.size+7) extra) pDesc := ⟨hidx.profileBack, hr, rfl⟩
    exact ⟨s, headed, hs, hlengths, t, _, back, ht, hbytes, hsound, rfl,
      (bitrate_back hdesc (hframes f List.mem_cons_self) hr).mpr hfits, _, hmeta, hsound⟩

end

/-- No video comes in. -/
def soundOnly : VideoConversions where
  convertES := fun _ _ => .error (typeError "no video")
  convertMP4 := fun _ _ _ => .error (typeError "no video")

def sound (samplerate : ℤ) : AudioDescriptor := ⟨2, 2, samplerate, 0, 0, []⟩

def rawFrame (bytes : List UInt8) : MediaPacket :=
  { (MediaPacket.new .media .audio bytes.length).pushed bytes with codec := .mp4a, mux := .MOV }

theorem comes_back_iff_frames :
    ComesBack soundOnly (sound 44100) (sound 0) [rawFrame [1, 2, 3], rawFrame [4]] 3 ↔
      (sound 44100).samplerate ≠ 7350 ∧ 8*((3 : ℕ)+7)*(sound 44100).samplerate < 2^31 := by
  apply comes_back_iff soundOnly (sound 44100) (sound 0) (rawFrame [1, 2, 3]) [rawFrame [4]]
  · exact ⟨by decide, by decide, by decide⟩
  · intro g hg
    simp only [List.mem_cons, List.not_mem_nil, or_false] at hg
    rcases hg with rfl | rfl
    · exact ⟨rfl, rfl, by decide, by decide, by decide⟩
    · exact ⟨rfl, rfl, by decide, by decide, by decide⟩

/-- The lowest sample rate of the table comes back as the one above. -/
theorem lowest_rate_lost :
    ¬ComesBack soundOnly (sound 7350) (sound 0) [rawFrame [1, 2, 3]] 3 := by
  intro hback
  have hdesc : Describes (sound 7350) := ⟨by decide, by decide, by decide⟩
  have hframes : ∀ g ∈ [rawFrame [1, 2, 3]], RawFrame g := by
    intro g hg
    rw [List.mem_singleton.mp hg]
    exact ⟨rfl, rfl, by decide, by decide, by decide⟩
  exact absurd rfl (comes_back_forced hdesc hframes hback).1

end Sirannon.AAC
